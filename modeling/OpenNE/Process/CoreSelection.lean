import OpenNE.Process.Lifecycle

/-!
# Which thread is switched to (`src/UserProcessScheduler.cc`, `src/HardwareThreadScheduler.cc`)

`Switch` returns from inside of its loop, so that the first usable thread is the only one it tries. Its busy flag is
cleared first and `mp_register_process` refuses nothing, so it never answers no: the roll-back is out of reach
(`tryOn_eq_ok`), and a thread that was busy or is reserved for the system is taken like any other. What is assigned to
`TheCurrentPID()` goes to a copy, or through null, so the current process keeps its number.
-/

namespace OpenNE

/-- The scheduler with `mCurrentProcess` of its team. -/
structure CurrentScheduler extends Scheduler where
  mCurrentProcess : Option UserProcess

namespace HardwareThreads

/-- The first thread `Switch` may take. -/
def firstUsable (t : HardwareThreads) : Option (Fin 8) := (List.finRange 8).find? fun i => t.Usable i

/-- A thread a process may be given: neither invalid, booted from nor reserved, and not busy. -/
structure Eligible (t : HardwareThreads) (i : Fin 8) : Prop where
  usable : t.Usable i
  unreserved : ((t.threadAt i).fThreadList i).fKind ≠ .kAPSystemReserved
  idle : (t.isBusy i).1 = false

end HardwareThreads

namespace CurrentScheduler

/-- `UserProcessHelper::TheCurrentPID`. -/
def theCurrentPID (s : CurrentScheduler) : Except Int Int :=
  match s.mCurrentProcess with
  | none => .error kErrorProcessFault
  | some process => .ok process.processId

/-- `UserProcessHelper::Switch` once it has found its thread, with the answer of the thread. -/
def tryOn (env : ThreadEnv) (debug : Bool) (i : Fin 8) (image stack frame : UInt64) (pid : Int)
    (s : Scheduler) : Exec (Bool × Scheduler) := do
  env.leakPID
  let s := s.setThread i { s.threads.fThreadList i with fWakeup := true, fBusy := false }
  let prevPTime := (s.threads.fThreadList i).fPTime
  let slot ← processSlot pid
  let s := s.setThread i { s.threads.fThreadList i with fPTime := (s.team.mProcessList slot).pTime }
  let (ret, s) ← s.switchThread env debug i image stack frame pid
  let s ← if ret = false then do
      let s := s.setThread i { s.threads.fThreadList i with fPTime := prevPTime }
      env.leakPID
      pure (s.setThread i { s.threads.fThreadList i with fBusy := true })
    else pure s
  return (ret, s.setThread i { s.threads.fThreadList i with fWakeup := false })

/-- `UserProcessHelper::Switch`, over the threads that are left, with those it has tried and their answers. -/
def tryFrom (env : ThreadEnv) (debug : Bool) (image stack frame : UInt64) (pid : Int) :
    List (Fin 8) → Scheduler → Exec (List (Fin 8 × Bool) × Bool × Scheduler)
  | [], s => .ok ([], false, s)
  | i :: rest, s =>
    let usable := s.threads.Usable i
    let s := { s with threads := s.threads.threadAt i }
    if usable then do
      let (ret, s) ← tryOn env debug i image stack frame pid s
      return ([(i, ret)], true, s)
    else tryFrom env debug image stack frame pid rest s

/-- `UserProcessHelper::Switch`. -/
def trySwitch (env : ThreadEnv) (debug : Bool) (image stack frame : UInt64) (pid : Int) (s : CurrentScheduler) :
    Exec (List (Fin 8 × Bool) × Bool × CurrentScheduler) := do
  let (tried, ret, scheduler) ← tryFrom env debug image stack frame pid (List.finRange 8) s.toScheduler
  return (tried, ret, { s with toScheduler := scheduler })

section Link

variable {env : ThreadEnv} {debug : Bool} {i : Fin 8} {image stack frame : UInt64} {pid : Int} {s : Scheduler}
  {rest : List (Fin 8)}

theorem tryOn_switchOn :
    s.switchOn env debug i image stack frame pid = (tryOn env debug i image stack frame pid s).map Prod.snd := by
  unfold Scheduler.switchOn tryOn
  rcases hleak : env.leakPID with e | _
  · rfl
  rcases hslot : processSlot pid with e | slot
  · rfl
  simp only [Exec.ok_bind]
  generalize Scheduler.switchThread env debug i image stack frame pid _ = answer
  rcases answer with e | ⟨ret, s₁⟩
  · rfl
  · cases ret <;> rfl

theorem tryFrom_switchFrom : s.switchFrom env debug image stack frame pid rest =
    (tryFrom env debug image stack frame pid rest s).map Prod.snd := by
  induction rest generalizing s with
  | nil => rfl
  | cons i rest ih =>
    rw [Scheduler.switchFrom, tryFrom]
    by_cases husable : s.threads.Usable i
    · simp only [if_pos husable, tryOn_switchOn]
      rcases tryOn env debug i image stack frame pid { s with threads := s.threads.threadAt i } with e | ⟨ret, s₁⟩
      · rfl
      · rfl
    · simp only [if_neg husable]
      exact ih

end Link

/-! ### The threads as they are offered -/

section Offered

variable {t : HardwareThreads} {i : Fin 8}

theorem threadAt_same (t : HardwareThreads) (i j : Fin 8) :
    ((t.threadAt i).fThreadList j).fBusy = (t.fThreadList j).fBusy ∧
      ((t.threadAt i).fThreadList j).fPTime = (t.fThreadList j).fPTime ∧
      ((t.threadAt i).fThreadList j).fWakeup = (t.fThreadList j).fWakeup := by
  unfold HardwareThreads.threadAt
  split_ifs
  · by_cases hij : j = i
    · subst hij
      simp [HardwareThreads.setThread]
    · simp [HardwareThreads.setThread, hij]
  · exact ⟨rfl, rfl, rfl⟩

theorem threadAt_zero (t : HardwareThreads) (i : Fin 8) : (t.threadAt 0).threadAt i = t.threadAt 0 := by
  by_cases hi : i = 0
  · subst hi
    unfold HardwareThreads.threadAt
    split_ifs <;> simp_all [HardwareThreads.setThread]
  · rw [HardwareThreads.threadAt, if_neg fun h => hi h.1]

theorem threadAt_thread (t : HardwareThreads) (i : Fin 8) :
    ((t.threadAt 0).threadAt i).fThreadList i = (t.threadAt i).fThreadList i := by
  rw [threadAt_zero]
  by_cases hi : i = 0
  · rw [hi]
  · have hrest : t.threadAt i = t := if_neg fun h => hi h.1
    rw [hrest, HardwareThreads.threadAt]
    split_ifs
    · exact Function.update_of_ne hi ..
    · rfl

theorem usable_threadAt : (t.threadAt 0).Usable i ↔ t.Usable i := by
  unfold HardwareThreads.Usable
  rw [threadAt_thread]

theorem firstUsable_threadAt (t : HardwareThreads) : (t.threadAt 0).firstUsable = t.firstUsable := by
  unfold HardwareThreads.firstUsable
  simp only [usable_threadAt]

end Offered

/-! ### One attempt -/

/-- A thread takes the process: the assignment to the copy returns, the process is one of the team and has a frame,
and the processor takes the interrupt. -/
structure Takes (env : ThreadEnv) (image frame : UInt64) (pid : Int) : Prop where
  leakPID : env.leakPID = .ok ()
  slot : 0 ≤ pid ∧ pid < 32
  frame : frame ≠ 0
  sipi : env.halSendSipi (image >>> (12 : UInt64)).toUInt8 = .ok ()

section Attempt

variable {env : ThreadEnv} {debug ret : Bool} {i : Fin 8} {image stack frame : UInt64} {pid : Int}
  {s s' : Scheduler}

theorem isBusy_clear {t : HardwareThreads} (hclear : (t.fThreadList i).fBusy = false) :
    t.isBusy i = (false, { t with busyTimer := t.busyTimer + 1 }) := by
  unfold HardwareThreads.isBusy
  dsimp only
  rw [if_neg (by simp [hclear]), hclear]

theorem frameBP_word {k : Kernel} :
    ((k.setWord frame frameBP image).setWord frame frameSP stack).word frame frameBP = image := by
  rw [Kernel.word_setWord_other (by decide), Kernel.word_setWord_same]

theorem switchThread_eq_ok (hclear : (s.threads.fThreadList i).fBusy = false)
    (h : s.switchThread env debug i image stack frame pid = .ok (ret, s')) :
    ret = true ∧ frame ≠ 0 ∧ env.halSendSipi (image >>> (12 : UInt64)).toUInt8 = .ok () := by
  unfold Scheduler.switchThread at h
  dsimp only at h
  rw [isBusy_clear hclear, if_neg Bool.false_ne_true] at h
  split_ifs at h with hframe
  · cases h
  · obtain ⟨_, -, h⟩ := Exec.bind_eq_ok.mp h
    obtain ⟨_, hsipi, h⟩ := Exec.bind_eq_ok.mp h
    obtain ⟨rfl, -⟩ := Prod.mk.injEq .. ▸ Except.ok.inj h
    rw [frameBP_word] at hsipi
    exact ⟨rfl, hframe, hsipi⟩

theorem switchThread_eq (hclear : (s.threads.fThreadList i).fBusy = false) (hframe : frame ≠ 0)
    (hsipi : env.halSendSipi (image >>> (12 : UInt64)).toUInt8 = .ok ()) {j : Fin 32}
    (hindex : (UInt32.ofInt pid).toNat % 32 = j.1) :
    s.switchThread env debug i image stack frame pid = .ok (true,
      { s with
        threads :=
          { fThreadList := Function.update s.threads.fThreadList i
              { s.threads.fThreadList i with fStack := frame, fSourcePID := UInt32.ofInt pid }
            busyTimer := s.threads.busyTimer + 1
            kProcessBlocks := Function.update s.threads.kProcessBlocks j frame }
        sys.kernel := (s.sys.kernel.setWord frame frameBP image).setWord frame frameSP stack }) := by
  unfold Scheduler.switchThread
  dsimp only
  rw [isBusy_clear hclear, if_neg Bool.false_ne_true, if_neg hframe]
  have hpass : mustPass debug (frame ≠ 0) = .ok () := by simp [mustPass, hframe]
  have hslot : (⟨(UInt32.ofInt pid).toNat % 32, Nat.mod_lt _ (by decide)⟩ : Fin 32) = j := Fin.ext hindex
  unfold Scheduler.mpRegisterProcess
  dsimp only
  rw [hpass, frameBP_word, hsipi, hslot]
  rfl

theorem tryOn_eq_ok (h : tryOn env debug i image stack frame pid s = .ok (ret, s')) :
    ret = true ∧ Takes env image frame pid := by
  obtain ⟨_, hleak, h⟩ := Exec.bind_eq_ok.mp h
  obtain ⟨slot, hslot, h⟩ := Exec.bind_eq_ok.mp h
  obtain ⟨⟨ret', s₁⟩, hthread, h⟩ := Exec.bind_eq_ok.mp h
  obtain ⟨rfl, hframe, hsipi⟩ := switchThread_eq_ok (by simp [Scheduler.setThread, HardwareThreads.setThread]) hthread
  obtain ⟨rfl, -⟩ := Prod.mk.injEq .. ▸ Except.ok.inj h
  have hpid := Machine.processSlot_eq_ok hslot
  exact ⟨rfl, hleak, ⟨by omega, by omega⟩, hframe, hsipi⟩

theorem tryOn_takes (h : Takes env image frame pid) :
    ∃ s', tryOn env debug i image stack frame pid s = .ok (true, s') := by
  obtain ⟨slot, hslot⟩ : ∃ slot, processSlot pid = .ok slot := ⟨_, dif_pos h.slot⟩
  unfold tryOn
  rw [h.leakPID, hslot]
  simp only [Exec.ok_bind]
  have hindex : (UInt32.ofInt pid).toNat % 32 < 32 := Nat.mod_lt _ (by decide)
  have hthread : ∃ s₁, Scheduler.switchThread env debug i image stack frame pid
      ((s.setThread i { s.threads.fThreadList i with fWakeup := true, fBusy := false }).setThread i
        { s.threads.fThreadList i with
          fWakeup := true
          fBusy := false
          fPTime := (s.team.mProcessList slot).pTime }) = .ok (true, s₁) :=
    ⟨_, switchThread_eq (by simp [Scheduler.setThread, HardwareThreads.setThread]) h.frame h.sipi
      (j := ⟨_, hindex⟩) rfl⟩
  obtain ⟨s₁, hthread⟩ := hthread
  refine ⟨_, Exec.bind_eq_ok.mpr ⟨(true, s₁), ?_, rfl⟩⟩
  rw [← hthread]
  simp [Scheduler.setThread, HardwareThreads.setThread]

end Attempt

/-! ### The loop -/

/-- What the caller may rely on: yes exactly when an eligible thread took the process, which is then the current one;
no when every eligible thread has refused, and nothing is left of the attempts. -/
structure Selection (s : CurrentScheduler) (pid : Int) (tried : List (Fin 8 × Bool)) (ret : Bool)
    (s' : CurrentScheduler) : Prop where
  accepted : ret = true ↔ ∃ i, s.threads.Eligible i ∧ (i, true) ∈ tried
  current : ret = true → s'.theCurrentPID = .ok pid
  exhausted : ret = false → ∀ i, s.threads.Eligible i → (i, false) ∈ tried
  rolledBack : ret = false → s'.theCurrentPID = s.theCurrentPID ∧ ∀ i,
    (s'.threads.fThreadList i).fBusy = (s.threads.fThreadList i).fBusy ∧
      (s'.threads.fThreadList i).fPTime = (s.threads.fThreadList i).fPTime ∧
      (s'.threads.fThreadList i).fWakeup = (s.threads.fThreadList i).fWakeup

section Loop

variable {env : ThreadEnv} {debug : Bool} {i : Fin 8} {image stack frame : UInt64} {pid : Int} {s : CurrentScheduler}

theorem tryFrom_find {s : Scheduler} (hmarked : s.threads.threadAt 0 = s.threads) (rest : List (Fin 8)) :
    tryFrom env debug image stack frame pid rest s =
      match rest.find? fun i => s.threads.Usable i with
      | none => .ok ([], false, s)
      | some i => (tryOn env debug i image stack frame pid s).map fun r => ([(i, r.1)], true, r.2) := by
  induction rest with
  | nil => rfl
  | cons i rest ih =>
    have hsame : s.threads.threadAt i = s.threads := by rw [← hmarked, threadAt_zero]
    rw [tryFrom, hsame]
    by_cases husable : s.threads.Usable i
    · rw [List.find?_cons_of_pos (by simpa using husable)]
      simp only [if_pos husable]
      rcases tryOn env debug i image stack frame pid s with e | r <;> rfl
    · rw [List.find?_cons_of_neg (by simpa using husable)]
      simp only [if_neg husable]
      exact ih

theorem tryFrom_marked (s : Scheduler) :
    tryFrom env debug image stack frame pid (List.finRange 8) s =
      tryFrom env debug image stack frame pid (List.finRange 8) { s with threads := s.threads.threadAt 0 } := by
  rw [List.finRange_succ, tryFrom, tryFrom]
  simp only [threadAt_zero, usable_threadAt]

theorem trySwitch_eq (s : CurrentScheduler) :
    s.trySwitch env debug image stack frame pid =
      match s.threads.firstUsable with
      | none => .ok ([], false, { s with threads := s.threads.threadAt 0 })
      | some i => (tryOn env debug i image stack frame pid
          { s.toScheduler with threads := s.threads.threadAt 0 }).map fun r =>
            ([(i, r.1)], true, { s with toScheduler := r.2 }) := by
  rw [trySwitch, tryFrom_marked, tryFrom_find (threadAt_zero ..), ← HardwareThreads.firstUsable,
    firstUsable_threadAt]
  cases s.threads.firstUsable with
  | none => rfl
  | some i =>
    dsimp only
    rcases tryOn env debug i image stack frame pid _ with e | r <;> rfl

theorem trySwitch_switch (s : CurrentScheduler) :
    s.switch env debug image stack frame pid =
      (s.trySwitch env debug image stack frame pid).map fun r => (r.2.1, r.2.2.toScheduler) := by
  rw [Scheduler.switch, tryFrom_switchFrom, trySwitch]
  rcases tryFrom env debug image stack frame pid (List.finRange 8) s.toScheduler with e | r <;> rfl

theorem firstUsable_eq_none {t : HardwareThreads} : t.firstUsable = none ↔ ∀ i, ¬ t.Usable i := by
  simp [HardwareThreads.firstUsable, List.find?_eq_none, List.mem_finRange]

theorem Selection.none (hnone : ∀ i, ¬ s.threads.Usable i) :
    s.Selection pid [] false { s with threads := s.threads.threadAt 0 } where
  accepted := by simp
  current h := by cases h
  exhausted _ i heligible := absurd heligible.usable (hnone i)
  rolledBack _ := ⟨rfl, fun i => threadAt_same s.threads 0 i⟩

theorem selection_accepted {scheduler : Scheduler} :
    s.Selection pid [(i, true)] true { s with toScheduler := scheduler } ↔
      s.threads.Eligible i ∧ s.theCurrentPID = .ok pid := by
  have hcurrent : theCurrentPID { s with toScheduler := scheduler } = s.theCurrentPID := rfl
  refine ⟨fun h => ?_, fun ⟨heligible, hpid⟩ => ?_⟩
  · obtain ⟨j, heligible, hmem⟩ := h.accepted.mp rfl
    obtain rfl : j = i := by simpa using hmem
    exact ⟨heligible, hcurrent ▸ h.current rfl⟩
  · exact ⟨⟨fun _ => ⟨i, heligible, List.mem_singleton_self _⟩, fun _ => rfl⟩, fun _ => hcurrent.trans hpid,
      fun h => (by cases h), fun h => (by cases h)⟩

/-- `Switch` selects as its caller may rely on exactly when there is no usable thread, or when the first of them is
neither reserved nor busy and takes the process, which is the current one already. -/
theorem selection_iff (env : ThreadEnv) (debug : Bool) (image stack frame : UInt64) (pid : Int)
    (s : CurrentScheduler) :
    (∃ tried ret s', s.trySwitch env debug image stack frame pid = .ok (tried, ret, s') ∧
        s.Selection pid tried ret s') ↔
      (∀ i, ¬ s.threads.Usable i) ∨
        ∃ i, s.threads.firstUsable = some i ∧ s.threads.Eligible i ∧ s.theCurrentPID = .ok pid ∧
          Takes env image frame pid := by
  rw [trySwitch_eq, ← firstUsable_eq_none]
  cases hfirst : s.threads.firstUsable with
  | none => exact ⟨fun _ => Or.inl rfl, fun _ => ⟨_, _, _, rfl, .none (firstUsable_eq_none.mp hfirst)⟩⟩
  | some i =>
    constructor
    · rintro ⟨tried, ret, s', hcall, hselection⟩
      dsimp only at hcall
      cases htry : tryOn env debug i image stack frame pid { s.toScheduler with threads := s.threads.threadAt 0 } with
      | error e =>
        rw [htry] at hcall
        cases hcall
      | ok r =>
        obtain ⟨hret, htakes⟩ := tryOn_eq_ok htry
        rw [htry, Except.map, hret] at hcall
        obtain ⟨rfl, h⟩ := Prod.mk.injEq .. ▸ Except.ok.inj hcall
        obtain ⟨rfl, rfl⟩ := Prod.mk.injEq .. ▸ h
        obtain ⟨heligible, hpid⟩ := selection_accepted.mp hselection
        exact Or.inr ⟨i, rfl, heligible, hpid, htakes⟩
    · rintro (h | ⟨j, hj, heligible, hpid, htakes⟩)
      · cases h
      · obtain rfl := Option.some.inj hj
        have htry : ∃ scheduler, tryOn env debug i image stack frame pid
            { s.toScheduler with threads := s.threads.threadAt 0 } = .ok (true, scheduler) := tryOn_takes htakes
        obtain ⟨scheduler, htry⟩ := htry
        refine ⟨_, _, { s with toScheduler := scheduler }, ?_, selection_accepted.mpr ⟨heligible, hpid⟩⟩
        dsimp only
        rw [htry]
        rfl

end Loop

/-- Every thread is busy, with time left. -/
def busyThreads : CurrentScheduler :=
  { idleLife.scheduler with
    threads := ⟨fun _ => { fBusy := true, fPTime := 100 }, 0, fun _ => 0⟩
    mCurrentProcess := some { processId := 0 } }

/-- With every thread busy the process is given to the second one, and the answer is yes. -/
theorem busy_thread_selected :
    (∀ i, ¬ busyThreads.threads.Eligible i) ∧ busyThreads.theCurrentPID = .ok 0 ∧
      ∃ s', busyThreads.trySwitch plainThreads true 0x4000 0x9000 0x8000 0 = .ok ([(1, true)], true, s') ∧
        ¬ busyThreads.Selection 0 [(1, true)] true s' := by
  have hnone : ∀ i, ¬ busyThreads.threads.Eligible i := by
    intro i heligible
    have hbusy : (busyThreads.threads.isBusy i).1 = true := rfl
    rw [heligible.idle] at hbusy
    cases hbusy
  have hcall : (busyThreads.trySwitch plainThreads true 0x4000 0x9000 0x8000 0).map (fun r => (r.1, r.2.1)) =
      .ok ([(1, true)], true) := by rfl
  obtain ⟨⟨tried, ret, s'⟩, hswitch, hparts⟩ := Exec.exists_of_map hcall
  obtain ⟨rfl, rfl⟩ := Prod.mk.injEq .. ▸ hparts
  refine ⟨hnone, rfl, s', hswitch, fun hselection => ?_⟩
  obtain ⟨i, heligible, -⟩ := hselection.accepted.mp rfl
  exact hnone i heligible

end CurrentScheduler

end OpenNE

import OpenNE.Base.LastWrite
import OpenNE.Process.CoreSelection

/-!
# Runs of switches (`UserProcessHelper::Switch`, `HALKit/AMD64/HalApplicationProcessor.cc`)

A switch goes to the first usable thread and leaves the kinds of the threads as they are, so every switch of a run goes
to the same one: the others never run anything. Behind the run the context of a process is the frame it was switched to
last, and the thread holds the frame of the last switch of all (`switches_run`).
-/

namespace OpenNE

open HardwareThreads CurrentScheduler

/-- `mp_get_current_context`. -/
def mpGetCurrentContext (t : HardwareThreads) (pid : Int) : Exec UInt64 := do
  let processIndex ← processSlot (pid.tmod 32)
  return t.kProcessBlocks processIndex

theorem mpGetCurrentContext_slot (t : HardwareThreads) (j : Fin 32) :
    mpGetCurrentContext t j.1 = .ok (t.kProcessBlocks j) := by
  have hmod : (j.1 : Int).tmod 32 = j.1 := Int.tmod_eq_of_lt (by omega) (by omega)
  rw [mpGetCurrentContext, hmod, Machine.processSlot_fin]
  rfl

/-- A call of `Switch`, with what it answers. -/
structure SwitchCall where
  image : UInt64
  stack : UInt64
  frame : UInt64
  pid : Int
  ret : Bool

/-- The call. -/
def SwitchStep (env : ThreadEnv) (debug : Bool) (s : Scheduler) (op : SwitchCall) (s' : Scheduler) : Prop :=
  s.switch env debug op.image op.stack op.frame op.pid = .ok (op.ret, s')

/-- A thread given the process `j`. -/
def HardwareThread.loaded (thread : HardwareThread) (team : UserProcessTeam) (frame : UInt64) (j : Fin 32) :
    HardwareThread :=
  { thread with
    fStack := frame
    fSourcePID := UInt32.ofInt j.1
    fWakeup := false
    fBusy := false
    fPTime := (team.mProcessList j).pTime }

namespace Scheduler

/-- The threads once they have been asked for. -/
def offered (s : Scheduler) : Scheduler := { s with threads := s.threads.threadAt ⟨0, Nat.succ_pos 7⟩ }

theorem offered_eq (s : Scheduler) : s.offered = { s with threads := s.threads.threadAt 0 } := rfl

/-- The thread `i` given the process `j`. -/
def given (s : Scheduler) (i : Fin 8) (j : Fin 32) (image stack frame : UInt64) : Scheduler :=
  { s with
    threads :=
      { fThreadList := Function.update s.threads.fThreadList i ((s.threads.fThreadList i).loaded s.team frame j)
        busyTimer := s.threads.busyTimer + 1
        kProcessBlocks := Function.update s.threads.kProcessBlocks j frame }
    sys.kernel := (s.sys.kernel.setWord frame frameBP image).setWord frame frameSP stack }

end Scheduler

section Step

variable {env : ThreadEnv} {debug ret : Bool} {i : Fin 8} {j : Fin 32} {image stack frame : UInt64} {pid : Int}
  {s s' : Scheduler}

theorem sourcePID_slot (j : Fin 32) : (UInt32.ofInt j.1).toNat % 32 = j.1 := by
  have hsmall : (UInt32.ofInt j.1).toNat = j.1 := by
    rw [UInt32.ofInt, UInt32.toNat_ofNat']
    omega
  rw [hsmall, Nat.mod_eq_of_lt j.2]

theorem takes_process (h : Takes env image frame pid) : ∃ j : Fin 32, pid = j.1 := by
  have hslot := h.slot
  exact ⟨⟨pid.toNat, by omega⟩, (Int.toNat_of_nonneg hslot.1).symm⟩

theorem tryOn_eq (h : Takes env image frame j.1) :
    tryOn env debug i image stack frame j.1 s = .ok (true, s.given i j image stack frame) := by
  unfold tryOn
  rw [h.leakPID, Machine.processSlot_fin]
  simp only [Exec.ok_bind]
  rw [switchThread_eq (by simp [Scheduler.setThread, HardwareThreads.setThread]) h.frame h.sipi (sourcePID_slot j)]
  simp [Scheduler.setThread, HardwareThreads.setThread, Scheduler.given, HardwareThread.loaded]

theorem switch_eq : s.switch env debug image stack frame pid =
    s.threads.firstUsable.elim (.ok (false, s.offered)) fun i =>
      (tryOn env debug i image stack frame pid s.offered).map fun r => (true, r.2) := by
  have hcall : s.switch env debug image stack frame pid = Except.map (fun r => (r.2.1, r.2.2.toScheduler))
      (trySwitch env debug image stack frame pid ⟨s, none⟩) := trySwitch_switch ⟨s, none⟩
  rw [trySwitch_eq] at hcall
  refine hcall.trans ?_
  cases s.threads.firstUsable with
  | none => rfl
  | some i =>
    dsimp only [Option.elim]
    rw [Scheduler.offered_eq]
    rcases tryOn env debug i image stack frame pid _ with e | r <;> rfl

theorem switch_eq_ok : s.switch env debug image stack frame pid = .ok (ret, s') ↔
    s.threads.firstUsable = none ∧ ret = false ∧ s' = s.offered ∨
      ∃ i j, s.threads.firstUsable = some i ∧ pid = (j : Fin 32).1 ∧ Takes env image frame pid ∧ ret = true ∧
        s' = s.offered.given i j image stack frame := by
  rw [switch_eq]
  cases hfirst : s.threads.firstUsable with
  | none =>
    constructor
    · intro h
      obtain ⟨rfl, rfl⟩ := Prod.mk.injEq .. ▸ Except.ok.inj h
      exact Or.inl ⟨rfl, rfl, rfl⟩
    · rintro (⟨-, rfl, rfl⟩ | ⟨_, _, h, -⟩)
      · rfl
      · cases h
  | some i =>
    constructor
    · intro h
      refine Or.inr ?_
      cases htry : tryOn env debug i image stack frame pid s.offered with
      | error e =>
        rw [Option.elim, htry] at h
        cases h
      | ok r =>
        have htakes : Takes env image frame pid := (tryOn_eq_ok htry).2
        obtain ⟨j, hj⟩ := takes_process htakes
        rw [hj] at htakes
        rw [hj, Option.elim, tryOn_eq htakes] at h
        obtain ⟨rfl, rfl⟩ := Prod.mk.injEq .. ▸ Except.ok.inj h
        exact ⟨i, j, rfl, hj, hj ▸ htakes, rfl, rfl⟩
    · rintro (⟨h, -⟩ | ⟨i', j, h, rfl, htakes, rfl, rfl⟩)
      · cases h
      · obtain rfl := Option.some.inj h
        rw [Option.elim, tryOn_eq htakes]
        rfl

end Step

/-! ### The kinds stay -/

section Kinds

variable {t t' : HardwareThreads} {i : Fin 8} {j : Fin 32} {image stack frame : UInt64} {s : Scheduler}

theorem firstUsable_kinds (hkinds : ∀ k, (t'.fThreadList k).fKind = (t.fThreadList k).fKind) :
    t'.firstUsable = t.firstUsable := by
  have husable : ∀ k, t'.Usable k ↔ t.Usable k := by
    intro k
    unfold HardwareThreads.Usable HardwareThreads.threadAt
    rw [hkinds]
    split_ifs
    · simp [HardwareThreads.setThread]
    · rw [hkinds]
  unfold HardwareThreads.firstUsable
  simp only [husable]

theorem given_kind (k : Fin 8) :
    ((s.given i j image stack frame).threads.fThreadList k).fKind = (s.threads.fThreadList k).fKind := by
  have hthreads : (s.given i j image stack frame).threads.fThreadList = Function.update s.threads.fThreadList i
      ((s.threads.fThreadList i).loaded s.team frame j) := rfl
  rw [hthreads]
  by_cases hk : k = i
  · rw [hk, Function.update_self]
    rfl
  · rw [Function.update_of_ne hk]

theorem firstUsable_offered : s.offered.threads.firstUsable = s.threads.firstUsable := firstUsable_threadAt s.threads

theorem firstUsable_given : (s.offered.given i j image stack frame).threads.firstUsable = s.threads.firstUsable :=
  (firstUsable_kinds given_kind).trans firstUsable_offered

theorem threadAt_kind (t : HardwareThreads) :
    ((t.threadAt 0).fThreadList 0).fKind = .kAPSystemReserved ∨ ((t.threadAt 0).fThreadList 0).fKind = .kAPBoot := by
  unfold HardwareThreads.threadAt
  split_ifs with hmark
  · exact Or.inr (by simp [HardwareThreads.setThread])
  · exact Or.inl (not_not.mp fun hkind => hmark ⟨rfl, hkind⟩)

theorem threadAt_marked (h : (t.fThreadList 0).fKind = .kAPSystemReserved ∨ (t.fThreadList 0).fKind = .kAPBoot) :
    t.threadAt 0 = t := by
  unfold HardwareThreads.threadAt
  split_ifs with hmark
  · have hboot : (t.fThreadList 0).fKind = .kAPBoot := h.resolve_left hmark.2
    rw [← hboot, HardwareThreads.setThread, Function.update_eq_self]
  · rfl

theorem offered_given : (s.offered.given i j image stack frame).offered = s.offered.given i j image stack frame := by
  have hmarked : (s.offered.given i j image stack frame).threads.threadAt 0 =
      (s.offered.given i j image stack frame).threads := by
    apply threadAt_marked
    rw [given_kind]
    exact threadAt_kind s.threads
  rw [Scheduler.offered_eq, hmarked]

theorem offered_blocks : s.offered.threads.kProcessBlocks j = s.threads.kProcessBlocks j := by
  unfold Scheduler.offered HardwareThreads.threadAt
  split_ifs <;> rfl

theorem offered_offered : s.offered.offered = s.offered := by
  rw [Scheduler.offered_eq, Scheduler.offered_eq, threadAt_zero]

end Kinds

/-! ### The runs -/

namespace SwitchCall

def slot (op : SwitchCall) : Fin 32 := ⟨op.pid.toNat % 32, Nat.mod_lt _ (Nat.succ_pos 31)⟩

/-- The call returns: no, without a usable thread, and yes, when the first of them takes the process. -/
def Answered (env : ThreadEnv) (first : Option (Fin 8)) (op : SwitchCall) : Prop :=
  if first.isSome then op.ret = true ∧ Takes env op.image op.frame op.pid else op.ret = false

end SwitchCall

/-- What is left behind a run of switches to the thread `i`. -/
structure Switched (i : Fin 8) (s : Scheduler) (ops : List SwitchCall) (s' : Scheduler) : Prop where
  threads : s'.offered.threads.fThreadList = ops.getLast?.elim s.offered.threads.fThreadList fun op =>
    Function.update s.offered.threads.fThreadList i ((s.offered.threads.fThreadList i).loaded s.team op.frame op.slot)
  contexts : ∀ j : Fin 32, mpGetCurrentContext s'.threads j.1 =
    (lastWrite (fun op => op.slot = j) ops).elim (mpGetCurrentContext s.threads j.1) fun op => .ok op.frame

section Run

variable {env : ThreadEnv} {debug : Bool} {i : Fin 8} {s s' : Scheduler} {op : SwitchCall} {ops : List SwitchCall}

theorem SwitchStep.firstUsable (h : SwitchStep env debug s op s') :
    s'.threads.firstUsable = s.threads.firstUsable := by
  rcases switch_eq_ok.mp h with ⟨-, -, rfl⟩ | ⟨i, j, -, -, -, -, rfl⟩
  · exact firstUsable_offered
  · exact firstUsable_given

theorem switchStep_some (hfirst : s.threads.firstUsable = some i) (h : SwitchStep env debug s op s') :
    s' = s.offered.given i op.slot op.image op.stack op.frame := by
  rcases switch_eq_ok.mp h with ⟨hnone, -⟩ | ⟨i', j, hsome, hpid, -, -, rfl⟩
  · rw [hfirst] at hnone
    cases hnone
  · obtain rfl : i = i' := Option.some.inj (hfirst.symm.trans hsome)
    have hslot : op.slot = j := by
      apply Fin.ext
      change op.pid.toNat % 32 = j.1
      omega
    rw [hslot]

theorem switchStep_none (hfirst : s.threads.firstUsable = none) (h : SwitchStep env debug s op s') :
    s' = s.offered := by
  rcases switch_eq_ok.mp h with ⟨-, -, hs'⟩ | ⟨i', j, hsome, -⟩
  · exact hs'
  · rw [hfirst] at hsome
    cases hsome

theorem switchStep_exists :
    (∃ s', SwitchStep env debug s op s') ↔ op.Answered env s.threads.firstUsable := by
  unfold SwitchCall.Answered
  constructor
  · rintro ⟨s', h⟩
    rcases switch_eq_ok.mp h with ⟨hnone, hret, -⟩ | ⟨i, j, hsome, -, htakes, hret, -⟩
    · rw [hnone]
      exact hret
    · rw [hsome]
      exact ⟨hret, htakes⟩
  · intro h
    cases hfirst : s.threads.firstUsable with
    | none =>
      rw [hfirst] at h
      exact ⟨_, switch_eq_ok.mpr (Or.inl ⟨hfirst, h, rfl⟩)⟩
    | some i =>
      rw [hfirst] at h
      obtain ⟨hret, htakes⟩ := h
      obtain ⟨j, hj⟩ := takes_process htakes
      exact ⟨_, switch_eq_ok.mpr (Or.inr ⟨i, j, hfirst, hj, htakes, hret, rfl⟩)⟩

theorem switched_run (hfirst : s.threads.firstUsable = some i) (h : Run (SwitchStep env debug) s ops s') :
    Switched i s ops s' := by
  let team := s.team
  have hgiven : ∀ u op u', u.threads.firstUsable = some i ∧ u.team = team → SwitchStep env debug u op u' →
      (u'.threads.firstUsable = some i ∧ u'.team = team) ∧
        (u' = u.offered.given i op.slot op.image op.stack op.frame ∧ u.team = team) := by
    rintro u op u' ⟨hfirst, hteam⟩ hstep
    exact ⟨⟨hstep.firstUsable.trans hfirst, (Scheduler.switch_team hstep).trans hteam⟩, switchStep_some hfirst hstep,
      hteam⟩
  obtain ⟨-, hrun⟩ := h.refine (fun u => u.threads.firstUsable = some i ∧ u.team = team) hgiven ⟨hfirst, rfl⟩
  refine ⟨?_, fun j => ?_⟩
  · refine hrun.last_op (fun u => u.offered.threads.fThreadList) (fun threads op =>
      Function.update threads i ((threads i).loaded team op.frame op.slot)) ?_ ?_
    · intro threads op op'
      rw [Function.update_idem, Function.update_self]
      rfl
    · rintro u op u' ⟨rfl, hteam⟩
      rw [offered_given, ← hteam]
      rfl
  · have hblocks : s'.threads.kProcessBlocks j =
        (lastWrite (fun op => op.slot = j) ops).elim (s.threads.kProcessBlocks j) SwitchCall.frame := by
      apply hrun.last_write (fun u => u.threads.kProcessBlocks j) fun _ op => op.frame
      · exact fun _ _ _ _ _ => rfl
      · rintro u op u' ⟨rfl, -⟩ rfl
        exact Function.update_self ..
      · rintro u op u' ⟨rfl, -⟩ hskip
        exact (Function.update_of_ne (Ne.symm hskip) ..).trans offered_blocks
    rw [mpGetCurrentContext_slot, mpGetCurrentContext_slot, hblocks]
    cases lastWrite (fun op => op.slot = j) ops <;> rfl

/-- Every switch of a run goes to the first thread that could be used at its start and answers yes, or there is none
and every one answers no. -/
theorem switches_run (env : ThreadEnv) (debug : Bool) (s : Scheduler) (ops : List SwitchCall) :
    ((∃ s', Run (SwitchStep env debug) s ops s') ↔ ∀ op ∈ ops, op.Answered env s.threads.firstUsable) ∧
      ∀ s', Run (SwitchStep env debug) s ops s' →
        s.threads.firstUsable.elim (s'.offered = s.offered) fun i => Switched i s ops s' := by
  constructor
  · refine Run.exists_iff (fun u => u.threads.firstUsable = s.threads.firstUsable) ?_ ?_ rfl
    · exact fun u op u' hu hstep => hstep.firstUsable.trans hu
    · intro u op hu
      rw [← hu]
      exact switchStep_exists
  · intro s' h
    cases hfirst : s.threads.firstUsable with
    | none =>
      have hnone : s'.threads.firstUsable = none ∧ s'.offered = s.offered := by
        refine h.invariant (fun u => u.threads.firstUsable = none ∧ u.offered = s.offered) ?_ ⟨hfirst, rfl⟩
        rintro u op u' ⟨hnone, hu⟩ hstep
        refine ⟨hstep.firstUsable.trans hnone, ?_⟩
        rw [switchStep_none hnone hstep, offered_offered]
        exact hu
      exact hnone.2
    | some i => exact switched_run hfirst h

/-- Two processes switched to on a machine at rest share the second thread, which keeps the frame of the last. -/
theorem switches_run_twice : ∃ s', Run (SwitchStep plainThreads true) idleLife.scheduler
    [⟨0x4000, 0x9000, 0x8000, 0, true⟩, ⟨0x5000, 0xB000, 0xA000, 1, true⟩] s' ∧
      mpGetCurrentContext s'.threads 0 = .ok 0x8000 ∧ mpGetCurrentContext s'.threads 1 = .ok 0xA000 ∧
      (s'.offered.threads.fThreadList 1).fStack = 0xA000 := by
  have hfirst : idleLife.scheduler.threads.firstUsable = some 1 := by rfl
  have htakes : ∀ op ∈ [(⟨0x4000, 0x9000, 0x8000, 0, true⟩ : SwitchCall), ⟨0x5000, 0xB000, 0xA000, 1, true⟩],
      op.Answered plainThreads idleLife.scheduler.threads.firstUsable := by
    have hanswered : ∀ image stack frame : UInt64, ∀ pid : Int, 0 ≤ pid ∧ pid < 32 → frame ≠ 0 →
        SwitchCall.Answered plainThreads (some 1) ⟨image, stack, frame, pid, true⟩ :=
      fun _ _ _ _ hslot hframe => ⟨rfl, rfl, hslot, hframe, rfl⟩
    rw [hfirst]
    intro op hop
    rcases List.mem_cons.mp hop with rfl | hop
    · exact hanswered _ _ _ _ (by decide) (by decide)
    · rw [List.mem_singleton.mp hop]
      exact hanswered _ _ _ _ (by decide) (by decide)
  obtain ⟨hexists, hswitched⟩ := switches_run plainThreads true idleLife.scheduler
    [⟨0x4000, 0x9000, 0x8000, 0, true⟩, ⟨0x5000, 0xB000, 0xA000, 1, true⟩]
  obtain ⟨s', h⟩ := hexists.mpr htakes
  have hlast := hswitched s' h
  rw [hfirst] at hlast
  obtain ⟨hthreads, hcontexts⟩ := hlast
  refine ⟨s', h, ?_, ?_, ?_⟩
  · exact hcontexts 0
  · exact hcontexts 1
  · rw [hthreads]
    rfl

end Run

end OpenNE

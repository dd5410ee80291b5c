import OpenNE.Process.Lifecycle

/-!
# The period of the round robin

`Run` counts the time of a process down once a pass and dispatches it at zero, when it sets the time to the affinity
`a`. The turns of the other slots do not touch it (`runLogged_turn`). So over any number of passes the next dispatch
is as many passes ahead as the time says, and every `a + 1` passes there is one (`round_robin`).
-/

namespace OpenNE

/-- What a pass that takes every process it selects does to the time. -/
def UserProcess.pace (process : UserProcess) : UserProcess :=
  { process with
    pTime := if canBeScheduled process = true then process.affinity.toInt64.toUInt64 else process.pTime - 1 }

/-- A call of `Switch`, made for the process in `slot`. -/
structure HandOver where
  slot : Fin 32
  image : UInt64
  stackPtr : UInt64
  frame : UInt64
  newPid : Int
  deriving DecidableEq

/-- The call of `Switch` that `Run` makes for a process. -/
def UserProcess.handOver (slot : Fin 32) (process : UserProcess) : HandOver :=
  ⟨slot, process.image.fCode, process.stackReserve + (process.stackSize - 1), process.stackFrame, process.processId⟩

namespace Scheduler

/-- `runSlot`, with the calls of `Switch` so far. -/
def runSlotLogged (env : ThreadEnv) (debug : Bool) (fuel : Nat) (r : List HandOver × Scheduler) (i : Fin 32) :
    Exec (List HandOver × Scheduler) := do
  let process := r.2.team.mProcessList i
  if canBeScheduled process = true then
    let process := { process with pTime := process.affinity.toInt64.toUInt64 }
    let call := process.handOver i
    let (switched, s) ← (r.2.setProcess i process).switch env debug call.image call.stackPtr call.frame call.newPid
    if switched = false then
      let m ← s.toMachine.crash env.toProcessEnv debug fuel i
      return (r.1 ++ [call], { s with toMachine := m })
    else return (r.1 ++ [call], s)
  else return (r.1, r.2.setProcess i { process with pTime := process.pTime - 1 })

/-- `Run`, with the calls of `Switch` it made. -/
def runLogged (env : ThreadEnv) (debug : Bool) (fuel : Nat) (s : Scheduler) : Exec (List HandOver × Scheduler) :=
  if s.team.mProcessCount < 1 then .ok ([], s)
  else (List.finRange 32).foldlM (runSlotLogged env debug fuel) ([], s)

/-- A process `Run` may dispatch when its time is over, of affinity `a`. -/
structure Eligible (a : Nat) (process : UserProcess) : Prop where
  running : process.status = .kRunning
  code : process.image.fCode ≠ 0
  name : process.name.getD 0 0 ≠ 0
  affinity : process.affinity.toInt = a

/-- One call of `Run`, which made the calls of `log`, and what is done up to the next one: the process in slot
`i` stays eligible, and nobody else sets its time. -/
def RoundStep (i : Fin 32) (a : Nat) (s : Scheduler) (log : List HandOver) (s' : Scheduler) : Prop :=
  1 ≤ s.team.mProcessCount ∧ Eligible a (s.team.mProcessList i) ∧
    ∃ env debug fuel, ∃ s₁ : Scheduler, s.runLogged env debug fuel = .ok (log, s₁) ∧
      Eligible a (s₁.team.mProcessList i) ∧
      (s'.team.mProcessList i).pTime = (s₁.team.mProcessList i).pTime

section RoundRobin

variable {env : ThreadEnv} {debug : Bool} {fuel a : Nat} {i : Fin 32} {s s' : Scheduler}
  {log log' : List HandOver} {slots : List (Fin 32)} {process : UserProcess}

/-! ### The log -/

/-- The calls of `Switch` that the turn of slot `i` makes. -/
def handOvers (s : Scheduler) (i : Fin 32) : List HandOver :=
  if canBeScheduled (s.team.mProcessList i) = true then [(s.team.mProcessList i).handOver i] else []

theorem mem_handOvers {j : Fin 32} :
    i ∈ (s.handOvers j).map HandOver.slot ↔ i = j ∧ canBeScheduled (s.team.mProcessList i) = true := by
  unfold handOvers
  split_ifs with hcan
  · simp only [List.map_cons, List.map_nil, List.mem_singleton, UserProcess.handOver]
    constructor
    · rintro rfl
      exact ⟨rfl, hcan⟩
    · exact And.left
  · simp only [List.map_nil, List.not_mem_nil, false_iff, not_and]
    rintro rfl
    exact hcan

theorem runSlotLogged_eq (r : List HandOver × Scheduler) (i : Fin 32) :
    runSlotLogged env debug fuel r i = (do
      let s ← r.2.runSlot env debug fuel i
      return (r.1 ++ r.2.handOvers i, s)) := by
  unfold runSlotLogged runSlot handOvers
  dsimp only
  by_cases hcan : canBeScheduled (r.2.team.mProcessList i) = true
  · rw [if_pos hcan, if_pos hcan, if_pos hcan, bind_assoc]
    refine bind_congr fun switched => ?_
    split_ifs
    · rw [bind_assoc]
      rfl
    · rfl
  · rw [if_neg hcan, if_neg hcan, if_neg hcan, List.append_nil]
    rfl

theorem runSlotLogged_eq_ok {r : List HandOver × Scheduler}
    (h : runSlotLogged env debug fuel r i = .ok (log', s')) :
    r.2.runSlot env debug fuel i = .ok s' ∧ log' = r.1 ++ r.2.handOvers i := by
  rw [runSlotLogged_eq] at h
  obtain ⟨s₁, hslot, hret⟩ := Exec.bind_eq_ok.mp h
  obtain ⟨rfl, rfl⟩ := Prod.mk.injEq .. ▸ Except.ok.inj hret
  exact ⟨hslot, rfl⟩

theorem foldlM_runSlotLogged (r : List HandOver × Scheduler) :
    (slots.foldlM (runSlotLogged env debug fuel) r).map Prod.snd = slots.foldlM (runSlot env debug fuel) r.2 := by
  induction slots generalizing r with
  | nil => rfl
  | cons i slots ih =>
    rw [List.foldlM_cons, List.foldlM_cons, runSlotLogged_eq]
    cases hslot : r.2.runSlot env debug fuel i with
    | error e => rfl
    | ok s₁ => exact ih _

theorem run_eq_runLogged (s : Scheduler) :
    (s.run env debug fuel).map Prod.snd = (s.runLogged env debug fuel).map Prod.snd := by
  unfold run runLogged
  split_ifs with hcount
  · rfl
  · have hsame : ((List.finRange 32).foldlM (runSlotLogged env debug fuel) ([], s)).map Prod.snd =
        (List.finRange 32).foldlM (runSlot env debug fuel) s := foldlM_runSlotLogged ([], s)
    rw [hsame]
    cases (List.finRange 32).foldlM (runSlot env debug fuel) s <;> rfl

/-! ### One pass -/

theorem runSlotsLogged_other (h : slots.foldlM (runSlotLogged env debug fuel) (log, s) = .ok (log', s'))
    (hi : i ∉ slots) : s'.team.mProcessList i = s.team.mProcessList i ∧
      (i ∈ log'.map HandOver.slot ↔ i ∈ log.map HandOver.slot) := by
  induction slots generalizing log s with
  | nil =>
    obtain ⟨rfl, rfl⟩ := Prod.mk.injEq .. ▸ Except.ok.inj h
    exact ⟨rfl, Iff.rfl⟩
  | cons j slots ih =>
    obtain ⟨hij, hrest⟩ := not_or.mp (List.mem_cons.not.mp hi)
    rw [List.foldlM_cons] at h
    obtain ⟨⟨log₁, s₁⟩, hlogged, h⟩ := Exec.bind_eq_ok.mp h
    obtain ⟨hslot, rfl⟩ := runSlotLogged_eq_ok hlogged
    obtain ⟨hsame, hlog⟩ := ih h hrest
    refine ⟨by rw [hsame, runSlot_other hslot hij], hlog.trans ?_⟩
    rw [List.map_append, List.mem_append, mem_handOvers]
    simp [hij]

theorem runSlotsLogged_turn (h : slots.foldlM (runSlotLogged env debug fuel) (log, s) = .ok (log', s'))
    (hnodup : slots.Nodup) (hi : i ∈ slots) :
    ∃ s₁ s₂ : Scheduler, s₁.team.mProcessList i = s.team.mProcessList i ∧ s₁.runSlot env debug fuel i = .ok s₂ ∧
      s'.team.mProcessList i = s₂.team.mProcessList i ∧
      (i ∈ log'.map HandOver.slot ↔
        i ∈ log.map HandOver.slot ∨ canBeScheduled (s.team.mProcessList i) = true) := by
  induction slots generalizing log s with
  | nil => cases hi
  | cons j slots ih =>
    obtain ⟨hj, hnodup⟩ := List.nodup_cons.mp hnodup
    rw [List.foldlM_cons] at h
    obtain ⟨⟨log₁, s₂⟩, hlogged, h⟩ := Exec.bind_eq_ok.mp h
    obtain ⟨hslot, rfl⟩ := runSlotLogged_eq_ok hlogged
    by_cases hij : i = j
    · subst hij
      obtain ⟨hsame, hlog⟩ := runSlotsLogged_other h hj
      refine ⟨s, s₂, rfl, hslot, hsame, hlog.trans ?_⟩
      rw [List.map_append, List.mem_append, mem_handOvers]
      simp
    · obtain ⟨s₃, s₄, hsame, hturn, hafter, hlog⟩ := ih h hnodup ((List.mem_cons.mp hi).resolve_left hij)
      have hfirst := runSlot_other hslot hij
      refine ⟨s₃, s₄, by rw [hsame, hfirst], hturn, hafter, ?_⟩
      rw [hlog, hfirst, List.map_append, List.mem_append, mem_handOvers]
      simp [hij]

theorem runLogged_turn (hcount : 1 ≤ s.team.mProcessCount) (h : s.runLogged env debug fuel = .ok (log, s'))
    (i : Fin 32) :
    ∃ s₁ s₂ : Scheduler, s₁.team.mProcessList i = s.team.mProcessList i ∧ s₁.runSlot env debug fuel i = .ok s₂ ∧
      s'.team.mProcessList i = s₂.team.mProcessList i ∧
      (i ∈ log.map HandOver.slot ↔ canBeScheduled (s.team.mProcessList i) = true) := by
  rw [runLogged, if_neg (by omega)] at h
  obtain ⟨s₁, s₂, hbefore, hturn, hafter, hlog⟩ := runSlotsLogged_turn h (List.nodup_finRange 32) (List.mem_finRange i)
  refine ⟨s₁, s₂, hbefore, hturn, hafter, ?_⟩
  rw [hlog]
  simp

theorem Eligible.canBeScheduled_iff (h : Eligible a process) : canBeScheduled process = true ↔ process.pTime = 0 := by
  have hzero : process.pTime < 1 ↔ process.pTime = 0 := by
    rw [UInt64.lt_iff_toNat_lt, ← UInt64.toNat_inj]
    exact Nat.lt_one_iff
  have hname := h.name
  unfold canBeScheduled
  rw [h.running, if_neg (by simp), if_neg (by simp), if_neg h.code, if_neg hname, decide_eq_true_iff, hzero]

theorem Eligible.affinity_toNat (h : Eligible a process) : process.affinity.toInt64.toUInt64.toNat = a := by
  have hint : process.affinity.toInt64.toInt = a := by rw [Int32.toInt_toInt64, h.affinity]
  have hle : 0 ≤ process.affinity.toInt64 := by
    rw [Int64.le_iff_toInt_le, hint]
    exact Int.natCast_nonneg a
  rw [Int64.toNat_toUInt64_of_le hle, Int64.toNatClampNeg, hint, Int.toNat_natCast]

theorem Eligible.pace_pTime (h : Eligible a process) :
    process.pace.pTime.toNat = if process.pTime = 0 then a else process.pTime.toNat - 1 := by
  unfold UserProcess.pace
  by_cases hzero : process.pTime = 0
  · rw [if_pos (h.canBeScheduled_iff.mpr hzero), if_pos hzero]
    exact h.affinity_toNat
  · rw [if_neg (h.canBeScheduled_iff.not.mpr hzero), if_neg hzero]
    apply UInt64.toNat_sub_of_le
    rw [UInt64.le_iff_toNat_le]
    exact Nat.one_le_iff_ne_zero.mpr fun h => hzero (UInt64.toNat_inj.mp h)

theorem runSlot_pTime (hturn : s.runSlot env debug fuel i = .ok s')
    (hrunning : (s.team.mProcessList i).status = .kRunning)
    (hstays : (s'.team.mProcessList i).status = .kRunning) :
    (s'.team.mProcessList i).pTime = (s.team.mProcessList i).pace.pTime := by
  have hset : ∀ process, (s.setProcess i process).team.mProcessList i = process := fun _ => Machine.setProcess_same
  rcases runSlot_cases hturn with ⟨hcan, rfl⟩ | ⟨hcan, s₁, hteam, rfl | ⟨m, hcrash, rfl⟩⟩
  · rw [hset, UserProcess.pace, hcan]
    rfl
  · rw [hteam, hset, UserProcess.pace, hcan]
    rfl
  · -- a process that crashed does not stay
    have hkept : (s₁.team.mProcessList i).status = .kRunning := by
      rw [hteam, hset]
      exact hrunning
    rcases Machine.crash_status hcrash with ⟨hnot, -⟩ | ⟨-, hfinished, -⟩
    · exact absurd hkept hnot
    · rw [hstays] at hfinished
      cases hfinished

theorem RoundStep.pace (h : RoundStep i a s log s') :
    (i ∈ log.map HandOver.slot ↔ canBeScheduled (s.team.mProcessList i) = true) ∧
      (s'.team.mProcessList i).pTime = (s.team.mProcessList i).pace.pTime := by
  obtain ⟨hcount, helig, env, debug, fuel, s₁, hrun, hstays, htime⟩ := h
  obtain ⟨s₂, s₃, hbefore, hturn, hafter, hlog⟩ := runLogged_turn hcount hrun i
  refine ⟨hlog, ?_⟩
  rw [htime, hafter, runSlot_pTime hturn (hbefore ▸ helig.running) (hafter ▸ hstays.running), hbefore]

/-! ### Any number of passes -/

/-- Behind `n` passes the next dispatch is that of a call on the list, and comes within `a` passes behind one. -/
def NextDispatch (p₀ a n p : Nat) : Prop := (∃ k, n + p = p₀ + k * (a + 1)) ∧ (p ≤ a ∨ n + p = p₀)

theorem NextDispatch.dispatched_iff {p₀ n p : Nat} (h : NextDispatch p₀ a n p) :
    p = 0 ↔ ∃ k, n = p₀ + k * (a + 1) := by
  obtain ⟨⟨k, hk⟩, hsoon⟩ := h
  constructor
  · rintro rfl
    exact ⟨k, hk⟩
  · rintro ⟨l, hl⟩
    rcases hsoon with hp | hfirst
    · -- both calls are on the list, and less than a period apart
      rcases Nat.lt_or_ge l k with hlt | hge
      · have hperiod : (l + 1) * (a + 1) ≤ k * (a + 1) := Nat.mul_le_mul_right _ hlt
        rw [Nat.succ_mul] at hperiod
        omega
      · have hperiod : k * (a + 1) ≤ l * (a + 1) := Nat.mul_le_mul_right _ hge
        omega
    · omega

theorem NextDispatch.succ {p₀ n p : Nat} (h : NextDispatch p₀ a n p) :
    NextDispatch p₀ a (n + 1) (if p = 0 then a else p - 1) := by
  obtain ⟨⟨k, hk⟩, hsoon⟩ := h
  by_cases hp : p = 0
  · rw [if_pos hp]
    refine ⟨⟨k + 1, ?_⟩, Or.inl le_rfl⟩
    rw [Nat.succ_mul]
    omega
  · rw [if_neg hp]
    exact ⟨⟨k, by omega⟩, by omega⟩

theorem RoundStep.turn (h : RoundStep i a s log s') :
    (i ∈ log.map HandOver.slot ↔ (s.team.mProcessList i).pTime.toNat = 0) ∧
      (s'.team.mProcessList i).pTime.toNat =
        if (s.team.mProcessList i).pTime.toNat = 0 then a else (s.team.mProcessList i).pTime.toNat - 1 := by
  have helig := h.2.1
  have hzero : (s.team.mProcessList i).pTime = 0 ↔ (s.team.mProcessList i).pTime.toNat = 0 := UInt64.toNat_inj.symm
  obtain ⟨hlog, htime⟩ := h.pace
  rw [hlog, htime, helig.pace_pTime, helig.canBeScheduled_iff]
  simp only [hzero, and_self]

theorem rounds {logs : List (List HandOver)} (h : Run (RoundStep i a) s logs s') :
    NextDispatch (s.team.mProcessList i).pTime.toNat a logs.length (s'.team.mProcessList i).pTime.toNat ∧
      ∀ n (hn : n < logs.length),
        i ∈ logs[n].map HandOver.slot ↔ ∃ k, n = (s.team.mProcessList i).pTime.toNat + k * (a + 1) := by
  induction h with
  | nil => exact ⟨⟨⟨0, by simp⟩, Or.inr (by simp)⟩, fun n hn => absurd hn (Nat.not_lt_zero n)⟩
  | @snoc s₁ s₂ logs log _ hlast ih =>
    obtain ⟨hnext, hlogs⟩ := ih
    obtain ⟨hlog, htime⟩ := hlast.turn
    refine ⟨?_, fun n hn => ?_⟩
    · rw [htime, List.length_append, List.length_singleton]
      exact hnext.succ
    · by_cases hlt : n < logs.length
      · rw [List.getElem_append_left hlt]
        exact hlogs n hlt
      · have hn' : n = logs.length := by
          rw [List.length_append, List.length_singleton] at hn
          omega
        subst hn'
        rw [List.getElem_concat_length rfl, hlog]
        exact hnext.dispatched_iff

end RoundRobin

/-- A process that stays eligible is handed over at the calls its time and its affinity name, whatever the other
slots do. -/
theorem round_robin {i : Fin 32} {a : Nat} {s s' : Scheduler} {logs : List (List HandOver)}
    (h : Run (RoundStep i a) s logs s') (n : Nat) (hn : n < logs.length) :
    i ∈ logs[n].map HandOver.slot ↔ ∃ k, n = (s.team.mProcessList i).pTime.toNat + k * (a + 1) :=
  (rounds h).2 n hn

/-! ### Two passes -/

instance Eligible.decidable (a : Nat) (process : UserProcess) : Decidable (Eligible a process) :=
  decidable_of_iff (process.status = .kRunning ∧ process.image.fCode ≠ 0 ∧ process.name.getD 0 0 ≠ 0 ∧
      process.affinity.toInt = a)
    ⟨fun ⟨running, code, name, affinity⟩ => ⟨running, code, name, affinity⟩,
      fun ⟨running, code, name, affinity⟩ => ⟨running, code, name, affinity⟩⟩

def pacedProcess : UserProcess where
  status := .kRunning
  image := ⟨0x4000, 0⟩
  stackFrame := 0x9000
  affinity := 1
  pTime := 1
  processId := 0

/-- One running process, of affinity 1 and with a pass to go. -/
def paced : Scheduler where
  team := ⟨fun i => if i.1 = 0 then pacedProcess else UserProcessTeam.empty.mProcessList i, 1⟩
  sys := idleMachine.sys
  threads := ⟨fun _ => {}, 0, fun _ => 0⟩

/-- Its one call of `Switch`. -/
def pacedCall : HandOver := ⟨⟨0, by omega⟩, 0x4000, 0x7FFFFF, 0x9000, 0⟩

/-- It is dispatched at the calls 1, 3, 5, ... . -/
theorem round_robin_paced :
    ∃ s', Run (RoundStep 0 1) paced [[], [pacedCall]] s' ∧
      ∀ n (hn : n < [[], [pacedCall]].length),
        0 ∈ ([[], [pacedCall]][n]).map HandOver.slot ↔ ∃ k, n = 1 + k * (1 + 1) := by
  have hpasses : (paced.runLogged plainThreads true 1).map (fun r =>
      (r.1, decide (Eligible 1 (r.2.team.mProcessList 0)), r.2.team.mProcessCount,
        (r.2.runLogged plainThreads true 1).map fun r' =>
          (r'.1, decide (Eligible 1 (r'.2.team.mProcessList 0))))) = .ok ([], true, 1, .ok ([pacedCall], true)) := by
    rfl
  obtain ⟨⟨log, s₁⟩, hfirst, hparts⟩ := Exec.exists_of_map hpasses
  simp only [Prod.mk.injEq, decide_eq_true_eq] at hparts
  obtain ⟨rfl, helig₁, hcount, hsecond⟩ := hparts
  obtain ⟨⟨log', s₂⟩, hsecond, hparts⟩ := Exec.exists_of_map hsecond
  simp only [Prod.mk.injEq, decide_eq_true_eq] at hparts
  obtain ⟨rfl, helig₂⟩ := hparts
  have hrun : Run (RoundStep 0 1) paced [] paced := .nil _
  have hrun₁ : Run (RoundStep 0 1) paced [[]] s₁ :=
    hrun.snoc ⟨by decide, by decide, _, _, _, s₁, hfirst, helig₁, rfl⟩
  have hrun₂ : Run (RoundStep 0 1) paced [[], [pacedCall]] s₂ :=
    hrun₁.snoc ⟨by rw [hcount], helig₁, _, _, _, s₂, hsecond, helig₂, rfl⟩
  exact ⟨s₂, hrun₂, round_robin hrun₂⟩

end Scheduler

end OpenNE

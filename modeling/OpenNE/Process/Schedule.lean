import OpenNE.Process.HardwareThread

/-!
# `UserProcessScheduler::Run`

A pass over the slots of the team. A process that can be scheduled is handed to a thread, and crashes when there is
none; any other one has its time counted down. So the only status a pass changes is that of a running process, which
it makes finished (`run_status`).
-/

namespace OpenNE

/-- `UserProcessHelper::CanBeScheduled`. -/
def canBeScheduled (process : UserProcess) : Bool :=
  if process.status = .kKilled ∨ process.status = .kFinished ∨ process.status = .kStarting ∨
      process.status = .kFrozen then false
  else if process.status = .kInvalid then false
  else if process.image.fCode = 0 then false
  else if process.name.getD 0 0 = 0 then false
  else decide (process.pTime < 1)

theorem canBeScheduled_running {process : UserProcess} (h : canBeScheduled process = true) :
    process.status = .kRunning := by
  unfold canBeScheduled at h
  cases hstatus : process.status
  all_goals simp [hstatus] at h
  rfl

namespace Machine

theorem exit_status {env : ProcessEnv} {debug : Bool} {fuel : Nat} {exitCode : Int32} {i : Fin 32} {m m' : Machine}
    (h : m.exit env debug fuel exitCode i = .ok m') :
    (m'.team.mProcessList i).status = .kFinished ∧
      ∀ j, j ≠ i → m'.team.mProcessList j = m.team.mProcessList j := by
  obtain ⟨⟨process, sys⟩, hexit, hret⟩ := Exec.bind_eq_ok.mp h
  obtain rfl := Except.ok.inj hret
  refine ⟨?_, fun j hj => setProcess_other hj⟩
  rw [← UserProcess.exit_finished hexit]
  exact congrArg UserProcess.status setProcess_same

theorem crash_status {env : ProcessEnv} {debug : Bool} {fuel : Nat} {i : Fin 32} {m m' : Machine}
    (h : m.crash env debug fuel i = .ok m') :
    (m.team.mProcessList i).status ≠ .kRunning ∧ m' = m ∨
      (m.team.mProcessList i).status = .kRunning ∧ (m'.team.mProcessList i).status = .kFinished ∧
        ∀ j, j ≠ i → m'.team.mProcessList j = m.team.mProcessList j := by
  unfold crash at h
  split_ifs at h with hrunning
  · exact Or.inl ⟨hrunning, (Except.ok.inj h).symm⟩
  · exact Or.inr ⟨not_not.mp hrunning, exit_status h⟩

end Machine

namespace Scheduler

def setProcess (s : Scheduler) (i : Fin 32) (process : UserProcess) : Scheduler :=
  { s with toMachine := s.toMachine.setProcess i process }

/-- The pass of `Run` at slot `i`. -/
def runSlot (env : ThreadEnv) (debug : Bool) (fuel : Nat) (s : Scheduler) (i : Fin 32) : Exec Scheduler := do
  let process := s.team.mProcessList i
  if canBeScheduled process = true then
    let process := { process with pTime := process.affinity.toInt64.toUInt64 }
    let (switched, s) ← (s.setProcess i process).switch env debug process.image.fCode
      (process.stackReserve + (process.stackSize - 1)) process.stackFrame process.processId
    if switched = false then
      let m ← s.toMachine.crash env.toProcessEnv debug fuel i
      return { s with toMachine := m }
    else return s
  else return s.setProcess i { process with pTime := process.pTime - 1 }

/-- `UserProcessScheduler::Run`: how many slots were visited. -/
def run (env : ThreadEnv) (debug : Bool) (fuel : Nat) (s : Scheduler) : Exec (Nat × Scheduler) :=
  if s.team.mProcessCount < 1 then .ok (0, s)
  else do
    let s ← (List.finRange 32).foldlM (runSlot env debug fuel) s
    return (32, s)

section RunSlot

variable {env : ThreadEnv} {debug : Bool} {fuel n : Nat} {s s' : Scheduler} {i j : Fin 32}

theorem runSlot_cases (h : s.runSlot env debug fuel i = .ok s') :
    canBeScheduled (s.team.mProcessList i) = false ∧
        s' = s.setProcess i { s.team.mProcessList i with pTime := (s.team.mProcessList i).pTime - 1 } ∨
      canBeScheduled (s.team.mProcessList i) = true ∧
        ∃ s₁ : Scheduler, s₁.team = (s.setProcess i { s.team.mProcessList i with
            pTime := (s.team.mProcessList i).affinity.toInt64.toUInt64 }).team ∧
          (s' = s₁ ∨ ∃ m, s₁.toMachine.crash env.toProcessEnv debug fuel i = .ok m ∧
            s' = { s₁ with toMachine := m }) := by
  unfold runSlot at h
  dsimp only at h
  split_ifs at h with hcan
  · obtain ⟨⟨switched, s₁⟩, hswitch, h⟩ := Exec.bind_eq_ok.mp h
    refine Or.inr ⟨hcan, s₁, switch_team hswitch, ?_⟩
    dsimp only at h
    split_ifs at h with hswitched
    · obtain ⟨m, hcrash, h⟩ := Exec.bind_eq_ok.mp h
      exact Or.inr ⟨m, hcrash, (Except.ok.inj h).symm⟩
    · exact Or.inl (Except.ok.inj h).symm
  · exact Or.inl ⟨Bool.eq_false_iff.mpr hcan, (Except.ok.inj h).symm⟩

theorem runSlot_other (h : s.runSlot env debug fuel i = .ok s') (hj : j ≠ i) :
    s'.team.mProcessList j = s.team.mProcessList j := by
  have hset : ∀ process, (s.setProcess i process).team.mProcessList j = s.team.mProcessList j :=
    fun process => Machine.setProcess_other hj
  rcases runSlot_cases h with ⟨-, rfl⟩ | ⟨-, s₁, hteam, rfl | ⟨m, hcrash, rfl⟩⟩
  · exact hset _
  · rw [hteam, hset]
  · rcases Machine.crash_status hcrash with ⟨-, rfl⟩ | ⟨-, -, hother⟩
    · rw [hteam, hset]
    · rw [hother j hj, hteam, hset]

theorem runSlot_status (h : s.runSlot env debug fuel i = .ok s') :
    (s'.team.mProcessList i).status = (s.team.mProcessList i).status ∨
      (s.team.mProcessList i).status = .kRunning ∧ (s'.team.mProcessList i).status = .kFinished := by
  have hset : ∀ process : UserProcess, process.status = (s.team.mProcessList i).status →
      ((s.setProcess i process).team.mProcessList i).status = (s.team.mProcessList i).status := by
    intro process hstatus
    rw [← hstatus]
    exact congrArg UserProcess.status Machine.setProcess_same
  rcases runSlot_cases h with ⟨-, rfl⟩ | ⟨hcan, s₁, hteam, rfl | ⟨m, hcrash, rfl⟩⟩
  · exact Or.inl (hset _ rfl)
  · rw [hteam]
    exact Or.inl (hset _ rfl)
  · rcases Machine.crash_status hcrash with ⟨-, rfl⟩ | ⟨-, hfinished, -⟩
    · rw [hteam]
      exact Or.inl (hset _ rfl)
    · exact Or.inr ⟨canBeScheduled_running hcan, hfinished⟩

theorem runSlots_status {slots : List (Fin 32)} (h : slots.foldlM (runSlot env debug fuel) s = .ok s') (j : Fin 32) :
    (s'.team.mProcessList j).status = (s.team.mProcessList j).status ∨
      (s.team.mProcessList j).status = .kRunning ∧ (s'.team.mProcessList j).status = .kFinished := by
  induction slots generalizing s with
  | nil =>
    obtain rfl := Except.ok.inj h
    exact Or.inl rfl
  | cons i slots ih =>
    rw [List.foldlM_cons] at h
    obtain ⟨s₁, hslot, h⟩ := Exec.bind_eq_ok.mp h
    have hfirst : (s₁.team.mProcessList j).status = (s.team.mProcessList j).status ∨
        (s.team.mProcessList j).status = .kRunning ∧ (s₁.team.mProcessList j).status = .kFinished := by
      by_cases hj : j = i
      · subst hj
        exact runSlot_status hslot
      · exact Or.inl (by rw [runSlot_other hslot hj])
    rcases ih h with hsame | ⟨hrunning, hfinished⟩
    · rwa [hsame]
    · rcases hfirst with hsame | ⟨-, hended⟩
      · exact Or.inr ⟨hsame ▸ hrunning, hfinished⟩
      · rw [hended] at hrunning
        cases hrunning

theorem run_status (h : s.run env debug fuel = .ok (n, s')) (j : Fin 32) :
    (s'.team.mProcessList j).status = (s.team.mProcessList j).status ∨
      (s.team.mProcessList j).status = .kRunning ∧ (s'.team.mProcessList j).status = .kFinished := by
  unfold run at h
  split_ifs at h with hcount
  · obtain ⟨-, rfl⟩ := Prod.mk.injEq .. ▸ Except.ok.inj h
    exact Or.inl rfl
  · obtain ⟨s₁, hslots, h⟩ := Exec.bind_eq_ok.mp h
    obtain ⟨-, rfl⟩ := Prod.mk.injEq .. ▸ Except.ok.inj h
    exact runSlots_status hslots j

end RunSlot

end Scheduler

end OpenNE

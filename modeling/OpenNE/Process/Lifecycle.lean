import OpenNE.Process.Coherent
import OpenNE.Process.Schedule

/-!
# Processes that have ended

`Crash` asks whether the process is running; `Wake` and `Exit` ask nothing. So a run keeps its killed and finished
processes as they are, each with one exit at most, exactly as long as only processes that have not ended are woken,
and only processes that have not exited are made to exit (`terminal_iff`).
-/

namespace OpenNE

/-- Killed, or finished. -/
def ProcessStatusKind.isEnded (status : ProcessStatusKind) : Bool := status == .kKilled || status == .kFinished

inductive LifeOp where
  | spawn (name : CString) (code image : UInt64)
  | wake (i : Fin 32) (shouldWakeup : Bool)
  | crash (i : Fin 32)
  | exit (i : Fin 32) (exitCode : Int32)
  | remove (processId : Int64)
  | run

/-- The team and its threads; of each slot, whether its process has been killed or finished since its spawn, and how
many exits took effect since. -/
structure LifeState where
  scheduler : Scheduler
  ended : Fin 32 → Bool
  exits : Fin 32 → Nat

namespace LifeState

/-- The status of the process in slot `i`. -/
def status (s : LifeState) (i : Fin 32) : ProcessStatusKind := (s.scheduler.team.mProcessList i).status

/-- The state behind a call that spawned on the slots of `fresh` and exited those of `left`. -/
def after (s : LifeState) (scheduler : Scheduler) (fresh left : Fin 32 → Bool) : LifeState where
  scheduler := scheduler
  ended i := (s.ended i && !fresh i) || (scheduler.team.mProcessList i).status.isEnded
  exits i := (if fresh i then 0 else s.exits i) + (left i).toNat

/-- A call. In a pass of `Run` the running processes that are finished behind it have exited. -/
def call (env : ThreadEnv) (debug : Bool) (fuel : Nat) (s : LifeState) : LifeOp → Exec LifeState
  | .spawn name code image => do
    let (pid, m) ← s.scheduler.spawn env.toProcessEnv debug fuel name code image
    return s.after { s.scheduler with toMachine := m } (fun i => decide ((i.1 : Int) = pid)) fun _ => false
  | .wake i shouldWakeup =>
    return s.after { s.scheduler with toMachine := s.scheduler.wake i shouldWakeup } (fun _ => false) fun _ => false
  | .crash i => do
    let m ← s.scheduler.crash env.toProcessEnv debug fuel i
    return s.after { s.scheduler with toMachine := m } (fun _ => false) fun j => j == i && s.status i == .kRunning
  | .exit i exitCode => do
    let m ← s.scheduler.exit env.toProcessEnv debug fuel exitCode i
    return s.after { s.scheduler with toMachine := m } (fun _ => false) fun j => j == i
  | .remove processId => do
    let (ret, m) ← s.scheduler.remove env.toProcessEnv debug fuel processId
    return s.after { s.scheduler with toMachine := m } (fun _ => false) fun j =>
      ret && j.1 == processId.toUInt64.toNat
  | .run => do
    let (_, scheduler) ← s.scheduler.run env debug fuel
    return s.after scheduler (fun _ => false) fun j =>
      s.status j == .kRunning && (scheduler.team.mProcessList j).status == .kFinished

/-- A process that has not ended is woken; a process that has not exited exits. -/
def CallOK (s : LifeState) : LifeOp → Prop
  | .wake i _ => s.ended i = false
  | .exit i _ => s.exits i = 0
  | .remove processId => ∀ i : Fin 32, i.1 = processId.toUInt64.toNat → s.exits i = 0
  | .spawn _ _ _ | .crash _ | .run => True

instance (s : LifeState) : ∀ op, Decidable (s.CallOK op)
  | .wake i _ => inferInstanceAs (Decidable (s.ended i = false))
  | .exit i _ => inferInstanceAs (Decidable (s.exits i = 0))
  | .remove processId =>
    inferInstanceAs (Decidable (∀ i : Fin 32, i.1 = processId.toUInt64.toNat → s.exits i = 0))
  | .spawn _ _ _ | .crash _ | .run => inferInstanceAs (Decidable True)

/-- A team without processes. -/
structure Empty (s : LifeState) : Prop where
  team : s.scheduler.team = .empty
  ended : ∀ i, s.ended i = true
  exits : ∀ i, s.exits i = 0

end LifeState

def LifeStep (env : ThreadEnv) (debug : Bool) (s : LifeState) (op : LifeOp) (s' : LifeState) : Prop :=
  ∃ fuel, s.call env debug fuel op = .ok s'

/-! ### The invariant -/

/-- The status tells whether a process has ended, and only such a process has exited. -/
structure LifeInv (s : LifeState) : Prop where
  ended : ∀ i, s.ended i = (s.status i).isEnded
  live : ∀ i, s.ended i = false → s.exits i = 0
  once : ∀ i, s.exits i ≤ 1

theorem LifeState.Empty.inv {s : LifeState} (h : s.Empty) : LifeInv s := by
  refine ⟨fun i => ?_, fun i _ => h.exits i, fun i => ?_⟩
  · rw [h.ended, LifeState.status, h.team]
    rfl
  · rw [h.exits]
    omega

namespace LifeInv

variable {env : ThreadEnv} {debug : Bool} {s s' : LifeState} {op : LifeOp} {scheduler : Scheduler}
  {fresh left : Fin 32 → Bool} {i : Fin 32}

/-- What a call does to a slot: nothing, a spawn, an exit, or a change of a process that has not ended. -/
def SlotOK (s : LifeState) (scheduler : Scheduler) (fresh left : Fin 32 → Bool) (i : Fin 32) : Prop :=
  (scheduler.team.mProcessList i).status = s.status i ∧ left i = false ∨
  fresh i = true ∧ (scheduler.team.mProcessList i).status = .kStarting ∧ left i = false ∨
  left i = true ∧ s.exits i = 0 ∧ (scheduler.team.mProcessList i).status = .kFinished ∨
  s.ended i = false ∧ (scheduler.team.mProcessList i).status.isEnded = false ∧ left i = false

theorem after (h : LifeInv s) (hslots : ∀ i, SlotOK s scheduler fresh left i) :
    LifeInv (s.after scheduler fresh left) := by
  have hstatus : ∀ i, (s.after scheduler fresh left).status i = (scheduler.team.mProcessList i).status := fun _ => rfl
  -- a process that has ended has the status it had, or a new one
  have hended : ∀ i, (s.after scheduler fresh left).ended i = ((s.after scheduler fresh left).status i).isEnded := by
    intro i
    rw [hstatus, LifeState.after]
    dsimp only
    rcases hslots i with ⟨hsame, -⟩ | ⟨hfresh, -, -⟩ | ⟨-, -, hfinished⟩ | ⟨hlive, -, -⟩
    · rw [h.ended, hsame]
      cases (s.status i).isEnded <;> simp
    · simp [hfresh]
    · rw [hfinished]
      exact Bool.or_true _
    · rw [hlive]
      simp
  refine ⟨hended, fun i hlive => ?_, fun i => ?_⟩
  · rw [hended, hstatus] at hlive
    simp only [LifeState.after]
    rcases hslots i with ⟨hsame, hleft⟩ | ⟨hfresh, -, hleft⟩ | ⟨-, -, hfinished⟩ | ⟨hold, -, hleft⟩
    · rw [hsame, ← h.ended] at hlive
      simp [hleft, h.live i hlive]
    · simp [hfresh, hleft]
    · rw [hfinished] at hlive
      cases hlive
    · simp [hleft, h.live i hold]
  · have honce := h.once i
    simp only [LifeState.after]
    rcases hslots i with ⟨-, hleft⟩ | ⟨hfresh, -, hleft⟩ | ⟨hleft, hexits, -⟩ | ⟨-, -, hleft⟩
    · rw [hleft]
      split_ifs <;> simp [honce]
    · simp [hfresh, hleft]
    · rw [hexits, hleft]
      simp
    · rw [hleft]
      split_ifs <;> simp [honce]

/-! ### The calls keep it -/

theorem spawn {debug : Bool} {fuel : Nat} {name : CString} {code image : UInt64} {pid : Int} {m : Machine}
    (hspawn : s.scheduler.spawn env.toProcessEnv debug fuel name code image = .ok (pid, m)) (i : Fin 32) :
    SlotOK s { s.scheduler with toMachine := m } (fun i => decide ((i.1 : Int) = pid)) (fun _ => false) i := by
  obtain ⟨-, -, rfl⟩ | ⟨j, hcount⟩ := Machine.spawn_slot hspawn
  · exact Or.inl ⟨rfl, rfl⟩
  obtain ⟨rfl, v, h₁, f, h₂, process, sys, r, h₃, -, -, -, -, rfl⟩ := Machine.spawn_cases hcount hspawn
  by_cases hij : i = j
  · subst hij
    refine Or.inr (Or.inl ⟨by simp, ?_, rfl⟩)
    simp
  · exact Or.inl ⟨congrArg UserProcess.status (Function.update_of_ne hij ..), rfl⟩

theorem exit {debug : Bool} {fuel : Nat} {exitCode : Int32} {j : Fin 32} {m : Machine} (hexits : s.exits j = 0)
    (hexit : s.scheduler.exit env.toProcessEnv debug fuel exitCode j = .ok m) (i : Fin 32) :
    SlotOK s { s.scheduler with toMachine := m } (fun _ => false) (fun k => k == j) i := by
  obtain ⟨hfinished, hother⟩ := Machine.exit_status hexit
  by_cases hij : i = j
  · subst hij
    exact Or.inr (Or.inr (Or.inl ⟨by simp, hexits, hfinished⟩))
  · exact Or.inl ⟨congrArg UserProcess.status (hother i hij), by simp [hij]⟩

theorem wake (j : Fin 32) (shouldWakeup : Bool) (hlive : s.ended j = false) (i : Fin 32) :
    SlotOK s { s.scheduler with toMachine := s.scheduler.wake j shouldWakeup } (fun _ => false) (fun _ => false)
      i := by
  by_cases hij : i = j
  · subst hij
    refine Or.inr (Or.inr (Or.inr ⟨hlive, ?_, rfl⟩))
    have hstatus : ((s.scheduler.wake i shouldWakeup).team.mProcessList i).status =
        if shouldWakeup then .kRunning else .kFrozen := congrArg UserProcess.status Machine.setProcess_same
    rw [hstatus]
    cases shouldWakeup <;> rfl
  · exact Or.inl ⟨congrArg UserProcess.status (Machine.setProcess_other hij), rfl⟩

theorem exits_running (h : LifeInv s) (hrunning : s.status i = .kRunning) : s.exits i = 0 := by
  apply h.live
  rw [h.ended, hrunning]
  rfl

theorem crash (h : LifeInv s) {debug : Bool} {fuel : Nat} {j : Fin 32} {m : Machine}
    (hcrash : s.scheduler.crash env.toProcessEnv debug fuel j = .ok m) (i : Fin 32) :
    SlotOK s { s.scheduler with toMachine := m } (fun _ => false) (fun k => k == j && s.status j == .kRunning) i := by
  rcases Machine.crash_status hcrash with ⟨hnot, rfl⟩ | ⟨hrunning, hfinished, hother⟩
  · have hstatus : s.status j ≠ .kRunning := hnot
    exact Or.inl ⟨rfl, by simp [hstatus]⟩
  · have hstatus : s.status j = .kRunning := hrunning
    by_cases hij : i = j
    · subst hij
      exact Or.inr (Or.inr (Or.inl ⟨by simp [hstatus], h.exits_running hstatus, hfinished⟩))
    · exact Or.inl ⟨congrArg UserProcess.status (hother i hij), by simp [hij]⟩

theorem run (h : LifeInv s) {debug : Bool} {fuel n : Nat} (hrun : s.scheduler.run env debug fuel = .ok (n, scheduler))
    (i : Fin 32) :
    SlotOK s scheduler (fun _ => false)
      (fun j => s.status j == .kRunning && (scheduler.team.mProcessList j).status == .kFinished) i := by
  rcases Scheduler.run_status hrun i with hsame | ⟨hrunning, hfinished⟩
  · have hstatus : (scheduler.team.mProcessList i).status = s.status i := hsame
    refine Or.inl ⟨hstatus, ?_⟩
    dsimp only
    rw [hstatus]
    cases s.status i <;> rfl
  · have hstatus : s.status i = .kRunning := hrunning
    exact Or.inr (Or.inr (Or.inl ⟨by simp [hstatus, hfinished], h.exits_running hstatus, hfinished⟩))

theorem step (h : LifeInv s) (hstep : LifeStep env debug s op s') (hok : s.CallOK op) : LifeInv s' := by
  obtain ⟨fuel, hcall⟩ := hstep
  cases op with
  | spawn name code image =>
    obtain ⟨⟨pid, m⟩, hspawn, hret⟩ := Exec.bind_eq_ok.mp hcall
    rw [← Except.ok.inj hret]
    exact h.after (spawn hspawn)
  | wake i shouldWakeup =>
    rw [← Except.ok.inj hcall]
    exact h.after (wake i shouldWakeup hok)
  | crash i =>
    obtain ⟨m, hcrash, hret⟩ := Exec.bind_eq_ok.mp hcall
    rw [← Except.ok.inj hret]
    exact h.after (h.crash hcrash)
  | exit i exitCode =>
    obtain ⟨m, hexit, hret⟩ := Exec.bind_eq_ok.mp hcall
    rw [← Except.ok.inj hret]
    exact h.after (exit hok hexit)
  | remove processId =>
    obtain ⟨⟨ret, m⟩, hremove, hret⟩ := Exec.bind_eq_ok.mp hcall
    rw [← Except.ok.inj hret]
    rcases Machine.remove_cases hremove with ⟨-, rfl, rfl⟩ | ⟨i, hi, rfl, hexit⟩
    · exact h.after fun _ => Or.inl ⟨rfl, rfl⟩
    · have hleft : (fun j : Fin 32 => true && j.1 == processId.toUInt64.toNat) = fun j => j == i := by
        funext j
        rw [← hi, Bool.true_and, Bool.eq_iff_iff]
        simp [Fin.ext_iff]
      dsimp only
      rw [hleft]
      exact h.after (exit (hok i hi) hexit)
  | run =>
    obtain ⟨⟨n, scheduler⟩, hrun, hret⟩ := Exec.bind_eq_ok.mp hcall
    rw [← Except.ok.inj hret]
    exact h.after (h.run hrun)

end LifeInv

/-- A processor that takes every interrupt. -/
def plainThreads : ThreadEnv :=
  { plainEnv with
    halSendSipi := fun _ => .ok ()
    leakPID := .ok () }

def idleLife : LifeState where
  scheduler := { idleMachine with threads := ⟨fun _ => {}, 0, fun _ => 0⟩ }
  ended _ := true
  exits _ := 0

end OpenNE

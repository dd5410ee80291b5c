import OpenNE.Process.Team

/-!
# Fault handlers (`HALKit/AMD64/HalCoreInterruptHandlerAMD64.cc`)

The five handlers share one body: they mark the current process killed and call `UserProcess::Crash`, which
returns at once unless the process is running. So no fault gets to `UserProcess::Exit`
(`fault_not_torn_down`).
-/

namespace OpenNE

/-- `SIGKILL` (`POSIXKit/signal.h`). -/
def kSigKill : UInt64 := 0

/-- `UserProcess::UserProcessSignal`. -/
structure UserProcessSignal where
  signalIP : UInt64
  previousStatus : ProcessStatusKind
  signalID : UInt64

/-- What a handler reads and writes: the machine, the slot `CurrentProcess` refers to, the signals of the
processes, and the handlers' own flag. -/
structure FaultMachine extends Machine where
  mCurrentProcess : Option (Fin 32)
  processSignal : Fin 32 → UserProcessSignal
  kIsScheduling : Bool
  kcout : List String

namespace FaultMachine

/-- Texts printed. -/
def print (texts : List String) (s : FaultMachine) : FaultMachine :=
  { s with kcout := s.kcout ++ texts }

/-- The writes of a handler to the process in slot `i`. -/
def signalKill (i : Fin 32) (s : FaultMachine) : FaultMachine :=
  let process := s.team.mProcessList i
  { s with
    processSignal := Function.update s.processSignal i ⟨0, process.status, kSigKill⟩
    toMachine := s.toMachine.setProcess i { process with status := .kKilled } }

end FaultMachine

/-- The body of the handlers. A null `CurrentProcess` is followed too. -/
def idtHandleFault (texts : List String) (env : ProcessEnv) (debug : Bool) (fuel : Nat) (s : FaultMachine) :
    Exec FaultMachine :=
  match s.mCurrentProcess with
  | none => .error .fault
  | some i =>
    if (s.team.mProcessList i).status ≠ .kRunning then .ok s
    else do
      let s := { s with kIsScheduling := false }.print texts
      let s := s.print ["Kernel: SIGKILL.\r"]
      let s := s.signalKill i
      let m ← s.toMachine.crash env debug fuel i
      return { s with toMachine := m }

def idtHandleGpf := idtHandleFault ["Kernel: GPF.\r"]

def idtHandlePf := idtHandleFault ["Kernel: Page Fault.\r", "Kernel: SIGKILL set.\r"]

def idtHandleMath := idtHandleFault ["Kernel: Math error (division by zero?)\r"]

def idtHandleGeneric := idtHandleFault ["Kernel: Generic Process Fault.\r"]

def idtHandleUd := idtHandleFault ["Kernel: Undefined Opcode.\r"]

/-- The faults that kill a process. -/
inductive Fault where
  | gpf | pf | math | generic | ud
  deriving DecidableEq

def Fault.handle : Fault → ProcessEnv → Bool → Nat → FaultMachine → Exec FaultMachine
  | .gpf => idtHandleGpf
  | .pf => idtHandlePf
  | .math => idtHandleMath
  | .generic => idtHandleGeneric
  | .ud => idtHandleUd

/-- What `UserProcess::Exit` leaves of the process in slot `i`: finished, its memory list and its image given
back, and one process fewer in the team. -/
structure TornDown (m : Machine) (i : Fin 32) (m' : Machine) : Prop where
  status : (m'.team.mProcessList i).status = .kFinished
  memory : ¬ m'.sys.kernel.Live (m.team.mProcessList i).processMemoryHeap
  image : (m'.team.mProcessList i).image = ⟨0, 0⟩
  count : m'.team.mProcessCount = m.team.mProcessCount - 1

section Handlers

variable {env : ProcessEnv} {debug : Bool} {fuel : Nat} {texts : List String} {s : FaultMachine} {i : Fin 32}

theorem Fault.handle_eq (fault : Fault) : ∃ texts, fault.handle = idtHandleFault texts := by
  rcases fault with _ | _ | _ | _ | _
  all_goals exact ⟨_, rfl⟩

theorem Machine.crash_of_not_running {m : Machine} (h : (m.team.mProcessList i).status ≠ .kRunning) :
    m.crash env debug fuel i = .ok m := by
  rw [crash, if_pos h]

theorem FaultMachine.signalKill_status : ((s.signalKill i).team.mProcessList i).status = .kKilled := by
  simp [signalKill, Machine.setProcess]

theorem idtHandleFault_running (hcurrent : s.mCurrentProcess = some i)
    (hrun : (s.team.mProcessList i).status = .kRunning) :
    idtHandleFault texts env debug fuel s =
      .ok (({ s with kIsScheduling := false }.print texts).print ["Kernel: SIGKILL.\r"] |>.signalKill i) := by
  unfold idtHandleFault
  rw [hcurrent]
  simp only [hrun, ne_eq, not_true_eq_false, if_false]
  rw [Machine.crash_of_not_running]
  · rfl
  · rw [FaultMachine.signalKill_status]
    decide

/-- A fault of the running process leaves it killed, with its image, its blocks and its place in the count:
it is never torn down. -/
theorem fault_not_torn_down (fault : Fault) (env : ProcessEnv) (debug : Bool) (fuel : Nat) {s : FaultMachine}
    {i : Fin 32} (hcurrent : s.mCurrentProcess = some i) (hrun : (s.team.mProcessList i).status = .kRunning) :
    ∃ s', fault.handle env debug fuel s = .ok s' ∧ (s'.team.mProcessList i).status = .kKilled ∧
      (s'.team.mProcessList i).image = (s.team.mProcessList i).image ∧ s'.sys = s.sys ∧
      s'.team.mProcessCount = s.team.mProcessCount ∧ ¬ TornDown s.toMachine i s'.toMachine := by
  obtain ⟨texts, hfault⟩ := fault.handle_eq
  rw [hfault, idtHandleFault_running hcurrent hrun]
  refine ⟨_, rfl, FaultMachine.signalKill_status, ?_, rfl, rfl, ?_⟩
  · simp [FaultMachine.signalKill, FaultMachine.print, Machine.setProcess]
  · intro hdown
    have hstatus := hdown.status
    rw [FaultMachine.signalKill_status] at hstatus
    cases hstatus

end Handlers

/-- The idle machine with a process that has an image running in slot 0. -/
def runningMachine : FaultMachine where
  toMachine := { idleMachine with team := {
    mProcessList := fun _ => { status := .kRunning, image := ⟨0x4000, 0x5000⟩, processParentTeam := true }
    mProcessCount := 1 } }
  mCurrentProcess := some 0
  processSignal := fun _ => ⟨0, .kInvalid, 0⟩
  kIsScheduling := true
  kcout := []

theorem fault_not_torn_down_gpf :
    ∃ s', Fault.gpf.handle plainEnv true 1 runningMachine = .ok s' ∧ (s'.team.mProcessList 0).status = .kKilled ∧
      (s'.team.mProcessList 0).image = (runningMachine.team.mProcessList 0).image ∧
      s'.sys = runningMachine.sys ∧ s'.team.mProcessCount = runningMachine.team.mProcessCount ∧
      ¬ TornDown runningMachine.toMachine 0 s'.toMachine :=
  fault_not_torn_down .gpf plainEnv true 1 rfl rfl

/-- A page fault of the running process does not tear it down. -/
theorem pf_leaves_process :
    ¬ ∃ s', idtHandlePf plainEnv true 1 runningMachine = .ok s' ∧
      TornDown runningMachine.toMachine 0 s'.toMachine := by
  rintro ⟨s', hcall, hdown⟩
  have hcount : (idtHandlePf plainEnv true 1 runningMachine).map (fun s => s.team.mProcessCount) = .ok 1 := by rfl
  rw [hcall] at hcount
  have hone : s'.team.mProcessCount = 1 := Except.ok.inj hcount
  have hdrop := hdown.count
  rw [hone] at hdrop
  exact absurd hdrop (by decide)

end OpenNE

import OpenNE.Process.Team

/-!
# Hardware threads (`src/HardwareThreadScheduler.cc`, `UserProcessHelper::Switch`)

`Switch` hands a process to the first thread that is neither invalid nor the one booted from. It clears the busy
flag of that thread before it asks whether the thread is busy, and reports success whatever the thread answers: only
a team without a usable thread makes it fail.
-/

namespace OpenNE

inductive ThreadKind where
  | kAPSystemReserved | kAPStandard | kAPBoot | kInvalidAP
  deriving DecidableEq

/-- `HardwareThread`, with its default values. -/
structure HardwareThread where
  fStack : UInt64 := 0
  fKind : ThreadKind := .kAPStandard
  fSourcePID : UInt32 := 0
  fWakeup : Bool := false
  fBusy : Bool := false
  fPTime : UInt64 := 0

/-- `HardwareThreadScheduler`, the static timer of `HardwareThread::IsBusy`, and the frames of `kProcessBlocks`. -/
structure HardwareThreads where
  fThreadList : Fin 8 → HardwareThread
  busyTimer : Int64
  kProcessBlocks : Fin 32 → UInt64

/-- What is left to the processor. -/
structure ThreadEnv extends ProcessEnv where
  /-- `hal_send_sipi`, which waits until the interrupt is taken -/
  halSendSipi : UInt8 → Exec Unit
  /-- `TheCurrentPID().Leak().Leak() = pid`: the reference is null or refers to a parameter that is gone -/
  leakPID : Exec Unit

/-- The team and the threads. -/
structure Scheduler extends Machine where
  threads : HardwareThreads

namespace HardwareThreads

def setThread (t : HardwareThreads) (i : Fin 8) (thread : HardwareThread) : HardwareThreads :=
  { t with fThreadList := Function.update t.fThreadList i thread }

/-- `HardwareThread::IsBusy`. The timer is compared without its sign. -/
def isBusy (t : HardwareThreads) (i : Fin 8) : Bool × HardwareThreads :=
  let thread := t.fThreadList i
  let t := if thread.fBusy = true ∧ thread.fPTime < t.busyTimer.toUInt64 then
      { t.setThread i { thread with fBusy := false } with busyTimer := 0 }
    else t
  ((t.fThreadList i).fBusy, { t with busyTimer := t.busyTimer + 1 })

/-- `HardwareThreadScheduler::operator[]`: the first thread is the one booted from, unless it is reserved. -/
def threadAt (t : HardwareThreads) (i : Fin 8) : HardwareThreads :=
  if i = 0 ∧ (t.fThreadList i).fKind ≠ .kAPSystemReserved then
    t.setThread i { t.fThreadList i with fKind := .kAPBoot }
  else t

/-- `Switch` may take the thread. -/
def Usable (t : HardwareThreads) (i : Fin 8) : Prop :=
  ((t.threadAt i).fThreadList i).fKind ≠ .kInvalidAP ∧ ((t.threadAt i).fThreadList i).fKind ≠ .kAPBoot

instance (t : HardwareThreads) (i : Fin 8) : Decidable (t.Usable i) := inferInstanceAs (Decidable (_ ∧ _))

end HardwareThreads

/-- The words of a `StackFrame`. -/
def frameSP : Nat := 9
def frameBP : Nat := 10

namespace Scheduler

def setThread (s : Scheduler) (i : Fin 8) (thread : HardwareThread) : Scheduler :=
  { s with threads := s.threads.setThread i thread }

/-- `mp_register_process`. -/
def mpRegisterProcess (env : ThreadEnv) (debug : Bool) (frame : UInt64) (pid : UInt32) (s : Scheduler) :
    Exec (Bool × Scheduler) := do
  mustPass debug (frame ≠ 0)
  let index : Fin 32 := ⟨pid.toNat % 32, Nat.mod_lt _ (by decide)⟩
  let s := { s with threads.kProcessBlocks := Function.update s.threads.kProcessBlocks index frame }
  env.halSendSipi (s.sys.kernel.word frame frameBP >>> (12 : UInt64)).toUInt8
  return (true, s)

/-- `HardwareThread::Switch`. -/
def switchThread (env : ThreadEnv) (debug : Bool) (i : Fin 8) (image stack frame : UInt64) (pid : Int)
    (s : Scheduler) : Exec (Bool × Scheduler) := do
  let (busy, threads) := s.threads.isBusy i
  let s := { s with threads := threads }
  if busy = true then return (false, s)
  let sourcePID := UInt32.ofInt pid
  let s := s.setThread i { s.threads.fThreadList i with fStack := frame, fSourcePID := sourcePID }
  if frame = 0 then throw .fault
  let kernel := (s.sys.kernel.setWord frame frameBP image).setWord frame frameSP stack
  mpRegisterProcess env debug frame sourcePID { s with sys.kernel := kernel }

/-- `UserProcessHelper::Switch` once it has found its thread. -/
def switchOn (env : ThreadEnv) (debug : Bool) (i : Fin 8) (image stack frame : UInt64) (pid : Int)
    (s : Scheduler) : Exec Scheduler := do
  env.leakPID
  let s := s.setThread i { s.threads.fThreadList i with fWakeup := true, fBusy := false }
  let prevPTime := (s.threads.fThreadList i).fPTime
  let slot ← processSlot pid
  let s := s.setThread i { s.threads.fThreadList i with fPTime := (s.team.mProcessList slot).pTime }
  let (ret, s) ← switchThread env debug i image stack frame pid s
  let s ← if ret = false then do
      let s := s.setThread i { s.threads.fThreadList i with fPTime := prevPTime }
      env.leakPID
      pure (s.setThread i { s.threads.fThreadList i with fBusy := true })
    else pure s
  return s.setThread i { s.threads.fThreadList i with fWakeup := false }

/-- `UserProcessHelper::Switch`, over the threads that are left. -/
def switchFrom (env : ThreadEnv) (debug : Bool) (image stack frame : UInt64) (pid : Int) :
    List (Fin 8) → Scheduler → Exec (Bool × Scheduler)
  | [], s => .ok (false, s)
  | i :: rest, s =>
    let usable := s.threads.Usable i
    let s := { s with threads := s.threads.threadAt i }
    if usable then do
      let s ← switchOn env debug i image stack frame pid s
      return (true, s)
    else switchFrom env debug image stack frame pid rest s

/-- `UserProcessHelper::Switch`. -/
def switch (env : ThreadEnv) (debug : Bool) (image stack frame : UInt64) (pid : Int) (s : Scheduler) :
    Exec (Bool × Scheduler) :=
  switchFrom env debug image stack frame pid (List.finRange 8) s

/-! ### What a switch leaves alone -/

section Switch

variable {env : ThreadEnv} {debug ret : Bool} {i : Fin 8} {image stack frame : UInt64} {pid : Int}
  {sourcePID : UInt32} {s s' : Scheduler} {rest : List (Fin 8)}

@[simp] theorem setThread_team {thread : HardwareThread} : (s.setThread i thread).team = s.team := rfl

theorem mpRegisterProcess_team (h : s.mpRegisterProcess env debug frame sourcePID = .ok (ret, s')) :
    s'.team = s.team := by
  obtain ⟨_, -, h⟩ := Exec.bind_eq_ok.mp h
  obtain ⟨_, -, h⟩ := Exec.bind_eq_ok.mp h
  obtain ⟨-, rfl⟩ := Prod.mk.injEq .. ▸ Except.ok.inj h
  rfl

theorem switchThread_team (h : s.switchThread env debug i image stack frame pid = .ok (ret, s')) :
    s'.team = s.team := by
  unfold switchThread at h
  dsimp only at h
  split_ifs at h with hbusy hframe
  · obtain ⟨-, rfl⟩ := Prod.mk.injEq .. ▸ Except.ok.inj h
    rfl
  · cases h
  · exact (mpRegisterProcess_team h).trans rfl

theorem switchOn_team (h : s.switchOn env debug i image stack frame pid = .ok s') : s'.team = s.team := by
  obtain ⟨_, -, h⟩ := Exec.bind_eq_ok.mp h
  obtain ⟨slot, -, h⟩ := Exec.bind_eq_ok.mp h
  obtain ⟨⟨ret, s₁⟩, hthread, h⟩ := Exec.bind_eq_ok.mp h
  have hteam : s₁.team = s.team := (switchThread_team hthread).trans rfl
  by_cases hret : ret = false
  · simp only [hret, if_true] at h
    obtain ⟨_, -, h⟩ := Exec.bind_eq_ok.mp h
    rw [← Except.ok.inj h]
    exact hteam
  · simp only [hret, Exec.pure_eq_ok, Exec.ok_bind] at h
    rw [← Except.ok.inj h]
    exact hteam

theorem switchFrom_team (h : s.switchFrom env debug image stack frame pid rest = .ok (ret, s')) :
    s'.team = s.team := by
  induction rest generalizing s with
  | nil =>
    obtain ⟨-, rfl⟩ := Prod.mk.injEq .. ▸ Except.ok.inj h
    rfl
  | cons i rest ih =>
    rw [switchFrom] at h
    by_cases husable : s.threads.Usable i
    · rw [if_pos husable] at h
      obtain ⟨s₁, hswitch, h⟩ := Exec.bind_eq_ok.mp h
      obtain ⟨-, rfl⟩ := Prod.mk.injEq .. ▸ Except.ok.inj h
      exact (switchOn_team hswitch).trans rfl
    · rw [if_neg husable] at h
      exact (ih h).trans rfl

theorem switch_team (h : s.switch env debug image stack frame pid = .ok (ret, s')) : s'.team = s.team :=
  switchFrom_team h

end Switch

end Scheduler

end OpenNE

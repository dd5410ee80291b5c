import OpenNE.Base.CString
import OpenNE.Process.KernelHeap

/-!
# User processes (`KernelKit/UserProcessScheduler.h`, `src/UserProcessScheduler.cc`)

`UserProcess::New`, `UserProcess::Delete` and `UserProcess::Exit`, in the build with virtual memory. A process record
sits in the static array of its team, so its own `delete this` finds no heap block.
-/

namespace OpenNE

def kProcessNameLen : Nat := 128

/-- `mib_cast(8)`. -/
def kSchedMaxStackSz : UInt64 := 8 * 1024 * 1024

/-- `gib_cast(128)`. -/
def kSchedMaxMemoryLimit : UInt64 := 128 * 1024 * 1024 * 1024

def kSchedInvalidPID : Int := -1

inductive ProcessStatusKind where
  | kInvalid | kStarting | kRunning | kKilled | kFrozen | kFinished
  deriving DecidableEq

def kExectuableKind : Int32 := 1
def kExectuableDylibKind : Int32 := 2

/-- `AffinityKind::kStandard`. -/
def kAffinityStandard : UInt64 := 1000

structure UserProcessImage where
  fCode : UInt64
  fBlob : UInt64

/-- `UserProcess`, with its default values. `processParentTeam` has none: `false` stands for unset. -/
structure UserProcess where
  name : List UInt8 := [80, 114, 111, 99, 101, 115, 115] ++ List.replicate 121 0
  stackFrame : UInt64 := 0
  affinity : Int32 := 1000
  status : ProcessStatusKind := .kFinished
  stackReserve : UInt64 := 0
  /-- The bytes `stackReserve` was allocated with. No code reads them. -/
  stackBytes : UInt64 := 0
  image : UserProcessImage := ⟨0, 0⟩
  stackSize : UInt64 := kSchedMaxStackSz
  dylibDelegate : UInt64 := 0
  memoryLimit : UInt64 := kSchedMaxMemoryLimit
  usedMemory : UInt64 := 0
  processMemoryHeap : UInt64 := 0
  processParentTeam : Bool := false
  vmRegister : UInt64 := 0
  pTime : UInt64 := 0
  processId : Int := kSchedInvalidPID
  kind : Int32 := kExectuableKind
  fLastExitCode : UInt32 := 0

/-- `StackReserve` is what the heap gave for `stackBytes` bytes. -/
def UserProcess.StackGiven (env : HeapEnv) (process : UserProcess) : Prop :=
  ∃ debug k k', Kernel.operatorNew env debug process.stackBytes k = .ok (process.stackReserve, k')

/-! ### `ProcessMemoryHeapList`: the words of an entry -/

def memoryEntry : Nat := 0
def memoryEntrySize : Nat := 1
def memoryEntryPad : Nat := 2
def memoryPrev : Nat := 3
def memoryNext : Nat := 4

/-- `new ProcessMemoryHeapList()`. -/
def newMemoryHeapList (env : HeapEnv) (debug : Bool) (k : Kernel) : Exec (UInt64 × Kernel) :=
  k.newObject env debug 40 5

/-- The walk of `New` to the entry it appends to. It runs while there is no entry, so it ends where it
starts; a round of it would read through null. -/
def appendWalk (entry : UInt64) : Exec UInt64 :=
  if entry ≠ 0 then .ok entry else .error .fault

/-- The part of `New` that records the pointer. -/
def UserProcess.record (env : HeapEnv) (debug : Bool) (ptr sz padAmount : UInt64) (process : UserProcess)
    (k : Kernel) : Exec (UserProcess × Kernel) := do
  if process.processMemoryHeap = 0 then
    let (node, k) ← newMemoryHeapList env debug k
    let k := k.setWord node memoryEntryPad padAmount
    let k := k.setWord node memoryEntrySize sz
    let k := k.setWord node memoryEntry ptr
    let k := k.setWord node memoryPrev 0
    let k := k.setWord node memoryNext 0
    return ({ process with processMemoryHeap := node }, k)
  else
    let entry ← appendWalk process.processMemoryHeap
    let (node, k) ← newMemoryHeapList env debug k
    let k := k.setWord entry memoryNext node
    -- each assignment follows `entry->MemoryNext` anew
    let k := k.setWord (k.word entry memoryNext) memoryEntry ptr
    let k := k.setWord (k.word entry memoryNext) memoryPrev entry
    let k := k.setWord (k.word entry memoryNext) memoryNext 0
    return (process, k)

/-- `UserProcess::New`. -/
def UserProcess.new (env : HeapEnv) (debug : Bool) (sz padAmount : UInt64) (process : UserProcess)
    (k : Kernel) : Exec (UInt64 × UserProcess × Kernel) := do
  let vmRegister := k.cr3
  let k := k.halWriteCr3 process.vmRegister
  let (ptr, k) ← k.newHeap env debug (sz + padAmount) true true
  let k := k.halWriteCr3 vmRegister
  let (process, k) ← process.record env debug ptr sz padAmount k
  return (ptr, { process with usedMemory := process.usedMemory + sz }, k)

theorem UserProcess.new_eq_ok {env : HeapEnv} {debug : Bool} {sz padAmount ptr : UInt64}
    {process process' : UserProcess} {k k' : Kernel}
    (hcall : process.new env debug sz padAmount k = .ok (ptr, process', k')) :
    ∃ k₁ process₁, (k.halWriteCr3 process.vmRegister).newHeap env debug (sz + padAmount) true true = .ok (ptr, k₁) ∧
      process.record env debug ptr sz padAmount (k₁.halWriteCr3 k.cr3) = .ok (process₁, k') ∧
      process' = { process₁ with usedMemory := process₁.usedMemory + sz } := by
  obtain ⟨⟨p, k₁⟩, halloc, hrest⟩ := Exec.bind_eq_ok.mp hcall
  obtain ⟨⟨process₁, k₂⟩, hrecord, hlast⟩ := Exec.bind_eq_ok.mp hrest
  simp only [Exec.pure_eq_ok, Except.ok.injEq, Prod.mk.injEq] at hlast
  obtain ⟨rfl, rfl, rfl⟩ := hlast
  exact ⟨k₁, process₁, halloc, hrecord, rfl⟩

theorem UserProcess.record_process {env : HeapEnv} {debug : Bool} {ptr sz padAmount : UInt64}
    {process process' : UserProcess} {k k' : Kernel}
    (hcall : process.record env debug ptr sz padAmount k = .ok (process', k')) :
    ∃ head, process' = { process with processMemoryHeap := head } := by
  unfold UserProcess.record at hcall
  split_ifs at hcall with hhead
  · obtain ⟨⟨node, k₁⟩, -, hret⟩ := Exec.bind_eq_ok.mp hcall
    exact ⟨node, (Prod.mk.inj (Except.ok.inj hret)).1.symm⟩
  · obtain ⟨entry, -, hcall⟩ := Exec.bind_eq_ok.mp hcall
    obtain ⟨⟨node, k₁⟩, -, hret⟩ := Exec.bind_eq_ok.mp hcall
    exact ⟨process.processMemoryHeap, (Prod.mk.inj (Except.ok.inj hret)).1.symm⟩

/-- The walk of `UserProcess::Delete`: the entry that holds the pointer, or null. -/
def deleteRound (k : Kernel) (ptr entry : UInt64) : Exec (UInt64 ⊕ UInt64) :=
  if entry = 0 then .ok (.inr 0)
  else if k.word entry memoryEntry = ptr then .ok (.inr entry)
  else .ok (.inl (k.word entry memoryNext))

/-- `UserProcess::Delete`; `none` is an `ErrorOr` without a value. What `mm_delete_heap` reports is taken for the
answer, though its success is zero. -/
def UserProcess.delete (fuel : Nat) (ptr : Option UInt64) (sz : UInt64) (process : UserProcess) (k : Kernel) :
    Exec (Bool × UserProcess × Kernel) :=
  match ptr with
  | none => .ok (false, process, k)
  | some ptr => do
    if sz = 0 then return (false, process, k)
    let entry ← loop (deleteRound k ptr) fuel process.processMemoryHeap
    if entry = 0 then return (false, process, k)
    let process := { process with usedMemory := process.usedMemory - k.word entry memoryEntrySize }
    let pd := k.cr3
    let k := k.halWriteCr3 process.vmRegister
    let (ret, k) := mmDeleteHeap (k.word entry memoryEntry) k
    return (ret ≠ 0, process, k.halWriteCr3 pd)

/-! ### Exit -/

/-- The exit code of the last process. -/
structure System where
  kernel : Kernel
  kLastExitCode : UInt32

/-- The library functions of the dynamic-library kind. -/
structure ProcessEnv extends HeapEnv where
  rtlInitDylib : UserProcess → System → Exec (UInt64 × UserProcess × System)
  rtlFiniDylib : UserProcess → System → Exec (Bool × UserProcess × System)

/-- Searches of at most 64 headers, and no dynamic libraries. -/
def plainEnv : ProcessEnv :=
  { HeapEnv.upTo 64 with
    rtlInitDylib := fun process sys => .ok (0, process, sys)
    rtlFiniDylib := fun process sys => .ok (false, process, sys) }

/-- `MUST_PASS(mm_delete_heap(entry));` of a non-null entry. A deletion reports success as zero, which the
runtime check takes for failure. -/
def deleteEntry (debug : Bool) (entry : UInt64) (k : Kernel) : Exec Kernel :=
  if entry = 0 then .ok k
  else do
    mustPass debug ((mmDeleteHeap entry k).1 ≠ 0)
    return (mmDeleteHeap entry k).2

/-- One round of the loop of `Exit` over the memory list. -/
def exitRound (debug : Bool) (pd : UInt64) (s : UInt64 × Kernel) :
    Exec ((UInt64 × Kernel) ⊕ Kernel) :=
  if s.1 = 0 then .ok (.inr s.2)
  else do
    let k ← deleteEntry debug (s.2.word s.1 memoryEntry) s.2
    let k := k.halWriteCr3 pd
    let next := k.word s.1 memoryNext
    return .inl (next, (mmDeleteHeap s.1 k).2)

/-- `if (ptr && mm_is_valid_heap(ptr)) mm_delete_heap(ptr);` -/
def deleteIfValid (env : HeapEnv) (ptr : UInt64) (k : Kernel) : Kernel :=
  if ptr ≠ 0 ∧ mmIsValidHeap env.kCrcBefore ptr k.mem = true then (mmDeleteHeap ptr k).2 else k

/-- `UserProcess::Exit`, up to the count of its team. -/
def UserProcess.exit (env : ProcessEnv) (debug : Bool) (fuel : Nat) (exitCode : Int32) (process : UserProcess)
    (sys : System) : Exec (UserProcess × System) := do
  let process := { process with
    status := if exitCode > 0 then .kKilled else .kFrozen
    fLastExitCode := exitCode.toUInt32 }
  let pd := sys.kernel.cr3
  let k := sys.kernel.halWriteCr3 process.vmRegister
  let k ← loop (exitRound debug pd) fuel (process.processMemoryHeap, k)
  let (_, k) := mmFreeBitmap process.vmRegister k
  let k := deleteIfValid env.toHeapEnv process.image.fCode k
  let k := deleteIfValid env.toHeapEnv process.image.fBlob k
  let k := deleteIfValid env.toHeapEnv process.stackFrame k
  let process := { process with image := ⟨0, 0⟩, stackFrame := 0 }
  let sys : System := { kernel := k, kLastExitCode := exitCode.toUInt32 }
  let (process, sys) ← if process.kind = kExectuableDylibKind then do
      let (success, process, sys) ← env.rtlFiniDylib process sys
      if success = false then throw .panic
      pure ({ process with dylibDelegate := 0 }, sys)
    else pure (process, sys)
  let sys := if process.stackReserve ≠ 0 then
      { sys with kernel := (mmDeleteHeap process.stackReserve sys.kernel).2 } else sys
  let process := { process with processId := 0, status := .kFinished }
  if process.processParentTeam = false then throw .fault
  return (process, sys)

/-- The record of a process that exits, before its library is taken down. -/
def UserProcess.exiting (exitCode : Int32) (process : UserProcess) : UserProcess :=
  { process with
    status := if exitCode > 0 then .kKilled else .kFrozen
    fLastExitCode := exitCode.toUInt32
    image := ⟨0, 0⟩
    stackFrame := 0 }

/-- The blocks `Exit` takes back between its loop and the library. -/
def UserProcess.releaseImage (env : HeapEnv) (process : UserProcess) (k : Kernel) : Kernel :=
  let k := (mmFreeBitmap process.vmRegister k).2
  let k := deleteIfValid env process.image.fCode k
  let k := deleteIfValid env process.image.fBlob k
  deleteIfValid env process.stackFrame k

/-- The part of `Exit` that takes the library down. -/
def UserProcess.exitDylib (env : ProcessEnv) (process : UserProcess) (sys : System) : Exec (UserProcess × System) :=
  if process.kind = kExectuableDylibKind then do
    let (success, process, sys) ← env.rtlFiniDylib process sys
    if success = false then throw .panic
    pure ({ process with dylibDelegate := 0 }, sys)
  else pure (process, sys)

/-- The kernel behind the deletion of the stack. -/
def System.freeStack (sys : System) (stackReserve : UInt64) : System :=
  if stackReserve ≠ 0 then { sys with kernel := (mmDeleteHeap stackReserve sys.kernel).2 } else sys

/-- The blocks `Exit` takes back behind its loop. -/
def UserProcess.releaseBlocks (env : HeapEnv) (process : UserProcess) (k : Kernel) : Kernel :=
  let k := (mmFreeBitmap process.vmRegister k).2
  let k := deleteIfValid env process.image.fCode k
  let k := deleteIfValid env process.image.fBlob k
  let k := deleteIfValid env process.stackFrame k
  if process.stackReserve ≠ 0 then (mmDeleteHeap process.stackReserve k).2 else k

section Exit

variable {env : ProcessEnv} {debug : Bool} {fuel : Nat} {exitCode : Int32} {process process' : UserProcess}
  {sys sys' : System}

theorem UserProcess.exitDylib_eq_ok_iff : exitDylib env process sys = .ok (process', sys') ↔
    process.kind ≠ kExectuableDylibKind ∧ process' = process ∧ sys' = sys ∨
      process.kind = kExectuableDylibKind ∧ ∃ thread, env.rtlFiniDylib process sys = .ok (true, thread, sys') ∧
        process' = { thread with dylibDelegate := 0 } := by
  rw [exitDylib]
  split_ifs with hkind
  · simp only [ne_eq, hkind, not_true_eq_false, false_and, true_and, false_or]
    constructor
    · intro h
      obtain ⟨⟨success, thread, sys₁⟩, hfini, hrest⟩ := Exec.bind_eq_ok.mp h
      cases success
      · cases hrest
      · obtain ⟨rfl, rfl⟩ := Prod.mk.inj (Except.ok.inj hrest)
        exact ⟨thread, hfini, rfl⟩
    · rintro ⟨thread, hfini, rfl⟩
      exact Exec.bind_eq_ok.mpr ⟨_, hfini, rfl⟩
  · simp [hkind, eq_comm]

theorem UserProcess.exit_eq (env : ProcessEnv) (debug : Bool) (fuel : Nat) (exitCode : Int32)
    (process : UserProcess) (sys : System) : process.exit env debug fuel exitCode sys = (do
      let k₁ ← loop (exitRound debug sys.kernel.cr3) fuel
          (process.processMemoryHeap, sys.kernel.halWriteCr3 process.vmRegister)
      let (thread, sys₁) ← exitDylib env (process.exiting exitCode)
        ⟨process.releaseImage env.toHeapEnv k₁, exitCode.toUInt32⟩
      if thread.processParentTeam = false then throw .fault
      return ({ thread with processId := 0, status := .kFinished }, sys₁.freeStack thread.stackReserve)) := by
  refine bind_congr fun k₁ => ?_
  by_cases hkind : process.kind = kExectuableDylibKind
  · have hdylib : ∀ sys, exitDylib env (process.exiting exitCode) sys = (do
        let (success, process, sys) ← env.rtlFiniDylib (process.exiting exitCode) sys
        if success = false then throw .panic
        pure ({ process with dylibDelegate := 0 }, sys)) := fun _ => if_pos hkind
    rw [hdylib, bind_assoc]
    dsimp only
    rw [if_pos hkind]
    refine bind_congr fun r => ?_
    unfold System.freeStack
    split_ifs <;> rfl
  · have hdylib : ∀ sys, exitDylib env (process.exiting exitCode) sys = .ok (process.exiting exitCode, sys) :=
      fun _ => if_neg hkind
    rw [hdylib]
    dsimp only
    rw [if_neg hkind]
    unfold System.freeStack
    split_ifs <;> rfl

theorem UserProcess.exit_eq_ok_iff : process.exit env debug fuel exitCode sys = .ok (process', sys') ↔
    ∃ k₁ thread sys₁, loop (exitRound debug sys.kernel.cr3) fuel
        (process.processMemoryHeap, sys.kernel.halWriteCr3 process.vmRegister) = .ok k₁ ∧
      exitDylib env (process.exiting exitCode) ⟨process.releaseImage env.toHeapEnv k₁, exitCode.toUInt32⟩ =
        .ok (thread, sys₁) ∧
      thread.processParentTeam = true ∧ process' = { thread with processId := 0, status := .kFinished } ∧
      sys' = sys₁.freeStack thread.stackReserve := by
  rw [exit_eq]
  constructor
  · intro h
    obtain ⟨k₁, hloop, hrest⟩ := Exec.bind_eq_ok.mp h
    obtain ⟨⟨thread, sys₁⟩, hdylib, hlast⟩ := Exec.bind_eq_ok.mp hrest
    dsimp only at hlast
    by_cases hparent : thread.processParentTeam = false
    · rw [if_pos hparent] at hlast
      cases hlast
    · rw [if_neg hparent] at hlast
      obtain ⟨rfl, rfl⟩ := Prod.mk.inj (Except.ok.inj hlast)
      exact ⟨k₁, thread, sys₁, hloop, hdylib, Bool.eq_true_of_not_eq_false hparent, rfl, rfl⟩
  · rintro ⟨k₁, thread, sys₁, hloop, hdylib, hparent, rfl, rfl⟩
    refine Exec.bind_eq_ok.mpr ⟨k₁, hloop, Exec.bind_eq_ok.mpr ⟨(thread, sys₁), hdylib, ?_⟩⟩
    simp [hparent]

theorem UserProcess.exit_finished (h : process.exit env debug fuel exitCode sys = .ok (process', sys')) :
    process'.status = .kFinished := by
  obtain ⟨k₁, thread, sys₁, -, -, -, rfl, -⟩ := exit_eq_ok_iff.mp h
  rfl

theorem UserProcess.exit_eq_ok (hkind : process.kind ≠ kExectuableDylibKind)
    (h : process.exit env debug fuel exitCode sys = .ok (process', sys')) :
    ∃ k₁, loop (exitRound debug sys.kernel.cr3) fuel
        (process.processMemoryHeap, sys.kernel.halWriteCr3 process.vmRegister) = .ok k₁ ∧
      sys'.kernel = process.releaseBlocks env.toHeapEnv k₁ ∧ process'.kind = process.kind ∧
      process'.processMemoryHeap = process.processMemoryHeap ∧ process'.stackSize = process.stackSize ∧
      process'.dylibDelegate = process.dylibDelegate := by
  obtain ⟨k₁, thread, sys₁, hloop, hdylib, -, rfl, rfl⟩ := exit_eq_ok_iff.mp h
  obtain ⟨-, rfl, rfl⟩ | ⟨hdylibKind, -⟩ := exitDylib_eq_ok_iff.mp hdylib
  swap
  · exact absurd hdylibKind hkind
  refine ⟨k₁, hloop, ?_, rfl, rfl, rfl, rfl⟩
  by_cases hstack : process.stackReserve ≠ 0
  · rw [System.freeStack, if_pos (by exact hstack), releaseBlocks, if_pos hstack]
    rfl
  · rw [System.freeStack, if_neg (by exact hstack), releaseBlocks, if_neg hstack]
    rfl

end Exit

end OpenNE

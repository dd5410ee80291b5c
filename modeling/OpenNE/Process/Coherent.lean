import OpenNE.Base.Run
import OpenNE.Process.Create
import OpenNE.Process.Dylib

/-!
# Coherence of created processes

`Spawn` sizes the stack and initialises the library by what the slot holds of the process before, and
`rtl_create_process` overwrites the kind and the size afterwards. So the new process is coherent exactly when the
executable asks for the stack size of the slot, and for another kind than that of a dynamic library
(`ProcessInv.create_coherent_iff`). It stays coherent until it exits, in every run whose creations do so on free
slots (`created_coherent`).
-/

namespace OpenNE

inductive ProcessOp where
  | create (pef : LoadEnv) (exec : PEFLoader) (processKind : Int32)
  | spawn (name : CString) (code image : UInt64)
  | remove (processId : Int64)
  | exit (i : Fin 32) (exitCode : Int32)
  | crash (i : Fin 32)
  | wake (i : Fin 32) (shouldWakeup : Bool)
  | new (i : Fin 32) (sz padAmount : UInt64)

/-- The machine, and the kind that each live process was created with. -/
structure ProcessState where
  machine : Machine
  live : Fin 32 → Option Int32

/-- `UserProcess::Wake`. -/
def Machine.wake (i : Fin 32) (shouldWakeup : Bool) (m : Machine) : Machine :=
  m.setProcess i { m.team.mProcessList i with status := if shouldWakeup then .kRunning else .kFrozen }

namespace ProcessState

/-- A process of slot `id` more. -/
def enter (s : ProcessState) (id : Int) (kind : Fin 32 → Int32) : Fin 32 → Option Int32 :=
  fun j => if (j.1 : Int) = id then some (kind j) else s.live j

/-- The process of slot `i` gone. -/
def leave (s : ProcessState) (i : Nat) : Fin 32 → Option Int32 := fun j => if j.1 = i then none else s.live j

/-- A call, and which processes are live after it. -/
def call (env : ProcessEnv) (debug : Bool) (fuel : Nat) (s : ProcessState) : ProcessOp → Exec ProcessState
  | .create pef exec kind => do
    let (id, m) ← s.machine.rtlCreateProcess env pef fuel exec kind
    return ⟨m, s.enter id fun _ => kind⟩
  | .spawn name code image => do
    let (pid, m) ← s.machine.spawn env debug fuel name code image
    return ⟨m, s.enter pid fun j => (m.team.mProcessList j).kind⟩
  | .remove processId => do
    let (ret, m) ← s.machine.remove env debug fuel processId
    return ⟨m, if ret then s.leave processId.toUInt64.toNat else s.live⟩
  | .exit i exitCode => do
    let m ← s.machine.exit env debug fuel exitCode i
    return ⟨m, s.leave i⟩
  | .crash i => do
    let m ← s.machine.crash env debug fuel i
    return ⟨m, if (s.machine.team.mProcessList i).status = .kRunning then s.leave i else s.live⟩
  | .wake i shouldWakeup => return ⟨s.machine.wake i shouldWakeup, s.live⟩
  | .new i sz padAmount => do
    let (_, m) ← s.machine.processNew env debug i sz padAmount
    return ⟨m, s.live⟩

/-- The next slot, free. -/
structure Free (s : ProcessState) (i : Fin 32) : Prop where
  count : s.machine.team.mProcessCount = i.1
  live : s.live i = none

/-- A creation on a free slot, of the stack size of the slot, and of no dynamic library. -/
structure CreateOK (s : ProcessState) (pef : LoadEnv) (exec : PEFLoader) (processKind : Int32) (i : Fin 32) :
    Prop where
  free : s.Free i
  stackSize : exec.sizeSymbol pef kPefStackSizeSymbol = .ok (s.machine.team.mProcessList i).stackSize
  kind : processKind ≠ kExectuableDylibKind

/-- Creations and spawns on free slots, and any other calls. -/
def CallOK (s : ProcessState) : ProcessOp → Prop
  | .create pef exec processKind =>
    exec.findStart pef = .ok kErrorSuccess → ∃ i, s.CreateOK pef exec processKind i
  | .spawn _ _ _ => ∃ i, s.Free i
  | _ => True

/-- A team without processes. -/
structure Empty (s : ProcessState) : Prop where
  team : s.machine.team = .empty
  live : ∀ i, s.live i = none

end ProcessState

def ProcessStep (env : ProcessEnv) (debug : Bool) (s : ProcessState) (op : ProcessOp) (s' : ProcessState) : Prop :=
  ∃ fuel, s.call env debug fuel op = .ok s'

/-! ### The invariant -/

/-- Every slot has the default stack size, and no library; a live process is of the kind it was created with, and was
given a stack of that size. -/
structure ProcessInv (env : HeapEnv) (s : ProcessState) : Prop where
  slotKind : ∀ i, (s.machine.team.mProcessList i).kind ≠ kExectuableDylibKind
  stackSize : ∀ i, (s.machine.team.mProcessList i).stackSize = kSchedMaxStackSz
  delegate : ∀ i, (s.machine.team.mProcessList i).dylibDelegate = 0
  kind : ∀ i kind, s.live i = some kind → (s.machine.team.mProcessList i).kind = kind
  stack : ∀ i kind, s.live i = some kind → (s.machine.team.mProcessList i).stackBytes = kSchedMaxStackSz ∧
    (s.machine.team.mProcessList i).StackGiven env

namespace ProcessInv

variable {env : ProcessEnv} {debug : Bool} {s s' : ProcessState} {op : ProcessOp} {i : Fin 32} {kind : Int32}

theorem of_slot (h : ProcessInv env.toHeapEnv s) (i : Fin 32)
    (hothers : ∀ j, j ≠ i → s'.machine.team.mProcessList j = s.machine.team.mProcessList j ∧ s'.live j = s.live j)
    (hkind : (s'.machine.team.mProcessList i).kind ≠ kExectuableDylibKind)
    (hsize : (s'.machine.team.mProcessList i).stackSize = kSchedMaxStackSz)
    (hdelegate : (s'.machine.team.mProcessList i).dylibDelegate = 0)
    (hslot : ∀ kind, s'.live i = some kind → (s'.machine.team.mProcessList i).kind = kind ∧
      (s'.machine.team.mProcessList i).stackBytes = kSchedMaxStackSz ∧
      (s'.machine.team.mProcessList i).StackGiven env.toHeapEnv) : ProcessInv env.toHeapEnv s' := by
  refine ⟨fun j => ?_, fun j => ?_, fun j => ?_, fun j kind hlive => ?_, fun j kind hlive => ?_⟩
  all_goals by_cases hj : j = i
  · rw [hj]
    exact hkind
  · rw [(hothers j hj).1]
    exact h.slotKind j
  · rw [hj]
    exact hsize
  · rw [(hothers j hj).1]
    exact h.stackSize j
  · rw [hj]
    exact hdelegate
  · rw [(hothers j hj).1]
    exact h.delegate j
  · subst hj
    exact (hslot kind hlive).1
  · rw [(hothers j hj).2] at hlive
    rw [(hothers j hj).1]
    exact h.kind j kind hlive
  · subst hj
    exact (hslot kind hlive).2
  · rw [(hothers j hj).2] at hlive
    rw [(hothers j hj).1]
    exact h.stack j kind hlive

/-! ### The calls keep it -/

theorem of_spawned (h : ProcessInv env.toHeapEnv s) {m₁ : Machine} {code image : UInt64} {process : UserProcess}
    (hspawned : Machine.Spawned env.toHeapEnv s.machine i code image process m₁)
    (kind : Int32) (limit : UInt64) (hkind : kind ≠ kExectuableDylibKind)
    (hslot : s'.machine.team.mProcessList i =
      { process with kind := kind, stackSize := kSchedMaxStackSz, memoryLimit := limit })
    (hlist : ∀ j, j ≠ i → s'.machine.team.mProcessList j = m₁.team.mProcessList j)
    (hlive : ∀ j, s'.live j = if j = i then some kind else s.live j) : ProcessInv env.toHeapEnv s' := by
  refine h.of_slot i (fun j hj => ⟨?_, ?_⟩) ?_ ?_ ?_ fun kind' hkind' => ⟨?_, ?_, ?_⟩
  · rw [hlist j hj, hspawned.others j hj]
  · rw [hlive j, if_neg hj]
  · rw [hslot]
    exact hkind
  · rw [hslot]
  · rw [hslot]
    exact hspawned.dylibDelegate.trans (h.delegate i)
  · rw [hlive i, if_pos rfl] at hkind'
    rw [hslot]
    exact Option.some.inj hkind'
  · rw [hslot]
    exact hspawned.stackBytes.trans (hspawned.stackSize.trans (h.stackSize i))
  · rw [hslot]
    exact hspawned.stackGiven

theorem enter_eq (id : Int) (hid : id = i.1) (kinds : Fin 32 → Int32) (j : Fin 32) :
    s.enter id kinds j = if j = i then some (kinds i) else s.live j := by
  unfold ProcessState.enter
  by_cases hj : j = i
  · rw [if_pos (by rw [hj, hid]), if_pos hj, hj]
  · rw [if_neg (by omega), if_neg hj]

theorem spawn (h : ProcessInv env.toHeapEnv s) {fuel : Nat} {name : CString} {code image : UInt64} (hfree : s.Free i)
    {pid : Int} {m : Machine} (hcall : s.machine.spawn env debug fuel name code image = .ok (pid, m)) :
    ProcessInv env.toHeapEnv ⟨m, s.enter pid fun j => (m.team.mProcessList j).kind⟩ := by
  obtain ⟨hpid, process, hspawned⟩ := Machine.spawn_eq_ok hfree.count (h.slotKind i) hcall
  have hsize : process.stackSize = kSchedMaxStackSz := hspawned.stackSize.trans (h.stackSize i)
  have hkind : process.kind ≠ kExectuableDylibKind := by
    rw [hspawned.kind]
    exact h.slotKind i
  refine h.of_spawned hspawned process.kind process.memoryLimit hkind ?_ (fun _ _ => rfl) ?_
  · rw [hspawned.slot, ← hsize]
  · intro j
    dsimp only
    rw [enter_eq pid hpid, hspawned.slot]

theorem create_cases (h : ProcessInv env.toHeapEnv s) {fuel : Nat} {pef : LoadEnv} {exec : PEFLoader} {id : Int}
    {m : Machine} (hfree : s.Free i) (hstart : exec.findStart pef = .ok kErrorSuccess)
    (hcall : s.machine.rtlCreateProcess env pef fuel exec kind = .ok (id, m)) :
    ∃ m₁ code image process stackSize limit, id = i.1 ∧
      Machine.Spawned env.toHeapEnv s.machine i code image process m₁ ∧
      exec.sizeSymbol pef kPefStackSizeSymbol = .ok stackSize ∧
      m = m₁.setProcess i { process with kind := kind, stackSize := stackSize, memoryLimit := limit } := by
  obtain ⟨m₁, hspawn, hcase⟩ := Machine.rtlCreateProcess_cases hstart hcall
  obtain ⟨name, -, hspawn⟩ := Machine.spawnExecutable_eq_ok hspawn
  obtain ⟨hpid, process, hspawned⟩ := Machine.spawn_eq_ok hfree.count (h.slotKind i) hspawn
  rcases hcase with ⟨hinvalid, -⟩ | ⟨k, hk, stackSize, limit, hstack, -, rfl⟩
  · rw [kProcessInvalidID] at hinvalid
    omega
  · obtain rfl : k = i := Fin.ext (by omega)
    refine ⟨m₁, _, _, process, stackSize, limit, hpid, hspawned, hstack, ?_⟩
    rw [hspawned.slot]

theorem create (h : ProcessInv env.toHeapEnv s) {fuel : Nat} {pef : LoadEnv} {exec : PEFLoader} {id : Int}
    {m : Machine} (hok : s.CreateOK pef exec kind i) (hstart : exec.findStart pef = .ok kErrorSuccess)
    (hcall : s.machine.rtlCreateProcess env pef fuel exec kind = .ok (id, m)) :
    ProcessInv env.toHeapEnv ⟨m, s.enter id fun _ => kind⟩ := by
  obtain ⟨m₁, code, image, process, stackSize, limit, hid, hspawned, hstack, rfl⟩ :=
    h.create_cases hok.free hstart hcall
  obtain rfl : stackSize = kSchedMaxStackSz := by
    rw [hok.stackSize, h.stackSize i] at hstack
    exact (Except.ok.inj hstack).symm
  exact h.of_spawned hspawned kind limit hok.kind Machine.setProcess_same
    (fun _ hj => Machine.setProcess_other hj) (enter_eq id hid _)

theorem exit (h : ProcessInv env.toHeapEnv s) {fuel : Nat} {exitCode : Int32} {m : Machine}
    (hcall : s.machine.exit env debug fuel exitCode i = .ok m) : ProcessInv env.toHeapEnv ⟨m, s.leave i⟩ := by
  obtain ⟨-, hother, hkind, -, hsize, hdelegate⟩ := Machine.exit_eq_ok (h.slotKind i) hcall
  have hgone : s.leave i i = none := if_pos rfl
  refine h.of_slot i (fun j hj => ⟨hother j hj, if_neg fun heq => hj (Fin.ext heq)⟩) ?_ ?_ ?_ fun kind' hlive => ?_
  · rw [hkind]
    exact h.slotKind i
  · rw [hsize]
    exact h.stackSize i
  · rw [hdelegate]
    exact h.delegate i
  · cases hgone.symm.trans hlive

theorem new (h : ProcessInv env.toHeapEnv s) {sz padAmount ptr : UInt64} {m : Machine}
    (hcall : s.machine.processNew env debug i sz padAmount = .ok (ptr, m)) : ProcessInv env.toHeapEnv ⟨m, s.live⟩ := by
  obtain ⟨⟨p, process, k⟩, hnew, hret⟩ := Exec.bind_eq_ok.mp hcall
  obtain ⟨-, rfl⟩ := Prod.mk.inj (Except.ok.inj hret)
  obtain ⟨k₁, process₁, -, hrecord, rfl⟩ := UserProcess.new_eq_ok hnew
  obtain ⟨head, rfl⟩ := UserProcess.record_process hrecord
  refine h.of_slot i (fun j hj => ⟨Machine.setProcess_other hj, rfl⟩) ?_ ?_ ?_ fun kind' hlive => ?_
  all_goals rw [Machine.setProcess_same]
  · exact h.slotKind i
  · exact h.stackSize i
  · exact h.delegate i
  · exact ⟨h.kind i kind' hlive, h.stack i kind' hlive⟩

theorem wake (h : ProcessInv env.toHeapEnv s) (i : Fin 32) (shouldWakeup : Bool) :
    ProcessInv env.toHeapEnv ⟨s.machine.wake i shouldWakeup, s.live⟩ := by
  have hslot : (s.machine.wake i shouldWakeup).team.mProcessList i =
      { s.machine.team.mProcessList i with status := if shouldWakeup then .kRunning else .kFrozen } :=
    Machine.setProcess_same
  refine h.of_slot i (fun j hj => ⟨Machine.setProcess_other hj, rfl⟩) ?_ ?_ ?_ fun kind' hlive => ?_
  all_goals rw [hslot]
  · exact h.slotKind i
  · exact h.stackSize i
  · exact h.delegate i
  · exact ⟨h.kind i kind' hlive, h.stack i kind' hlive⟩

theorem step (h : ProcessInv env.toHeapEnv s) (hstep : ProcessStep env debug s op s') (hok : s.CallOK op) :
    ProcessInv env.toHeapEnv s' := by
  obtain ⟨fuel, hcall⟩ := hstep
  cases op with
  | create pef exec processKind =>
    obtain ⟨⟨id, m⟩, hcreate, hret⟩ := Exec.bind_eq_ok.mp hcall
    obtain rfl := Except.ok.inj hret
    rcases Machine.rtlCreateProcess_start hcreate with hstart | ⟨rfl, rfl⟩
    · obtain ⟨i, hok⟩ := hok hstart
      exact h.create hok hstart hcreate
    · have hnobody : s.enter kProcessInvalidID (fun _ => processKind) = s.live := by
        funext j
        refine if_neg ?_
        rw [kProcessInvalidID]
        omega
      rw [hnobody]
      exact h
  | spawn name code image =>
    obtain ⟨⟨pid, m⟩, hspawn, hret⟩ := Exec.bind_eq_ok.mp hcall
    obtain rfl := Except.ok.inj hret
    obtain ⟨i, hfree⟩ := hok
    exact h.spawn hfree hspawn
  | remove processId =>
    obtain ⟨⟨ret, m⟩, hremove, hret⟩ := Exec.bind_eq_ok.mp hcall
    obtain rfl := Except.ok.inj hret
    obtain ⟨-, rfl, rfl⟩ | ⟨i, hi, rfl, hexit⟩ := Machine.remove_cases hremove
    · exact h
    · rw [← hi]
      exact h.exit hexit
  | exit i exitCode =>
    obtain ⟨m, hexit, hret⟩ := Exec.bind_eq_ok.mp hcall
    obtain rfl := Except.ok.inj hret
    exact h.exit hexit
  | crash i =>
    obtain ⟨m, hcrash, hret⟩ := Exec.bind_eq_ok.mp hcall
    obtain rfl := Except.ok.inj hret
    unfold Machine.crash at hcrash
    by_cases hrunning : (s.machine.team.mProcessList i).status = .kRunning
    · rw [if_neg (not_not.mpr hrunning)] at hcrash
      rw [if_pos hrunning]
      exact h.exit hcrash
    · rw [if_pos hrunning] at hcrash
      rw [if_neg hrunning]
      obtain rfl := Except.ok.inj hcrash
      exact h
  | wake i shouldWakeup =>
    obtain rfl := Except.ok.inj hcall
    exact h.wake i shouldWakeup
  | new i sz padAmount =>
    obtain ⟨⟨ptr, m⟩, hnew, hret⟩ := Exec.bind_eq_ok.mp hcall
    obtain rfl := Except.ok.inj hret
    exact h.new hnew

end ProcessInv

end OpenNE

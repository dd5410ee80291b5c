import OpenNE.Base.Run
import OpenNE.Process.UserProcess
import Mathlib.Data.Finset.Card

/-!
# The process team (`src/UserProcessScheduler.cc`, `src/UserProcessTeam.cc`)

`Spawn` takes the slot `mProcessCount`, which `Exit` lowers whatever slot it frees. While every spawn meets
a free slot there, every exit is that of a live process and every removal names a live process or a slot
behind the array's end, the counter is the number of live processes (`team_of_guarded`). An exit in the
middle puts a live process on the next slot (`spawn_on_live`).
-/

namespace OpenNE

def kSchedProcessLimitPerTeam : Nat := 32

def kErrorProcessFault : Int := 39

/-- `UserProcessTeam`. -/
structure UserProcessTeam where
  mProcessList : Fin 32 → UserProcess
  mProcessCount : Int

/-- The scheduler's team and the rest of the kernel. -/
structure Machine where
  team : UserProcessTeam
  sys : System

/-- `UserProcessTeam::UserProcessTeam`. -/
def UserProcessTeam.empty : UserProcessTeam :=
  ⟨fun _ => { status := .kKilled }, 0⟩

/-- `mProcessList[at]`, which is not checked against the bounds. -/
def processSlot (i : Int) : Exec (Fin 32) :=
  if h : 0 ≤ i ∧ i < 32 then .ok ⟨i.toNat, by omega⟩ else .error .fault

namespace Machine

def setProcess (m : Machine) (i : Fin 32) (process : UserProcess) : Machine :=
  { m with team := { m.team with mProcessList := Function.update m.team.mProcessList i process } }

@[simp] theorem setProcess_same {m : Machine} {i : Fin 32} {process : UserProcess} :
    (m.setProcess i process).team.mProcessList i = process := Function.update_self ..

theorem setProcess_other {m : Machine} {i j : Fin 32} {process : UserProcess} (h : j ≠ i) :
    (m.setProcess i process).team.mProcessList j = m.team.mProcessList j := Function.update_of_ne h ..

/-- `UserProcess::Exit`. -/
def exit (env : ProcessEnv) (debug : Bool) (fuel : Nat) (exitCode : Int32) (i : Fin 32) (m : Machine) :
    Exec Machine := do
  let (process, sys) ← (m.team.mProcessList i).exit env debug fuel exitCode m.sys
  let m := { m.setProcess i process with sys := sys }
  return { m with team := { m.team with mProcessCount := m.team.mProcessCount - 1 } }

/-- `UserProcess::Crash`. -/
def crash (env : ProcessEnv) (debug : Bool) (fuel : Nat) (i : Fin 32) (m : Machine) : Exec Machine :=
  if (m.team.mProcessList i).status ≠ .kRunning then .ok m
  else m.exit env debug fuel 39 i

/-- The name copied, with the zero behind it. A longer one runs over the fields behind. -/
def copyName (name : CString) (process : UserProcess) : Exec UserProcess :=
  if name.length < kProcessNameLen then
    .ok { process with name := name.1 ++ 0 :: process.name.drop (name.length + 1) }
  else .error .fault

/-- The flags `Spawn` maps its blocks with. -/
def spawnFlags : UInt32 := kMMFlagsPresent ||| kMMFlagsWr ||| kMMFlagsUser

/-- `UserProcessScheduler::Spawn`. -/
def spawn (env : ProcessEnv) (debug : Bool) (fuel : Nat) (name : CString) (code image : UInt64)
    (m : Machine) : Exec (Int × Machine) := do
  let pid := m.team.mProcessCount
  if pid > kSchedProcessLimitPerTeam then return (kErrorProcessFault, m)
  let m := { m with team := { m.team with mProcessCount := m.team.mProcessCount + 1 } }
  let i ← processSlot pid
  let process := { m.team.mProcessList i with image := ⟨code, image⟩ }
  let process ← copyName name process
  let (vmRegister, k) ← m.sys.kernel.newObject env.toHeapEnv debug 4096 512
  let process := { process with vmRegister := vmRegister }
  if vmRegister = 0 then
    let m ← ({ m with sys.kernel := k }.setProcess i process).crash env debug fuel i
    return (kErrorProcessFault, m)
  let k := k.mapPage vmRegister spawnFlags
  let (stackFrame, k) ← k.newObject env.toHeapEnv debug 88 11
  let process := { process with stackFrame := stackFrame }
  if stackFrame = 0 then
    let m ← ({ m with sys.kernel := k }.setProcess i process).crash env debug fuel i
    return (kErrorProcessFault, m)
  let k := k.mapPage stackFrame spawnFlags
  let (process, sys) ← if process.kind = kExectuableDylibKind then do
      let (dylibDelegate, process, sys) ← env.rtlInitDylib process { m.sys with kernel := k }
      mustPass debug (dylibDelegate ≠ 0)
      pure ({ process with dylibDelegate := dylibDelegate }, sys)
    else pure (process, { m.sys with kernel := k })
  let (stackReserve, k) ← sys.kernel.operatorNew env.toHeapEnv debug process.stackSize
  let process := { process with stackReserve := stackReserve, stackBytes := process.stackSize }
  if stackReserve = 0 then
    let m ← ({ m with sys := { sys with kernel := k } }.setProcess i process).crash env debug fuel i
    return (kErrorProcessFault, m)
  let k := k.mapPage stackReserve spawnFlags
  let process := { process with
    processParentTeam := true
    processId := pid
    status := .kStarting
    pTime := kAffinityStandard }
  return (pid, { m with sys := { sys with kernel := k } }.setProcess i process)

/-- `UserProcessScheduler::Remove`. The comparison is unsigned. -/
def remove (env : ProcessEnv) (debug : Bool) (fuel : Nat) (processId : Int64) (m : Machine) :
    Exec (Bool × Machine) := do
  if processId.toUInt64.toNat > 32 then return (false, m)
  let i ← processSlot processId.toUInt64.toNat
  let m ← m.exit env debug fuel 0 i
  return (true, m)

/-- `UserProcess::New` of the process in slot `i`. -/
def processNew (env : ProcessEnv) (debug : Bool) (i : Fin 32) (sz padAmount : UInt64) (m : Machine) :
    Exec (UInt64 × Machine) := do
  let (ptr, process, k) ← (m.team.mProcessList i).new env.toHeapEnv debug sz padAmount m.sys.kernel
  return (ptr, { m with sys.kernel := k }.setProcess i process)

/-! ### What `Spawn` does -/

/-- The part of `Spawn` that reacts according to the kind. -/
def reactToKind (env : ProcessEnv) (debug : Bool) (process : UserProcess) (sys : System) :
    Exec (UserProcess × System) :=
  if process.kind = kExectuableDylibKind then do
    let (dylibDelegate, process, sys) ← env.rtlInitDylib process sys
    mustPass debug (dylibDelegate ≠ 0)
    pure ({ process with dylibDelegate := dylibDelegate }, sys)
  else pure (process, sys)

/-- The effect of a spawn on the records: slot `i` has one of its own, the others stay as they are. -/
structure Spawned (env : HeapEnv) (m : Machine) (i : Fin 32) (code image : UInt64) (process : UserProcess)
    (m' : Machine) : Prop where
  slot : m'.team.mProcessList i = process
  others : ∀ j, j ≠ i → m'.team.mProcessList j = m.team.mProcessList j
  count : m'.team.mProcessCount = m.team.mProcessCount + 1
  kind : process.kind = (m.team.mProcessList i).kind
  image : process.image = ⟨code, image⟩
  memoryHeap : process.processMemoryHeap = (m.team.mProcessList i).processMemoryHeap
  parentTeam : process.processParentTeam = true
  stackSize : process.stackSize = (m.team.mProcessList i).stackSize
  stackBytes : process.stackBytes = process.stackSize
  stackGiven : process.StackGiven env
  dylibDelegate : process.dylibDelegate = (m.team.mProcessList i).dylibDelegate

section Spawn

variable {env : ProcessEnv} {debug : Bool} {fuel : Nat} {name : CString} {code image : UInt64} {m m' : Machine}
  {i : Fin 32} {pid : Int}

theorem processSlot_fin (i : Fin 32) : processSlot i.1 = .ok i := by
  rw [processSlot, dif_pos ⟨by omega, by omega⟩]
  rfl

theorem processSlot_eq_ok {n : Int} (h : processSlot n = .ok i) : n = i.1 := by
  unfold processSlot at h
  split_ifs at h with hbound
  rw [← Except.ok.inj h]
  simp [Int.toNat_of_nonneg hbound.1]

theorem copyName_eq_ok {process process' : UserProcess} (h : copyName name process = .ok process') :
    process' = { process with name := name.1 ++ 0 :: process.name.drop (name.length + 1) } := by
  unfold copyName at h
  split_ifs at h
  exact (Except.ok.inj h).symm

theorem reactToKind_other {process : UserProcess} {sys : System} (hkind : process.kind ≠ kExectuableDylibKind) :
    reactToKind env debug process sys = .ok (process, sys) := by
  rw [reactToKind, if_neg hkind]
  rfl

theorem reactToKind_eq_ok {process process' : UserProcess} {sys sys' : System}
    (h : reactToKind env debug process sys = .ok (process', sys')) (hkind : process.kind ≠ kExectuableDylibKind) :
    process = process' ∧ sys = sys' := by
  rw [reactToKind_other hkind] at h
  exact Prod.mk.injEq .. ▸ Except.ok.inj h

theorem spawn_slot (h : m.spawn env debug fuel name code image = .ok (pid, m')) :
    m.team.mProcessCount > kSchedProcessLimitPerTeam ∧ pid = kErrorProcessFault ∧ m' = m ∨
      ∃ i : Fin 32, m.team.mProcessCount = i.1 := by
  by_cases hlimit : m.team.mProcessCount > kSchedProcessLimitPerTeam
  · rw [spawn, if_pos hlimit] at h
    obtain ⟨rfl, rfl⟩ := Prod.mk.injEq .. ▸ Except.ok.inj h
    exact Or.inl ⟨hlimit, rfl, rfl⟩
  · rw [spawn, if_neg hlimit] at h
    obtain ⟨i, hslot, -⟩ := Exec.bind_eq_ok.mp h
    exact Or.inr ⟨i, processSlot_eq_ok hslot⟩

theorem spawn_cases (hcount : m.team.mProcessCount = i.1)
    (h : m.spawn env debug fuel name code image = .ok (pid, m')) :
    pid = i.1 ∧ ∃ v k₁ f k₂ process sys r k₃,
      m.sys.kernel.newObject env.toHeapEnv debug 4096 512 = .ok (v, k₁) ∧
      (k₁.mapPage v spawnFlags).newObject env.toHeapEnv debug 88 11 = .ok (f, k₂) ∧
      reactToKind env debug
          { m.team.mProcessList i with
            image := ⟨code, image⟩
            name := name.1 ++ 0 :: (m.team.mProcessList i).name.drop (name.length + 1)
            vmRegister := v
            stackFrame := f }
          { m.sys with kernel := k₂.mapPage f spawnFlags } = .ok (process, sys) ∧
      sys.kernel.operatorNew env.toHeapEnv debug process.stackSize = .ok (r, k₃) ∧
      m' = { m with
        team := ⟨Function.update m.team.mProcessList i { process with
          stackReserve := r, stackBytes := process.stackSize, processParentTeam := true, processId := i.1
          status := .kStarting, pTime := kAffinityStandard }, m.team.mProcessCount + 1⟩
        sys := { sys with kernel := k₃.mapPage r spawnFlags } } := by
  have hlimit : ¬ m.team.mProcessCount > kSchedProcessLimitPerTeam := by
    rw [hcount, kSchedProcessLimitPerTeam]
    omega
  rw [spawn, if_neg hlimit] at h
  simp only [hcount, processSlot_fin, Exec.ok_bind] at h
  obtain ⟨process, hname, h⟩ := Exec.bind_eq_ok.mp h
  obtain rfl := copyName_eq_ok hname
  obtain ⟨⟨v, k₁⟩, hv, h⟩ := Exec.bind_eq_ok.mp h
  simp only [if_neg (Kernel.newObject_ne_zero hv)] at h
  obtain ⟨⟨f, k₂⟩, hf, h⟩ := Exec.bind_eq_ok.mp h
  simp only [if_neg (Kernel.newObject_ne_zero hf)] at h
  by_cases hkind : (m.team.mProcessList i).kind = kExectuableDylibKind
  · rw [if_pos hkind] at h
    obtain ⟨⟨d, process, sys⟩, hinit, h⟩ := Exec.bind_eq_ok.mp h
    obtain ⟨_, hpass, h⟩ := Exec.bind_eq_ok.mp h
    rw [Exec.pure_eq_ok, Exec.ok_bind] at h
    obtain ⟨⟨r, k₃⟩, hr, h⟩ := Exec.bind_eq_ok.mp h
    simp only [if_neg (Kernel.operatorNew_ne_zero hr)] at h
    obtain ⟨rfl, rfl⟩ := Prod.mk.injEq .. ▸ Except.ok.inj h
    refine ⟨rfl, v, k₁, f, k₂, _, sys, r, k₃, hv, hf, ?_, hr, by rw [hcount]; rfl⟩
    rw [reactToKind, if_pos hkind, hinit, Exec.ok_bind]
    dsimp only at hpass ⊢
    rw [hpass]
    rfl
  · rw [if_neg hkind, Exec.pure_eq_ok, Exec.ok_bind] at h
    obtain ⟨⟨r, k₃⟩, hr, h⟩ := Exec.bind_eq_ok.mp h
    simp only [if_neg (Kernel.operatorNew_ne_zero hr)] at h
    obtain ⟨rfl, rfl⟩ := Prod.mk.injEq .. ▸ Except.ok.inj h
    exact ⟨rfl, v, k₁, f, k₂, _, _, r, k₃, hv, hf, reactToKind_other hkind, hr, by rw [hcount]; rfl⟩

theorem spawn_eq_ok (hcount : m.team.mProcessCount = i.1)
    (hkind : (m.team.mProcessList i).kind ≠ kExectuableDylibKind)
    (h : m.spawn env debug fuel name code image = .ok (pid, m')) :
    pid = i.1 ∧ ∃ process, Spawned env.toHeapEnv m i code image process m' := by
  obtain ⟨rfl, v, k₁, f, k₂, process, sys, r, k₃, hv, hf, hreact, hr, rfl⟩ := spawn_cases hcount h
  obtain ⟨rfl, rfl⟩ := reactToKind_eq_ok hreact hkind
  exact ⟨rfl, _, Function.update_self .., fun j hj => Function.update_of_ne hj .., rfl, rfl, rfl, rfl, rfl, rfl, rfl,
    ⟨debug, _, _, hr⟩, rfl⟩

theorem spawn_noFault (hcount : m.team.mProcessCount = i.1)
    (hkind : (m.team.mProcessList i).kind ≠ kExectuableDylibKind) (hname : name.length < kProcessNameLen) :
    Exec.NoFault (m.spawn env debug fuel name code image) := by
  have hlimit : ¬ m.team.mProcessCount > kSchedProcessLimitPerTeam := by
    rw [hcount, kSchedProcessLimitPerTeam]
    omega
  rw [spawn, if_neg hlimit, hcount, processSlot_fin]
  simp only [Exec.ok_bind, copyName, if_pos hname]
  refine .bind Kernel.newObject_noFault fun ⟨v, k₁⟩ hv => ?_
  simp only [if_neg (Kernel.newObject_ne_zero hv)]
  refine .bind Kernel.newObject_noFault fun ⟨f, k₂⟩ hf => ?_
  simp only [if_neg (Kernel.newObject_ne_zero hf), if_neg hkind, Exec.pure_eq_ok, Exec.ok_bind]
  refine .bind Kernel.operatorNew_noFault fun ⟨r, k₃⟩ hr => ?_
  simp only [if_neg (Kernel.operatorNew_ne_zero hr)]
  exact .ok _

end Spawn

/-! ### What `Exit` does -/

theorem exit_eq_ok {env : ProcessEnv} {debug : Bool} {fuel : Nat} {exitCode : Int32} {i : Fin 32} {m m' : Machine}
    (hkind : (m.team.mProcessList i).kind ≠ kExectuableDylibKind)
    (h : m.exit env debug fuel exitCode i = .ok m') :
    m'.team.mProcessCount = m.team.mProcessCount - 1 ∧
      (∀ j, j ≠ i → m'.team.mProcessList j = m.team.mProcessList j) ∧
      (m'.team.mProcessList i).kind = (m.team.mProcessList i).kind ∧
      (m'.team.mProcessList i).processMemoryHeap = (m.team.mProcessList i).processMemoryHeap ∧
      (m'.team.mProcessList i).stackSize = (m.team.mProcessList i).stackSize ∧
      (m'.team.mProcessList i).dylibDelegate = (m.team.mProcessList i).dylibDelegate := by
  obtain ⟨⟨process, sys⟩, hexit, hret⟩ := Exec.bind_eq_ok.mp h
  obtain rfl := Except.ok.inj hret
  obtain ⟨-, -, -, hkeep⟩ := UserProcess.exit_eq_ok hkind hexit
  refine ⟨rfl, fun j hj => Function.update_of_ne hj .., ?_⟩
  simpa [setProcess] using hkeep

theorem exit_noFault {env : ProcessEnv} {debug : Bool} {fuel : Nat} {exitCode : Int32} {i : Fin 32} {m : Machine}
    (hkind : (m.team.mProcessList i).kind ≠ kExectuableDylibKind)
    (hheap : (m.team.mProcessList i).processMemoryHeap = 0)
    (hparent : (m.team.mProcessList i).processParentTeam = true) :
    Exec.NoFault (m.exit env debug fuel exitCode i) := by
  refine .bind (.bind ?_ fun k₁ _ => ?_) fun _ _ => .ok _
  · cases fuel with
    | zero => simp [loop, Exec.NoFault]
    | succ fuel =>
      rw [hheap, loop_succ_leave rfl]
      exact .ok _
  · simp only [if_neg hkind, hparent, Bool.true_eq_false, if_false, Exec.pure_eq_ok, Exec.ok_bind]
    exact .ok _

theorem remove_cases {env : ProcessEnv} {debug ret : Bool} {fuel : Nat} {processId : Int64} {m m' : Machine}
    (h : m.remove env debug fuel processId = .ok (ret, m')) :
    32 < processId.toUInt64.toNat ∧ ret = false ∧ m' = m ∨
      ∃ i : Fin 32, i.1 = processId.toUInt64.toNat ∧ ret = true ∧ m.exit env debug fuel 0 i = .ok m' := by
  unfold remove at h
  split_ifs at h with hlimit
  · obtain ⟨rfl, rfl⟩ := Prod.mk.injEq .. ▸ Except.ok.inj h
    exact Or.inl ⟨hlimit, rfl, rfl⟩
  · obtain ⟨i, hslot, h⟩ := Exec.bind_eq_ok.mp h
    obtain ⟨m₁, hexit, hret⟩ := Exec.bind_eq_ok.mp h
    obtain ⟨rfl, rfl⟩ := Prod.mk.injEq .. ▸ Except.ok.inj hret
    refine Or.inr ⟨i, ?_, rfl, hexit⟩
    have hi := processSlot_eq_ok hslot
    omega

end Machine

/-- A machine without processes, over a zeroed pool. -/
def idleMachine : Machine := ⟨.empty, ⟨zeroPool.kernel, 0⟩⟩

end OpenNE

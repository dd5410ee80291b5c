import OpenNE.Loader.Pef
import OpenNE.Process.Team

/-!
# Processes of executables (`src/PEFCodeMgr.cc`)

`rtl_create_process` has a process spawned for a loaded executable and then assigns its kind, its stack size and its
memory limit in the slot of the number it was given. It looks at the number for `kProcessInvalidID` only, and `Spawn`
answers a team that is full with an error code, or with a slot behind the end of the array: so a creation succeeds or
changes nothing exactly when the counter of the team names one of its slots (`create_process_iff`).
-/

namespace OpenNE

def kProcessInvalidID : Int := -1

def kErrorExecutable : Int32 := 33

/-- `__ImageStart`. -/
def kPefStart : CString := ⟨[95, 95, 73, 109, 97, 103, 101, 83, 116, 97, 114, 116], by decide⟩

/-- `__PEFProgramName`. -/
def kPefNameSymbol : CString :=
  ⟨[95, 95, 80, 69, 70, 80, 114, 111, 103, 114, 97, 109, 78, 97, 109, 101], by decide⟩

/-- `__PEFSizeOfReserveStack`. -/
def kPefStackSizeSymbol : CString :=
  ⟨[95, 95, 80, 69, 70, 83, 105, 122, 101, 79, 102, 82, 101, 115, 101, 114, 118, 101, 83, 116, 97, 99, 107],
    by decide⟩

/-- `__PEFSizeOfReserveHeap`. -/
def kPefHeapSizeSymbol : CString :=
  ⟨[95, 95, 80, 69, 70, 83, 105, 122, 101, 79, 102, 82, 101, 115, 101, 114, 118, 101, 72, 101, 97, 112], by decide⟩

/-- The loader's surroundings, and what the pointers in an `ErrorOr` read as: the reference in it is to a parameter
of a call that is over. -/
structure LoadEnv extends PefEnv where
  /-- `FindStart().Leak().Leak()` -/
  leakedStart : UInt64
  /-- `GetBlob().Leak().Leak()` -/
  leakedBlob : UInt64

namespace PEFLoader

/-- The error of `FindStart`. -/
def findStart (pef : LoadEnv) (exec : PEFLoader) : Exec Int32 := do
  let sym ← (findSymbol pef.toPefEnv exec (some kPefStart) kPefCode []).1
  return if sym.isSome then kErrorSuccess else kErrorExecutable

/-- A data symbol as a string, up to the zero that `rt_copy_memory` writes behind the content. -/
def nameSymbol (pef : LoadEnv) (exec : PEFLoader) : Exec (Option CString) := do
  match ← (findSymbol pef.toPefEnv exec (some kPefNameSymbol) kPefData []).1 with
  | none => return none
  | some content =>
    let name ← cString (content ++ [0])
    return some name

/-- `*(UIntPtr*)exec.FindSymbol(name, kPefData)`. -/
def sizeSymbol (pef : LoadEnv) (name : CString) (exec : PEFLoader) : Exec UInt64 := do
  let sym ← (findSymbol pef.toPefEnv exec (some name) kPefData []).1
  let content ← deref sym
  if content.length < Codec.u64.size then throw .fault
  return Codec.u64.dec (content.take Codec.u64.size)

end PEFLoader

namespace Machine

/-- The call of `Spawn`. -/
def spawnExecutable (env : ProcessEnv) (pef : LoadEnv) (fuel : Nat) (exec : PEFLoader) (m : Machine) :
    Exec (Int × Machine) := do
  -- without the symbol, `rt_string_len` reads through null
  let name ← deref (← exec.nameSymbol pef)
  m.spawn env pef.debug fuel name pef.leakedStart pef.leakedBlob

/-- `rtl_create_process`. -/
def rtlCreateProcess (env : ProcessEnv) (pef : LoadEnv) (fuel : Nat) (exec : PEFLoader) (processKind : Int32)
    (m : Machine) : Exec (Int × Machine) := do
  let err ← exec.findStart pef
  if err ≠ kErrorSuccess then return (kProcessInvalidID, m)
  let (id, m) ← m.spawnExecutable env pef fuel exec
  if id = kProcessInvalidID then return (id, m)
  let i ← processSlot id
  let m := m.setProcess i { m.team.mProcessList i with kind := processKind }
  let stackSize ← exec.sizeSymbol pef kPefStackSizeSymbol
  let m := m.setProcess i { m.team.mProcessList i with stackSize := stackSize }
  let memoryLimit ← exec.sizeSymbol pef kPefHeapSizeSymbol
  let m := m.setProcess i { m.team.mProcessList i with memoryLimit := memoryLimit }
  return (id, m)

/-! ### A creation that succeeds or changes nothing -/

/-- The process in slot `i` of `m'` is a new one: the counter of `m` named the slot and has moved on, the process
goes by the number of the slot, and the other slots are those of `m`. -/
structure NewProcess (m : Machine) (i : Fin 32) (m' : Machine) : Prop where
  slot : m.team.mProcessCount = i.1
  count : m'.team.mProcessCount = m.team.mProcessCount + 1
  processId : (m'.team.mProcessList i).processId = i.1
  status : (m'.team.mProcessList i).status = .kStarting
  others : ∀ j, j ≠ i → m'.team.mProcessList j = m.team.mProcessList j

/-- `Spawn` does not create a process: the team has no slot for it, or the number returned is not that of a new
process. -/
def SpawnFails (env : ProcessEnv) (pef : LoadEnv) (fuel : Nat) (exec : PEFLoader) (m : Machine) : Prop :=
  (¬ ∃ i : Fin 32, m.team.mProcessCount = i.1) ∨
    ∃ pid m₁, m.spawnExecutable env pef fuel exec = .ok (pid, m₁) ∧ ¬ ∃ i : Fin 32, pid = i.1 ∧ NewProcess m i m₁

/-- What is asked of a creation: where no process is created the invalid number is returned and no slot has changed,
and any other number is that of the new process. -/
structure CreatesOrNothing (env : ProcessEnv) (pef : LoadEnv) (exec : PEFLoader) (processKind : Int32)
    (m : Machine) : Prop where
  noStart : ∀ fuel err, exec.findStart pef = .ok err → err ≠ kErrorSuccess →
    ∃ m', m.rtlCreateProcess env pef fuel exec processKind = .ok (kProcessInvalidID, m') ∧
      m'.team.mProcessList = m.team.mProcessList
  failed : ∀ fuel, exec.findStart pef = .ok kErrorSuccess → SpawnFails env pef fuel exec m →
    ∃ m', m.rtlCreateProcess env pef fuel exec processKind = .ok (kProcessInvalidID, m') ∧
      m'.team.mProcessList = m.team.mProcessList
  created : ∀ fuel id m', m.rtlCreateProcess env pef fuel exec processKind = .ok (id, m') → id ≠ kProcessInvalidID →
    ∃ i : Fin 32, id = i.1 ∧ NewProcess m i m'

section Create

variable {env : ProcessEnv} {pef : LoadEnv} {fuel : Nat} {exec : PEFLoader} {processKind : Int32} {m m' m₁ : Machine}
  {i : Fin 32} {id pid : Int}

theorem spawn_new {debug : Bool} {name : CString} {code image : UInt64} (hcount : m.team.mProcessCount = i.1)
    (h : m.spawn env debug fuel name code image = .ok (pid, m')) : pid = i.1 ∧ NewProcess m i m' := by
  obtain ⟨rfl, v, h₁, f, h₂, process, sys, r, h₃, -, -, -, -, rfl⟩ := spawn_cases hcount h
  refine ⟨rfl, hcount, rfl, ?_, ?_, fun j hj => Function.update_of_ne hj ..⟩
  · simp
  · simp

theorem spawnExecutable_eq_ok (h : m.spawnExecutable env pef fuel exec = .ok (pid, m')) :
    ∃ name, exec.nameSymbol pef = .ok (some name) ∧
      m.spawn env pef.debug fuel name pef.leakedStart pef.leakedBlob = .ok (pid, m') := by
  obtain ⟨symbol, hsymbol, h⟩ := Exec.bind_eq_ok.mp h
  obtain ⟨name, hname, h⟩ := Exec.bind_eq_ok.mp h
  cases symbol with
  | none => cases hname
  | some name =>
    cases hname
    exact ⟨name, hsymbol, h⟩

theorem spawn_full {debug : Bool} {name : CString} {code image : UInt64}
    (hfull : ¬ ∃ i : Fin 32, m.team.mProcessCount = i.1)
    (h : m.spawn env debug fuel name code image = .ok (pid, m')) : pid = kErrorProcessFault := by
  rcases spawn_slot h with ⟨-, hpid, -⟩ | hslot
  · exact hpid
  · exact absurd hslot hfull

theorem rtlCreateProcess_noStart {err : Int32} (herr : exec.findStart pef = .ok err) (hne : err ≠ kErrorSuccess) :
    m.rtlCreateProcess env pef fuel exec processKind = .ok (kProcessInvalidID, m) := by
  rw [rtlCreateProcess, herr, Exec.ok_bind, if_pos hne]
  rfl

theorem rtlCreateProcess_start (h : m.rtlCreateProcess env pef fuel exec processKind = .ok (id, m')) :
    exec.findStart pef = .ok kErrorSuccess ∨ id = kProcessInvalidID ∧ m' = m := by
  rcases herr : exec.findStart pef with e | err
  · rw [rtlCreateProcess, herr] at h
    cases h
  · by_cases hstart : err = kErrorSuccess
    · exact Or.inl (congrArg Except.ok hstart)
    · rw [rtlCreateProcess_noStart herr hstart] at h
      obtain ⟨rfl, rfl⟩ := Prod.mk.injEq .. ▸ Except.ok.inj h
      exact Or.inr ⟨rfl, rfl⟩

theorem rtlCreateProcess_cases (hstart : exec.findStart pef = .ok kErrorSuccess)
    (h : m.rtlCreateProcess env pef fuel exec processKind = .ok (id, m')) :
    ∃ m₁, m.spawnExecutable env pef fuel exec = .ok (id, m₁) ∧
      (id = kProcessInvalidID ∧ m' = m₁ ∨
        ∃ i : Fin 32, id = i.1 ∧ ∃ stackSize memoryLimit,
          exec.sizeSymbol pef kPefStackSizeSymbol = .ok stackSize ∧
          exec.sizeSymbol pef kPefHeapSizeSymbol = .ok memoryLimit ∧
          m' = m₁.setProcess i { m₁.team.mProcessList i with
            kind := processKind, stackSize := stackSize, memoryLimit := memoryLimit }) := by
  rw [rtlCreateProcess, hstart, Exec.ok_bind, if_neg (by simp)] at h
  obtain ⟨⟨pid, m₁⟩, hspawn, h⟩ := Exec.bind_eq_ok.mp h
  dsimp only at h
  by_cases hid : pid = kProcessInvalidID
  · rw [if_pos hid] at h
    obtain ⟨rfl, rfl⟩ := Prod.mk.injEq .. ▸ Except.ok.inj h
    exact ⟨_, hspawn, Or.inl ⟨hid, rfl⟩⟩
  · rw [if_neg hid] at h
    obtain ⟨i, hslot, h⟩ := Exec.bind_eq_ok.mp h
    obtain ⟨stackSize, hstack, h⟩ := Exec.bind_eq_ok.mp h
    obtain ⟨memoryLimit, hlimit, h⟩ := Exec.bind_eq_ok.mp h
    obtain ⟨rfl, rfl⟩ := Prod.mk.injEq .. ▸ Except.ok.inj h
    refine ⟨m₁, hspawn, Or.inr ⟨i, processSlot_eq_ok hslot, stackSize, memoryLimit, hstack, hlimit, ?_⟩⟩
    simp [setProcess]

theorem rtlCreateProcess_full (hstart : exec.findStart pef = .ok kErrorSuccess)
    (hfull : ¬ ∃ i : Fin 32, m.team.mProcessCount = i.1) (r : Int × Machine) :
    m.rtlCreateProcess env pef fuel exec processKind ≠ .ok r := by
  intro h
  obtain ⟨m₁, hspawn, hcase⟩ := rtlCreateProcess_cases hstart h
  obtain ⟨name, -, hspawn⟩ := spawnExecutable_eq_ok hspawn
  have hid : r.1 = kErrorProcessFault := spawn_full hfull hspawn
  rcases hcase with ⟨hinvalid, -⟩ | ⟨i, hi, -⟩
  · exact absurd (hid.symm.trans hinvalid) (by decide)
  · rw [hid, kErrorProcessFault] at hi
    omega

theorem rtlCreateProcess_new (hcount : m.team.mProcessCount = i.1) (hstart : exec.findStart pef = .ok kErrorSuccess)
    (h : m.rtlCreateProcess env pef fuel exec processKind = .ok (id, m')) : id = i.1 ∧ NewProcess m i m' := by
  obtain ⟨m₁, hspawn, hcase⟩ := rtlCreateProcess_cases hstart h
  obtain ⟨name, -, hspawn⟩ := spawnExecutable_eq_ok hspawn
  obtain ⟨rfl, hnew⟩ := spawn_new hcount hspawn
  refine ⟨rfl, ?_⟩
  rcases hcase with ⟨hinvalid, -⟩ | ⟨j, hj, stackSize, memoryLimit, -, -, rfl⟩
  · rw [kProcessInvalidID] at hinvalid
    omega
  · obtain rfl : j = i := Fin.ext (by omega)
    refine ⟨hcount, hnew.count, ?_, ?_, fun k hk => ?_⟩
    · rw [setProcess_same]
      exact hnew.processId
    · rw [setProcess_same]
      exact hnew.status
    · rw [setProcess_other hk]
      exact hnew.others k hk

/-- Creation succeeds or changes nothing exactly when, given a start symbol, the counter names a slot. -/
theorem create_process_iff (env : ProcessEnv) (pef : LoadEnv) (exec : PEFLoader) (processKind : Int32) (m : Machine) :
    CreatesOrNothing env pef exec processKind m ↔
      (exec.findStart pef = .ok kErrorSuccess → ∃ i : Fin 32, m.team.mProcessCount = i.1) := by
  constructor
  · intro hkept hstart
    by_contra hfull
    obtain ⟨m', hcreate, -⟩ := hkept.failed 0 hstart (Or.inl hfull)
    exact rtlCreateProcess_full hstart hfull _ hcreate
  · intro hslot
    refine ⟨fun fuel err herr hne => ⟨m, rtlCreateProcess_noStart herr hne, rfl⟩, fun fuel hstart hfails => ?_,
      fun fuel id m' hcreate hid => ?_⟩
    · obtain ⟨i, hcount⟩ := hslot hstart
      rcases hfails with hfull | ⟨pid, m₁, hspawn, hnot⟩
      · exact absurd ⟨i, hcount⟩ hfull
      · obtain ⟨name, -, hspawn⟩ := spawnExecutable_eq_ok hspawn
        exact absurd ⟨i, spawn_new hcount hspawn⟩ hnot
    · rcases rtlCreateProcess_start hcreate with hstart | ⟨hinvalid, -⟩
      · obtain ⟨i, hcount⟩ := hslot hstart
        exact ⟨i, rtlCreateProcess_new hcount hstart hcreate⟩
      · exact absurd hinvalid hid

end Create

end Machine

/-! ### An executable -/

/-- The prefix of a kind, with a name behind it. -/
def headerName (kindName name : CString) : CString :=
  ⟨kindName.1 ++ name.1, by simp [kindName.2, name.2]⟩

/-- The fork of a symbol: its header, and the content. -/
def symbolFork (kindName name : CString) (kind : UInt16) (content : List UInt8) : List UInt8 :=
  PEFCommandHeader.codec.enc
    ⟨⟨((headerName kindName name).1 ++ List.replicate kPefNameLen 0).take kPefNameLen, by simp⟩, kPefArchAMD64, 0, 0,
      kind, 0, UInt64.ofNat content.length⟩ ++ content

/-- `.code64` and `.data64`. -/
def codeName : CString := (containerKind kPefCode).get rfl
def dataName : CString := (containerKind kPefData).get rfl

/-- The forks of an executable of the name `a` and the stack size `stackSize`. -/
def appFork (stackSize : UInt64) (name : CString) : Option (List UInt8) :=
  if name = kPefStart then some (symbolFork codeName name 0xC [])
  else if name = kPefNameSymbol then some (symbolFork dataName name 0xD [97])
  else if name = kPefStackSizeSymbol then some (symbolFork dataName name 0xD (Codec.u64.enc stackSize))
  else if name = kPefHeapSizeSymbol then some (symbolFork dataName name 0xD (Codec.u64.enc kSchedMaxMemoryLimit))
  else none

def appEnv (stackSize : UInt64) : LoadEnv where
  debug := true
  platform := kPefArchAMD64
  read := appFork stackSize
  fresh := some (List.replicate 64 0)
  allocates _ := true
  leaked := id
  leakedStart := 0x4000
  leakedBlob := 0x5000

def appLoader : PEFLoader := ⟨some 4, false, false⟩

section App

variable {stackSize : UInt64} {kindName name : CString} {kind : Int32} {content : List UInt8} {log : List BufferWrite}

/-- The prefix in the buffer of `appEnv`. -/
def prefixView (kindName : CString) : KString := ⟨kindName.1 ++ List.replicate 57 0, 7, 7⟩

theorem append_prefixView (log : List BufferWrite) (hlength : kindName.length = 7) (hname : name.length < 57) :
    ∃ view log', (prefixView kindName).append name log = (.ok view, log') ∧
      view.cData = .ok (headerName kindName name) := by
  have hroom : (prefixView kindName).fCur + name.length ≤ (prefixView kindName).fData.length := by
    have hdata : (prefixView kindName).fData.length = kindName.length + 57 := by
      simp [prefixView, CString.length]
    have hcur : (prefixView kindName).fCur = 7 := rfl
    omega
  refine ⟨_, _, KString.append_fits hroom log, ?_⟩
  have hrest : 57 - name.length = 57 - name.length - 1 + 1 := by omega
  have hdata : (kindName.1 ++ List.replicate 57 0).take 7 ++ name.1 ++
      (kindName.1 ++ List.replicate 57 (0 : UInt8)).drop (7 + name.length) =
        (headerName kindName name).1 ++ 0 :: List.replicate (57 - name.length - 1) 0 := by
    rw [List.take_left' hlength, ← List.drop_drop, List.drop_left' hlength, List.drop_replicate, hrest,
      List.replicate_succ]
    rfl
  show cString ((kindName.1 ++ List.replicate 57 0).take 7 ++ name.1 ++
    (kindName.1 ++ List.replicate 57 (0 : UInt8)).drop (7 + name.length)) = _
  rw [hdata, cString_terminated]

theorem findSymbol_app (hkind : containerKind kind = some kindName) (hlength : kindName.length = 7)
    (hview : StringBuilder.construct true (some (List.replicate 64 0)) (some kindName) [] =
      (.ok (some (prefixView kindName)), log))
    (hmangle : mangle name = name) (hname : name.length < 57) (hcontent : content.length < 2 ^ 64)
    {forkKind : UInt16} (hforkKind : forkKind.toUInt32.toInt32 = kind)
    (hread : appFork stackSize name = some (symbolFork kindName name forkKind content)) :
    (findSymbol (appEnv stackSize).toPefEnv appLoader (some name) kind []).1 = .ok (some content) := by
  obtain ⟨view, log', happend, hwanted⟩ := append_prefixView log hlength hname
  have hsize : (UInt64.ofNat content.length).toNat = content.length := UInt64.toNat_ofNat_of_lt' hcontent
  have hsearch : findSymbol (appEnv stackSize).toPefEnv appLoader (some name) kind [] = _ :=
    findSymbol_search rfl rfl hkind hview (by rw [hmangle]; exact happend)
  have hfork : (appEnv stackSize).read name = some (symbolFork kindName name forkKind content) := hread
  have hheader : ∀ header : PEFCommandHeader, (PEFCommandHeader.codec.enc header).length = pefHeaderSize :=
    PEFCommandHeader.codec.enc_length
  rw [hsearch, hfork]
  refine (searchHeaders_first commandHeader_enc (cString_header rfl ?_) hwanted hforkKind rfl rfl ?_ 3 log').trans ?_
  · show (kindName.1 ++ name.1).length < kPefNameLen
    rw [List.length_append, kPefNameLen]
    exact Nat.lt_of_lt_of_le (Nat.add_lt_add_of_le_of_lt (Nat.le_of_eq hlength) hname) (by decide)
  · rw [List.length_append, hheader, hsize]
  · rw [List.drop_left' (hheader _), hsize, List.take_length]

theorem findStart_app : appLoader.findStart (appEnv stackSize) = .ok kErrorSuccess := by
  have hmangle : mangle kPefStart = kPefStart := Subtype.ext (by decide)
  have hsym : (findSymbol (appEnv stackSize).toPefEnv appLoader (some kPefStart) kPefCode []).1 = .ok (some []) :=
    findSymbol_app rfl rfl rfl hmangle (by decide) (by decide) rfl (if_pos rfl)
  rw [PEFLoader.findStart, hsym]
  rfl

theorem findSymbol_data (hmangle : mangle name = name) (hname : name.length < 57) (hcontent : content.length < 2 ^ 64)
    (hread : appFork stackSize name = some (symbolFork dataName name 0xD content)) :
    (findSymbol (appEnv stackSize).toPefEnv appLoader (some name) kPefData []).1 = .ok (some content) :=
  findSymbol_app rfl rfl rfl hmangle hname hcontent rfl hread

theorem nameSymbol_app : appLoader.nameSymbol (appEnv stackSize) = .ok (some letterA) := by
  have hmangle : mangle kPefNameSymbol = kPefNameSymbol := Subtype.ext (by decide)
  have hread : appFork stackSize kPefNameSymbol = some (symbolFork dataName kPefNameSymbol 0xD [97]) := by
    rw [appFork, if_neg (by decide), if_pos rfl]
  have hsym := findSymbol_data hmangle (by decide) (by decide) hread
  rw [PEFLoader.nameSymbol, hsym]
  rfl

end App

/-- A team of `count` processes, by its counter. -/
def fullMachine (count : Int) : Machine :=
  { idleMachine with team := ⟨fun i => { processId := i.1, status := .kRunning, processParentTeam := true }, count⟩ }

/-- A team of as many processes as it has slots is given a slot behind the array; with one process more on the
counter, `Spawn` returns its error code, and the caller goes on to the slot of that number. -/
theorem full_team_not_refused :
    ¬ Machine.CreatesOrNothing plainEnv (appEnv kSchedMaxStackSz) appLoader kExectuableKind (fullMachine 32) ∧
      (fullMachine 33).spawnExecutable plainEnv (appEnv kSchedMaxStackSz) 1 appLoader =
        .ok (kErrorProcessFault, fullMachine 33) ∧
      (fullMachine 33).rtlCreateProcess plainEnv (appEnv kSchedMaxStackSz) 1 appLoader kExectuableKind =
        .error .fault := by
  have hfull : ¬ ∃ i : Fin 32, (fullMachine 32).team.mProcessCount = i.1 := by
    rintro ⟨i, hi⟩
    have hcount : (fullMachine 32).team.mProcessCount = 32 := rfl
    omega
  have hspawn : (fullMachine 33).spawnExecutable plainEnv (appEnv kSchedMaxStackSz) 1 appLoader =
      .ok (kErrorProcessFault, fullMachine 33) := by
    have hname : deref (some letterA) = .ok letterA := rfl
    rw [Machine.spawnExecutable, nameSymbol_app, Exec.ok_bind, hname, Exec.ok_bind, Machine.spawn]
    exact if_pos (by decide)
  refine ⟨fun hkept => ?_, hspawn, ?_⟩
  · obtain ⟨m', hcreate, -⟩ := hkept.failed 1 findStart_app (Or.inl hfull)
    exact Machine.rtlCreateProcess_full findStart_app hfull _ hcreate
  · rw [Machine.rtlCreateProcess, findStart_app, Exec.ok_bind, if_neg (by decide), hspawn, Exec.ok_bind]
    rfl

end OpenNE

import OpenNE.Boot.BootSupport

/-!
# The loader of the boot loader (`src/BootThread.cc`, `KernelKit/PE.h`, `CFKit/Utils.h`)

The constructor of `BootThread` takes the headers of an image from fixed places, asks the firmware for the pages of
the image and goes through its sections: it zeroes the place of each, looks at its name and copies its data there.
`Access` checks what it touches; without a check, what it does to the memory is `loadedTo`.
-/

namespace OpenNE

def kMagMz0 : UInt8 := 77
def kMagMz1 : UInt8 := 90

/-- `Joy!`. -/
def kPefMagic : List UInt8 := [74, 111, 121, 33]

def kPeSignature : UInt32 := 0x4550
def kPeMachineAMD64 : UInt16 := 0x8664
def kPeMachineARM64 : UInt16 := 0xaa64

def kZKASubsystem : UInt16 := 17

def kHandoverMagic : UInt64 := 0xBADCC
def kHandoverVersion : UInt64 := 0x0117

def kTypeKernel : UInt32 := 100

def kArchAMD64 : UInt32 := 122
def kArchARM64 : UInt32 := 123

/-- `.text`. -/
def sectionForCode : List UInt8 := [46, 116, 101, 120, 116]

/-- `.ldr`. -/
def sectionForNewLdr : List UInt8 := [46, 108, 100, 114]

/-- What the boot loader is built for. -/
inductive BuildArch where
  | amd64
  | arm64
  deriving DecidableEq

def BuildArch.machine : BuildArch → UInt16
  | amd64 => kPeMachineAMD64
  | arm64 => kPeMachineARM64

def BuildArch.handoverArch : BuildArch → UInt32
  | amd64 => kArchAMD64
  | arm64 => kArchARM64

/-- The build and the firmware. -/
structure BootEnv where
  arch : BuildArch
  debug : Bool
  /-- whether `AllocatePages(AllocateAddress, ..)` gives that many pages at that address -/
  allocatePages : Nat → Nat → Bool

/-- `sizeof(DosHeader)`: `eLfanew` is its last field. -/
def dosHeaderSize : Nat := 128

/-- `sizeof(LDR_EXEC_HEADER)`. -/
def execHeaderSize : Nat := 24

/-- `sizeof(LDR_SECTION_HEADER)`. -/
def sectionHeaderSize : Nat := 40

/-- The page size that the constructor divides by, and the one of the firmware. -/
def cPageSize : Nat := 512
def efiPageSize : Nat := 4096

/-- What the loop over the sections takes from the headers, and the pages it got for the image. -/
structure ImageLayout where
  loadStartAddress : Nat
  mSizeOfImage : Nat
  pages : Span
  optHeader : Nat
  sectPtr : Nat
  numSecs : Nat

/-- The memory, and `fStartAddress`. -/
structure LoadState where
  mem : Store
  fStartAddress : Nat

/-! ### The headers -/

/-- `CFKit::ldr_find_exec_header`: the header right behind the DOS header. -/
def ldrFindExecHeader (acc : Access) (ptrDos : Nat) (mem : Store) : Exec Nat := do
  if ptrDos = 0 then return 0
  if (← fetch acc Codec.u8 ptrDos mem) ≠ kMagMz0 then return 0
  if (← fetch acc Codec.u8 (ptrDos + 1) mem) ≠ kMagMz1 then return 0
  return ptrDos + dosHeaderSize

/-- `CFKit::ldr_find_opt_exec_header`: the header right behind that one. -/
def ldrFindOptExecHeader (acc : Access) (ptrDos : Nat) (mem : Store) : Exec Nat := do
  if ptrDos = 0 then return 0
  let exec ← ldrFindExecHeader acc ptrDos mem
  if exec = 0 then return 0
  return exec + execHeaderSize

/-- The versions and the signature that are printed. -/
def printVersions (acc : Access) (header optHeader : Nat) (mem : Store) : Exec Unit := do
  let _ ← fetch acc Codec.u8 (optHeader + 2) mem
  let _ ← fetch acc Codec.u8 (optHeader + 3) mem
  let _ ← fetch acc Codec.u16 (optHeader + 48) mem
  let _ ← fetch acc Codec.u16 (optHeader + 50) mem
  let _ ← fetch acc Codec.u32 header mem
  return ()

/-- The pages that `AllocatePages` gives at `address`; its status is not looked at. -/
def BootEnv.pagesAt (env : BootEnv) (address numPages : Nat) : Span :=
  ⟨address, if env.allocatePages address numPages then efiPageSize * numPages else 0⟩

/-- The constructor up to its loop, for an image that begins as a DOS executable does. -/
def readLayout (acc : Access) (env : BootEnv) (fBlob : Nat) (mem : Store) : Exec (Option ImageLayout) := do
  let header ← ldrFindExecHeader acc fBlob mem
  let optHeader ← ldrFindOptExecHeader acc fBlob mem
  if header = 0 ∨ optHeader = 0 then return none
  if (← fetch acc Codec.u16 (header + 4) mem) ≠ env.arch.machine then return none
  if (← fetch acc Codec.u32 header mem) ≠ kPeSignature then return none
  if (← fetch acc Codec.u16 (optHeader + 68) mem) ≠ kZKASubsystem then return none
  let numSecs ← fetch acc Codec.u16 (header + 6) mem
  printVersions acc header optHeader mem
  let mImageBase ← fetch acc Codec.u32 (optHeader + 28) mem
  let mBaseOfData ← fetch acc Codec.u32 (optHeader + 24) mem
  let mSizeOfImage ← fetch acc Codec.u32 (optHeader + 56) mem
  let mSizeOfOptionalHeader ← fetch acc Codec.u16 (header + 20) mem
  let loadStartAddress := mImageBase.toNat + mBaseOfData.toNat
  return some
    { loadStartAddress := loadStartAddress
      mSizeOfImage := mSizeOfImage.toNat
      pages := env.pagesAt loadStartAddress (mSizeOfImage.toNat / cPageSize)
      optHeader := optHeader
      sectPtr := optHeader + mSizeOfOptionalHeader.toNat
      numSecs := numSecs.toNat }

/-- The constructor up to its loop. -/
def findLayout (acc : Access) (env : BootEnv) (fBlob : Nat) (mem : Store) : Exec (Option ImageLayout) := do
  if fBlob = 0 then return none
  if (← startsWith acc mem [kMagMz0, kMagMz1] fBlob) then readLayout acc env fBlob mem
  else
    -- an executable of its own format is told apart from a bad one, and neither is loaded
    let _ ← startsWith acc mem kPefMagic fBlob
    return none

/-! ### The sections -/

/-- `&sectPtr[sectIndex]`. -/
def ImageLayout.sect (l : ImageLayout) (sectIndex : Nat) : Nat := l.sectPtr + sectionHeaderSize * sectIndex

/-- The check of the `HANDOVER_INFORMATION_STUB` at `stub`. -/
def checkStub (acc : Access) (arch : BuildArch) (stub : Nat) (mem : Store) : Exec Unit := do
  if (← fetch acc Codec.u64 stub mem) ≠ kHandoverMagic then
    if (← fetch acc Codec.u32 (stub + 8) mem) ≠ kTypeKernel then
      if (← fetch acc Codec.u32 (stub + 16) mem) ≠ arch.handoverArch then throw .panic
      throw .panic
  return ()

/-- What the name of a section asks for: the start address behind it. -/
def lookAtName (acc : Access) (env : BootEnv) (fBlob : Nat) (l : ImageLayout) (sect : Nat) (t : LoadState) :
    Exec Nat := do
  if (← strcmp acc sectionForCode sect t.mem) = 0 then
    let mAddressOfEntryPoint ← fetch acc Codec.u32 (l.optHeader + 16) t.mem
    return l.loadStartAddress + mAddressOfEntryPoint.toNat
  if (← strcmp acc sectionForNewLdr sect t.mem) = 0 then
    let mPointerToRawData ← fetch acc Codec.u32 (sect + 20) t.mem
    checkStub acc env.arch (fBlob + mPointerToRawData.toNat) t.mem
  return t.fStartAddress

/-- One round of the loop over the sections. -/
def loadSection (acc : Access) (env : BootEnv) (fBlob : Nat) (l : ImageLayout) (t : LoadState) (sectIndex : Nat) :
    Exec LoadState := do
  let sect := l.sect sectIndex
  let mVirtualAddress ← fetch acc Codec.u32 (sect + 12) t.mem
  let mSizeOfRawData ← fetch acc Codec.u32 (sect + 16) t.mem
  let mem ← setMem acc l.pages (l.loadStartAddress + mVirtualAddress.toNat) mSizeOfRawData.toNat t.mem
  let fStartAddress ← lookAtName acc env fBlob l sect ⟨mem, t.fStartAddress⟩
  let mPointerToRawData ← fetch acc Codec.u32 (sect + 20) mem
  writeString acc env.debug sect mem
  let mVirtualAddress ← fetch acc Codec.u32 (sect + 12) mem
  let mSizeOfRawData ← fetch acc Codec.u32 (sect + 16) mem
  let mem ← copyMem acc l.pages (l.loadStartAddress + mVirtualAddress.toNat) (fBlob + mPointerToRawData.toNat)
    mSizeOfRawData.toNat mem
  return ⟨mem, fStartAddress⟩

/-- The constructor of `BootThread`. A machine that `EFI::Stop` halts has failed a check. -/
def bootThread (acc : Access) (env : BootEnv) (fBlob : Nat) (mem : Store) : Exec LoadState := do
  match ← findLayout acc env fBlob mem with
  | none => return ⟨mem, 0⟩
  | some l => (List.range l.numSecs).foldlM (loadSection acc env fBlob l) ⟨mem, 0⟩

/-- `BootThread::IsValid`. -/
def LoadState.isValid (t : LoadState) : Bool := t.fStartAddress ≠ 0

/-! ### What a round does to the memory -/

/-- The section counts as `.text`. -/
def IsText (mem : Store) (sect : Nat) : Prop := strcmpAt mem sectionForCode sect 0 = 0

/-- The section counts as `.ldr`. -/
def IsLdr (mem : Store) (sect : Nat) : Prop := ¬ IsText mem sect ∧ strcmpAt mem sectionForNewLdr sect 0 = 0

instance (mem : Store) (sect : Nat) : Decidable (IsText mem sect) := inferInstanceAs (Decidable (_ = _))

instance (mem : Store) (sect : Nat) : Decidable (IsLdr mem sect) := inferInstanceAs (Decidable (_ ∧ _))

/-- `HANDOVER_INFORMATION_STUB`, without its padding. -/
structure HandoverStub where
  HandoverMagic : UInt64
  HandoverType : UInt32
  HandoverArch : UInt32
  deriving DecidableEq

/-- The stub that the section points to. -/
def stubAt (fBlob : Nat) (mem : Store) (sect : Nat) : HandoverStub :=
  let stub := fBlob + (mem.get Codec.u32 (sect + 20)).toNat
  ⟨mem.get Codec.u64 stub, mem.get Codec.u32 (stub + 8), mem.get Codec.u32 (stub + 16)⟩

/-- The section makes the constructor stop: its stub is wrong in its magic and in its type. -/
def Stops (fBlob : Nat) (mem : Store) (sect : Nat) : Prop :=
  IsLdr mem sect ∧ (stubAt fBlob mem sect).HandoverMagic ≠ kHandoverMagic ∧
    (stubAt fBlob mem sect).HandoverType ≠ kTypeKernel

instance (fBlob : Nat) (mem : Store) (sect : Nat) : Decidable (Stops fBlob mem sect) :=
  inferInstanceAs (Decidable (_ ∧ _ ∧ _))

/-- The range that a section claims at its destination, as the header at `sect` says. -/
def ImageLayout.target (l : ImageLayout) (mem : Store) (sect : Nat) : Nat :=
  l.loadStartAddress + (mem.get Codec.u32 (sect + 12)).toNat

def sizeOfRawData (mem : Store) (sect : Nat) : Nat := (mem.get Codec.u32 (sect + 16)).toNat

/-- The place of the section zeroed. -/
def zeroSection (l : ImageLayout) (sect : Nat) (mem : Store) : Store :=
  memset 0 (l.target mem sect) (sizeOfRawData mem sect) mem

/-- The data of the section copied. -/
def copySection (fBlob : Nat) (l : ImageLayout) (sect : Nat) (mem : Store) : Store :=
  memcpy (l.target mem sect) (fBlob + (mem.get Codec.u32 (sect + 20)).toNat) (sizeOfRawData mem sect) mem

/-- A round that does not stop. -/
def stepSection (fBlob : Nat) (l : ImageLayout) (t : LoadState) (sectIndex : Nat) : LoadState :=
  let sect := l.sect sectIndex
  let mem := zeroSection l sect t.mem
  { mem := copySection fBlob l sect mem
    fStartAddress := if IsText mem sect then
      l.loadStartAddress + (mem.get Codec.u32 (l.optHeader + 16)).toNat else t.fStartAddress }

/-- The state after the first `k` sections. -/
def loadedTo (fBlob : Nat) (l : ImageLayout) (mem : Store) (k : Nat) : LoadState :=
  (List.range k).foldl (stepSection fBlob l) ⟨mem, 0⟩

theorem loadedTo_succ (fBlob : Nat) (l : ImageLayout) (mem : Store) (k : Nat) :
    loadedTo fBlob l mem (k + 1) = stepSection fBlob l (loadedTo fBlob l mem k) k := by
  rw [loadedTo, List.range_succ, List.foldl_append]
  rfl

/-- The memory in which the name of a section is looked at. -/
def memAt (fBlob : Nat) (l : ImageLayout) (mem : Store) (k : Nat) : Store :=
  zeroSection l (l.sect k) (loadedTo fBlob l mem k).mem

/-- Some stub is wrong in its magic and its type. -/
def SomeStops (fBlob : Nat) (l : ImageLayout) (mem : Store) : Prop :=
  ∃ k < l.numSecs, Stops fBlob (memAt fBlob l mem k) (l.sect k)

instance (fBlob : Nat) (l : ImageLayout) (mem : Store) : Decidable (SomeStops fBlob l mem) :=
  inferInstanceAs (Decidable (∃ k < l.numSecs, _))

section Anywhere

variable {env : BootEnv} {fBlob : Nat} {l : ImageLayout} {mem : Store}

theorem strcmp_anywhere {left : List UInt8} (hne : left ≠ []) (a : Nat) (mem : Store) :
    strcmp .anywhere left a mem = .ok (strcmpAt mem left a 0) :=
  strcmp_eq hne fun _ _ => rfl

theorem checkStub_anywhere (arch : BuildArch) (stub : Nat) (mem : Store) :
    checkStub .anywhere arch stub mem =
      if mem.get Codec.u64 stub ≠ kHandoverMagic ∧ mem.get Codec.u32 (stub + 8) ≠ kTypeKernel then .error .panic
      else .ok () := by
  simp only [checkStub, fetch_anywhere, Exec.ok_bind]
  by_cases hmagic : mem.get Codec.u64 stub = kHandoverMagic
  · simp [hmagic]
  · by_cases htype : mem.get Codec.u32 (stub + 8) = kTypeKernel
    · simp [hmagic, htype]
    · simp [hmagic, htype]

/-- The start address behind the name of a section. -/
def startBehind (l : ImageLayout) (mem : Store) (sect fStartAddress : Nat) : Nat :=
  if IsText mem sect then l.loadStartAddress + (mem.get Codec.u32 (l.optHeader + 16)).toNat else fStartAddress

theorem lookAtName_anywhere (env : BootEnv) (fBlob : Nat) (l : ImageLayout) (sect : Nat) (t : LoadState) :
    lookAtName .anywhere env fBlob l sect t =
      if Stops fBlob t.mem sect then .error .panic else .ok (startBehind l t.mem sect t.fStartAddress) := by
  unfold lookAtName startBehind
  rw [strcmp_anywhere (by decide), strcmp_anywhere (by decide)]
  simp only [Exec.ok_bind, fetch_anywhere]
  by_cases htext : IsText t.mem sect
  · have hstop : ¬ Stops fBlob t.mem sect := fun hstop => hstop.1.1 htext
    have hequal : strcmpAt t.mem sectionForCode sect 0 = 0 := htext
    rw [if_pos hequal, if_neg hstop, if_pos htext]
    rfl
  · have hdiffer : ¬ strcmpAt t.mem sectionForCode sect 0 = 0 := htext
    rw [if_neg hdiffer, if_neg htext]
    by_cases hldr : strcmpAt t.mem sectionForNewLdr sect 0 = 0
    · have hstops : Stops fBlob t.mem sect ↔ (stubAt fBlob t.mem sect).HandoverMagic ≠ kHandoverMagic ∧
          (stubAt fBlob t.mem sect).HandoverType ≠ kTypeKernel := and_iff_right ⟨htext, hldr⟩
      simp only [if_pos hldr, hstops]
      rw [checkStub_anywhere]
      unfold stubAt
      dsimp only
      split
      · rfl
      · rfl
    · have hstop : ¬ Stops fBlob t.mem sect := fun hstop => hldr hstop.1.2
      rw [if_neg hldr, if_neg hstop]
      rfl

theorem loadSection_anywhere (env : BootEnv) (fBlob : Nat) (l : ImageLayout) (t : LoadState) (i : Nat) :
    loadSection .anywhere env fBlob l t i =
      if Stops fBlob (zeroSection l (l.sect i) t.mem) (l.sect i) then .error .panic
      else .ok (stepSection fBlob l t i) := by
  have hzero : setMem .anywhere l.pages (l.target t.mem (l.sect i)) (sizeOfRawData t.mem (l.sect i)) t.mem =
      .ok (zeroSection l (l.sect i) t.mem) := rfl
  unfold loadSection
  simp only [fetch_anywhere, Exec.ok_bind]
  unfold ImageLayout.target sizeOfRawData at hzero
  rw [hzero]
  simp only [Exec.ok_bind, lookAtName_anywhere]
  split
  · rfl
  · have hwrite : writeString .anywhere env.debug (l.sect i) (zeroSection l (l.sect i) t.mem) = .ok () := by
      simp [writeString, Access.mayReadString]
    simp only [Exec.ok_bind, hwrite]
    rfl

theorem loadSections_anywhere (env : BootEnv) (fBlob : Nat) (l : ImageLayout) (mem : Store) (n : Nat) :
    (List.range n).foldlM (loadSection .anywhere env fBlob l) ⟨mem, 0⟩ =
      if ∃ k < n, Stops fBlob (memAt fBlob l mem k) (l.sect k) then .error .panic
      else .ok (loadedTo fBlob l mem n) := by
  induction n with
  | zero =>
    rw [if_neg]
    · rfl
    · simp
  | succ n ih =>
    rw [List.range_succ, List.foldlM_append, ih]
    by_cases hbefore : ∃ k < n, Stops fBlob (memAt fBlob l mem k) (l.sect k)
    · obtain ⟨k, hk, hstop⟩ := hbefore
      rw [if_pos ⟨k, hk, hstop⟩, if_pos ⟨k, Nat.lt_succ_of_lt hk, hstop⟩]
      rfl
    · rw [if_neg hbefore, Exec.ok_bind, List.foldlM_cons, loadSection_anywhere, ← memAt]
      by_cases hstop : Stops fBlob (memAt fBlob l mem n) (l.sect n)
      · rw [if_pos hstop, if_pos ⟨n, Nat.lt_succ_self n, hstop⟩]
        rfl
      · rw [if_neg hstop, if_neg, loadedTo_succ]
        · rfl
        · rintro ⟨k, hk, hk'⟩
          rcases Nat.lt_succ_iff_lt_or_eq.mp hk with hlt | rfl
          · exact hbefore ⟨k, hlt, hk'⟩
          · exact hstop hk'

theorem bootThread_anywhere (h : findLayout .anywhere env fBlob mem = .ok (some l)) :
    bootThread .anywhere env fBlob mem =
      if SomeStops fBlob l mem then .error .panic else .ok (loadedTo fBlob l mem l.numSecs) := by
  unfold bootThread
  rw [h]
  exact loadSections_anywhere env fBlob l mem l.numSecs

end Anywhere

end OpenNE

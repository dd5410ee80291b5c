import OpenNE.Base.Call
import OpenNE.NeFS.Fork

/-!
# Drive packets and the mounted drive (`KernelKit/DriveMgr.h`, `src/DriveMgr.cc`, `src/DriveMgr+IO.cc`)

Every input and output of NeFS goes through a packet, a field of the drive: an operation copies the mounted
drive, fills in the packet of the copy and passes it by value. This is the file system at that level: the
disk, the mounted drive, and the packets that reached `io_drv_output`. A packet moves exactly its bytes; that the
driver below rounds to sectors (`OpenNE.Storage.AtaWords`) is left out.
-/

namespace OpenNE

/-! ### Drives -/

def kMassStorageDisc : Int32 := 0xDA
def kReadOnlyDrive : Int32 := 0x10
def kEPMDrive : Int32 := 0x11
def kUnformattedDrive : Int32 := 0x15

/-- `DriveTrait::DrivePacket`. What `fPacketContent` points to is passed beside the packet. -/
structure DrivePacket where
  fPacketMime : String := "*/*"
  fPacketSize : Nat := 0
  fPacketGood : Bool := true
  fPacketLba : Lba := 0
  fPacketKindFlags : UInt32 := 0
  fPacketReadOnly : Bool := false

structure DriveTrait where
  fName : String
  fKind : Int32 := 0
  fPacket : DrivePacket := {}
  fLbaStart : Int64 := 0
  fLbaEnd : Int64 := 0
  fSectorSz : Int64 := 512

/-- `EPM_PART_BLOCK` (`FirmwareKit/EPM.h`). -/
structure EpmPartBlock where
  Magic : Bytes 5
  Name : Bytes 32
  Version : Int32
  NumBlocks : Int64
  SectorSz : Int64
  LbaStart : Int64
  LbaEnd : Int64
  Kind : UInt16
  FsVersion : Int32
  Fs : Bytes 16
  Reserved : Bytes 401

/-- The packed image. -/
def EpmPartBlock.codec : Codec EpmPartBlock :=
  ((Codec.bytes 5).pair <| (Codec.bytes 32).pair <| Codec.i32.pair <| Codec.i64.pair <| Codec.i64.pair <|
      Codec.i64.pair <| Codec.i64.pair <| Codec.u16.pair <| Codec.i32.pair <| (Codec.bytes 16).pair
      (Codec.bytes 401)).map
    (fun ⟨magic, name, version, blocks, sector, start, last, kind, fsv, fs, reserved⟩ =>
      ⟨magic, name, version, blocks, sector, start, last, kind, fsv, fs, reserved⟩)
    (fun b => (b.Magic, b.Name, b.Version, b.NumBlocks, b.SectorSz, b.LbaStart, b.LbaEnd, b.Kind, b.FsVersion,
      b.Fs, b.Reserved))
    (fun _ => rfl) (fun _ => rfl)

/-- `kEPMMagic86`. -/
def kEPMMagic : List UInt8 := [69, 80, 77, 65, 77]

def kEPMMagicLength : Nat := 5

/-- The magic as a field. -/
def epmMagic : Bytes kEPMMagicLength := ⟨kEPMMagic, rfl⟩

def kEPMBootBlockLba : Lba := 0

/-- The disk, `kMountpoint.A()`, and the packets `io_drv_output` was called with. -/
structure Mount where
  disk : Store
  mA : DriveTrait
  sent : List DrivePacket

namespace DriveTrait

/-- The packet filled in for `size` bytes at `lba`. -/
def withPacket (lba : Lba) (size : Nat) (drive : DriveTrait) : DriveTrait :=
  { drive with fPacket := { drive.fPacket with fPacketLba := lba, fPacketSize := size } }

/-- `rt_copy_memory` of a MIME text into the packet. -/
def withMime (mime : String) (drive : DriveTrait) : DriveTrait :=
  { drive with fPacket := { drive.fPacket with fPacketMime := mime } }

end DriveTrait

namespace Mount

/-! ### Input and output -/

/-- `io_drv_input`: the bytes put behind `fPacketContent`. -/
def ioDrvInput (pckt : DrivePacket) : Call Mount (List UInt8) :=
  Call.gets fun m => m.disk.read pckt.fPacketLba.toNat pckt.fPacketSize

/-- `io_drv_output` of the bytes behind `fPacketContent`. -/
def ioDrvOutput (pckt : DrivePacket) (content : List UInt8) : Call Mount Unit :=
  Call.modify fun m =>
    let m := { m with sent := m.sent ++ [pckt] }
    if pckt.fPacketReadOnly then m else { m with disk := m.disk.write pckt.fPacketLba.toNat content }

/-- A record read through the packet of a copy of the drive. -/
def readRecord {α : Type} (c : Codec α) (lba : Lba) (drive : DriveTrait) : Call Mount (α × DriveTrait) := do
  let drive := drive.withPacket lba c.size
  let content ← ioDrvInput drive.fPacket
  return (c.dec content, drive)

/-- A record written through the packet of a copy of the drive. -/
def writeRecord {α : Type} (c : Codec α) (lba : Lba) (v : α) (drive : DriveTrait) : Call Mount DriveTrait := do
  let drive := drive.withPacket lba c.size
  ioDrvOutput drive.fPacket (c.enc v)
  return drive

/-- `fs_ifs_write` of drive A: the packet of the copy, through the output function of the mounted drive. -/
def fsIfsWrite (content : List UInt8) (drive : DriveTrait) : Call Mount (Bool × DriveTrait) := do
  let drive := { drive with fPacket := { drive.fPacket with fPacketGood := false } }
  ioDrvOutput drive.fPacket content
  return (drive.fPacket.fPacketGood, drive)

/-- `auto drive = kMountpoint.A();` -/
def copyA : Call Mount DriveTrait := Call.gets Mount.mA

/-- A record read through the packet of the mounted drive itself. -/
def readRecordA {α : Type} (c : Codec α) (lba : Lba) : Call Mount α := do
  let drive ← copyA
  let (v, drive) ← readRecord c lba drive
  Call.modify fun m => { m with mA := drive }
  return v

/-! ### Mounting -/

/-- What `io_detect_drive` makes of the block at the start of the disk. -/
def detected (block : EpmPartBlock) (trait : DriveTrait) : Exec DriveTrait :=
  if rtStringCmp block.Magic.1 kEPMMagic kEPMMagicLength = 0 then
    if block.SectorSz = 0 ∨ block.LbaEnd = 0 ∨ block.SectorSz = 0 then .error .panic
    else .ok { trait with
      fPacket := { trait.fPacket with fPacketReadOnly := false }
      fKind := kMassStorageDisc ||| kEPMDrive
      fSectorSz := block.SectorSz
      fLbaEnd := block.LbaEnd
      fLbaStart := block.LbaStart }
  else .ok { trait with
    fPacket := { trait.fPacket with fPacketReadOnly := true }
    fKind := kMassStorageDisc ||| kUnformattedDrive ||| kReadOnlyDrive }

/-- `io_detect_drive`. `fInit` gets the packet by value. -/
def ioDetectDrive (trait : DriveTrait) : Call Mount DriveTrait := do
  let trait := trait.withMime "fs/detect-packet"
  let (block, trait) ← readRecord EpmPartBlock.codec kEPMBootBlockLba trait
  let trait ← Call.lift (detected block trait)
  let trait := (trait.withMime "*/*").withPacket 0 0
  return { trait with fPacket := { trait.fPacket with fPacketKindFlags := trait.fKind.toUInt32 } }

/-- `io_construct_main_drive`. -/
def ioConstructMainDrive : Call Mount DriveTrait := ioDetectDrive { fName := "/media/sda/" }

/-- `fs_init_nefs`. -/
def fsInitNefs : Call Mount Bool := do
  let drive ← ioConstructMainDrive
  Call.modify fun m => { m with mA := drive }
  return true

/-! ### `FindCatalog` -/

/-- The MIME text of the operations below. -/
def nefsMime : String := "fs/nefs-packet"

/-- One round of the loop in `FindCatalog`. -/
def findRound (catalogName : CString) (searchHidden : Bool) (part : NfsSuperBlock) (lba : Lba) :
    Call Mount (Lba ⊕ Option (NfsCatalogStruct × Lba)) := do
  let temporary ← readRecordA NfsCatalogStruct.codec lba
  let name ← Call.lift temporary.nameString
  let locked := temporary.Status == kNeFSStatusLocked && !searchHidden
  if catalogName = name ∧ locked = false ∧ temporary.hasCreated = true then
    return .inr (some (temporary, lba))
  else if temporary.NextSibling < part.StartCatalog then return .inr none
  else return .inl temporary.NextSibling

/-- What `FindCatalog` reads before its search: the MIME text set in the mounted drive, and the superblock. -/
def findPart : Call Mount NfsSuperBlock := do
  Call.modify fun m => { m with mA := m.mA.withMime nefsMime }
  readRecordA NfsSuperBlock.codec kNeFSRootCatalogStartAddress

/-- `FindCatalog(catalog_name, out_lba, search_hidden, NO)`. -/
def findCatalog (fuel : Nat) (catalogName : Option CString) (outLba : Lba) (searchHidden : Bool) :
    Call Mount (Option NfsCatalogStruct × Lba) :=
  match catalogName with
  | none => pure (none, outLba)
  | some name =>
    if name.1 = [] then pure (none, outLba)
    else do
      let part ← findPart
      let found ← Call.rounds (findRound name searchHidden part) fuel kNeFSCatalogStartAddress
      return foundAt found

/-- The two searches of a local `FindCatalog`. -/
def findTwice (fuel : Nat) (name : CString) (searchHidden : Bool) (part : NfsSuperBlock) (start : Lba) :
    Call Mount (Option NfsCatalogStruct × Lba) := do
  match ← Call.rounds (findRound name searchHidden part) fuel start with
  | some found => return foundAt (some found)
  | none =>
    let found ← Call.rounds (findRound name searchHidden part) fuel part.StartCatalog
    return foundAt found

/-- `FindCatalog(catalog_name, out_lba, search_hidden, YES)`. -/
def findCatalogLocal (fuel : Nat) (catalogName : Option CString) (outLba : Lba) (searchHidden : Bool) :
    Call Mount (Option NfsCatalogStruct × Lba) :=
  match catalogName with
  | none => pure (none, outLba)
  | some name =>
    if name.1 = [] then pure (none, outLba)
    else do
      let part ← findPart
      if name = kNeFSRoot then findTwice fuel name searchHidden part kNeFSCatalogStartAddress
      else
        let parent ← Call.lift (parentName name)
        match ← findCatalog fuel (some parent) outLba true with
        | (none, outLba) => return (none, outLba)
        | (some parentCatalog, _) => findTwice fuel name searchHidden part parentCatalog.NextSibling

/-- `GetCatalog`. -/
def getCatalog (fuel : Nat) (name : Option CString) : Call Mount (Option NfsCatalogStruct) := do
  let (catalog, _) ← findCatalog fuel name 0 true
  return catalog

/-! ### `CreateCatalog` -/

/-- The writes of `CreateCatalog`. -/
def allocateCatalog (part : NfsSuperBlock) (temporary child : NfsCatalogStruct) (startFree : Lba)
    (drive : DriveTrait) : Call Mount Unit := do
  let drive ← writeRecord NfsCatalogStruct.codec startFree temporary drive
  let drive ← writeRecord NfsCatalogStruct.codec startFree (child.placedAt part startFree) drive
  let (part, drive) ← readRecord NfsSuperBlock.codec kNeFSRootCatalogStartAddress drive
  ioDrvOutput drive.fPacket (NfsSuperBlock.codec.enc part.catalogCreated)

/-- One round of the loop in `CreateCatalog`. -/
def createRound (name : CString) (part : NfsSuperBlock) (child : NfsCatalogStruct)
    (s : Lba × NfsCatalogStruct × DriveTrait) :
    Call Mount (Lba × NfsCatalogStruct × DriveTrait ⊕ Option NfsCatalogStruct) :=
  let (startFree, temporary, drive) := s
  if startFree < part.StartCatalog then pure (.inr none)
  else if temporary.hasCreated = false then do
    allocateCatalog part temporary child startFree drive
    return .inr (some temporary)
  else do
    let temporaryName ← Call.lift temporary.nameString
    if temporaryName = name then return .inr (some temporary)
    else
      let (next, drive) ← readRecord NfsCatalogStruct.codec (startFree + catalogStride) drive
      return .inl (startFree + catalogStride, next, drive)

/-- `CreateCatalog` once the search for a free slot starts at `outLba`. -/
def createCatalogFrom (fuel : Nat) (name : CString) (flags kind : Int32) (outLba : Lba) (drive : DriveTrait) :
    Call Mount (Option NfsCatalogStruct) := do
  let drive := drive.withMime nefsMime
  let (part, drive) ← readRecord NfsSuperBlock.codec kNeFSRootCatalogStartAddress drive
  let (temporary, drive) ← readRecord NfsCatalogStruct.codec outLba drive
  if part.FreeCatalog < 1 then return none
  else
    Call.rounds (createRound name part (childCatalog name flags kind outLba)) fuel (outLba, temporary, drive)

/-- `CreateCatalog` behind the checks of the last character. -/
def createCatalogChecked (fuel : Nat) (name : CString) (flags kind : Int32) :
    Call Mount (Option NfsCatalogStruct) := do
  let (existing, outLba) ← findCatalog fuel (some name) 0 true
  if existing.isSome then return none
  else
    let parent ← Call.lift (parentName name)
    let (catalog, outLba) ← findCatalog fuel (some parent) outLba true
    let drive ← copyA
    match catalog with
    | some catalog =>
      if catalog.Kind = kNeFSCatalogKindFile then return none
      else createCatalogFrom fuel name flags kind outLba drive
    | none =>
      let (part, drive) ← readRecord NfsSuperBlock.codec kNeFSRootCatalogStartAddress drive
      createCatalogFrom fuel name flags kind part.StartCatalog drive

/-- `CreateCatalog`. -/
def createCatalog (fuel : Nat) (catalogName : Option CString) (flags kind : Int32) :
    Call Mount (Option NfsCatalogStruct) :=
  match catalogName with
  | none => Call.stop .fault
  | some name =>
    match name.1.getLast? with
    | none => Call.stop .fault
    | some last =>
      if kind = kNeFSCatalogKindDir ∧ last ≠ kNeFSSeparator then pure none
      else if kind ≠ kNeFSCatalogKindDir ∧ last = kNeFSSeparator then pure none
      else createCatalogChecked fuel name flags kind

/-! ### `RemoveCatalog` -/

/-- The writes of `RemoveCatalog`. -/
def releaseCatalog (catalog : NfsCatalogStruct) (lba : Lba) : Call Mount Unit := do
  let drive ← copyA
  let drive := drive.withMime nefsMime
  let drive ← writeRecord NfsCatalogStruct.codec lba catalog.removed drive
  let (part, drive) ← readRecord NfsSuperBlock.codec kNeFSRootCatalogStartAddress drive
  ioDrvOutput drive.fPacket (NfsSuperBlock.codec.enc part.catalogRemoved)

/-- `RemoveCatalog`. -/
def removeCatalog (fuel : Nat) (catalogName : Option CString) : Call Mount Bool :=
  match catalogName with
  | none => pure false
  | some name =>
    if name = kNeFSRoot then pure false
    else do
      match ← findCatalog fuel (some name) 0 true with
      | (none, _) => Call.stop .fault
      | (some catalog, outLba) =>
        if kNeFSCatalogStartAddress ≤ outLba ∨ catalog.hasCreated = true then
          releaseCatalog catalog outLba
          return true
        else return false

/-! ### Forks -/

/-- One round of the loop in `CreateFork`, on the copy of the drive and the scan. -/
def createForkRound (fork : NfsForkStruct) (s : DriveTrait × ForkScan) :
    Call Mount (DriveTrait × ForkScan ⊕ DriveTrait × ForkScan) :=
  let (drv, scan) := s
  if drv.fPacket.fPacketGood = false then pure (.inr (drv, scan))
  else do
    let (cur, drv) ← readRecord NfsForkStruct.codec scan.lba drv
    if cur.hasCreated = true then
      let named ← Call.lift (cur.isNamed fork.nameString fork.catalogString)
      if named = true then return .inr (drv, scan)
      else return .inl (drv, ⟨cur.NextSibling, scan.lba, cur⟩)
    else if kNeFSCatalogStartAddress ≤ scan.lba then
      let drv ← writeRecord NfsForkStruct.codec scan.lbaPrev { scan.prevFork with NextSibling := scan.lba } drv
      return .inr (drv, scan)
    else return .inr (drv, scan)

/-- `MUST_TRY` on a condition that fails. -/
def mustTryFailed (debug : Bool) (fork : NfsForkStruct) : Call Mount (NfsForkStruct × Bool) :=
  if debug = true then Call.stop .panic else pure (fork, false)

/-- `CreateFork`. -/
def createFork (debug : Bool) (fuel : Nat) (stale fork : NfsForkStruct) : Call Mount (NfsForkStruct × Bool) :=
  if fork.ForkName.1.head? ≠ some 0 ∧ fork.CatalogName.1.head? ≠ some 0 ∧ 0 < fork.DataSize then do
    let catalogName ← Call.lift fork.catalogString
    match ← getCatalog fuel (some catalogName) with
    | none => mustTryFailed debug fork
    | some catalog =>
      if catalog.DataFork < kNeFSCatalogStartAddress then
        let drv ← copyA
        let (drv, scan) ← Call.rounds (createForkRound fork) fuel
          (drv, ⟨catalog.DataFork, catalog.DataFork, stale⟩)
        let fork := fork.placedAt scan.lba scan.lbaPrev
        let drv := drv.withPacket scan.lba forkSize
        let _ ← fsIfsWrite (NfsForkStruct.codec.enc fork) drv
        return (fork, true)
      else mustTryFailed debug fork
  else pure (fork, false)

/-- One round of the loop in `WriteCatalog`. -/
def writeRound (catalogName : CString) (data : List UInt8) (forkName : Option CString)
    (s : DriveTrait × Lba) : Call Mount (DriveTrait × Lba ⊕ Bool) :=
  let (drive, startFork) := s
  if startFork < kNeFSCatalogStartAddress then pure (.inr false)
  else do
    let (fork, drive) ← readRecord NfsForkStruct.codec startFork drive
    let wanted ← Call.lift (fork.isWanted (deref forkName) (.ok catalogName))
    if wanted = true ∧ fork.DataSize.toNat = data.length then
      let drive := drive.withPacket fork.DataOffset data.length
      ioDrvOutput drive.fPacket data
      return .inr true
    else return .inl (drive, fork.NextSibling)

/-- `WriteCatalog` of the bytes `data`. -/
def writeCatalog (fuel : Nat) (catalogName : Option CString) (isRsrcFork : Bool) (data : List UInt8)
    (forkName : Option CString) : Call Mount Bool :=
  if data.length < 1 then pure false
  else do
    let drive ← copyA
    let drive := drive.withMime nefsMime
    match ← getCatalog fuel catalogName with
    | none => return false
    | some catalog =>
      let startFork := if isRsrcFork then catalog.ResourceFork else catalog.DataFork
      let name ← Call.lift (deref catalogName)
      Call.rounds (writeRound name data forkName) fuel (drive, startFork)

/-- One round of the loop in `ReadCatalog`. -/
def readRound (catalog : NfsCatalogStruct) (forkName : Option CString)
    (s : DriveTrait × Lba × Option NfsForkStruct) :
    Call Mount (DriveTrait × Lba × Option NfsForkStruct ⊕ Lba × Option NfsForkStruct) :=
  let (drive, lba, last) := s
  if lba ≤ kNeFSCatalogStartAddress then pure (.inr (lba, last))
  else do
    let (fork, drive) ← readRecord NfsForkStruct.codec lba drive
    let named ← Call.lift (fork.isNamed (deref forkName) catalog.nameString)
    if named = true then return .inr (lba, some fork)
    else return .inl (drive, fork.NextSibling, some fork)

/-- `ReadCatalog`. -/
def readCatalog (fuel : Nat) (catalog : Option NfsCatalogStruct) (isRsrcFork : Bool)
    (forkName : Option CString) : Call Mount (Option (List UInt8)) :=
  match catalog with
  | none => pure none
  | some catalog => do
    let drive ← copyA
    let drive := drive.withMime nefsMime
    let dataForkLba := if isRsrcFork then catalog.ResourceFork else catalog.DataFork
    let (lba, fork) ← Call.rounds (readRound catalog forkName) fuel (drive, dataForkLba, none)
    if lba < kNeFSCatalogStartAddress then return none
    else return fork.map NfsForkStruct.codec.enc

end Mount

/-! ### Sequences of calls -/

/-- A call of the file system with its arguments. -/
inductive NefsCall where
  | findCatalog (name : Option CString) (outLba : Lba) (searchHidden localSearch : Bool)
  | createCatalog (name : Option CString) (flags kind : Int32)
  | removeCatalog (name : Option CString)
  | createFork (stale fork : NfsForkStruct)
  | writeCatalog (name : Option CString) (isRsrcFork : Bool) (data : List UInt8) (forkName : Option CString)
  | readCatalog (catalog : Option NfsCatalogStruct) (isRsrcFork : Bool) (forkName : Option CString)

/-- The call made, with a step budget; what it returns is left to the caller. -/
def NefsCall.run (debug : Bool) (fuel : Nat) : NefsCall → Call Mount Unit
  | .findCatalog name outLba searchHidden localSearch => do
    let _ ← if localSearch then Mount.findCatalogLocal fuel name outLba searchHidden
      else Mount.findCatalog fuel name outLba searchHidden
  | .createCatalog name flags kind => do let _ ← Mount.createCatalog fuel name flags kind
  | .removeCatalog name => do let _ ← Mount.removeCatalog fuel name
  | .createFork stale fork => do let _ ← Mount.createFork debug fuel stale fork
  | .writeCatalog name isRsrcFork data forkName => do
    let _ ← Mount.writeCatalog fuel name isRsrcFork data forkName
  | .readCatalog catalog isRsrcFork forkName => do let _ ← Mount.readCatalog fuel catalog isRsrcFork forkName

/-- The calls, each with its budget, up to the first that stops. -/
def NefsCall.runAll (debug : Bool) (ops : List (Nat × NefsCall)) : Call Mount Unit :=
  Call.all (fun op => op.2.run debug op.1) ops

end OpenNE

import OpenNE.NeFS.BootFormat

/-!
# `NeFileSystemParser::Format` (`src/FS/OpenNeFS.cc`, built with `OPENNE_EPM_SUPPORT`)

With the boot flag `Format` first walks the EPM blocks from the start of the disk and fills in the first free
one. Then it looks for a free superblock, `DiskSize` further on each round; the one it has found is filled in
and written to `kNeFSRootCatalogStartAddress`, and the root catalog is created. The block at that address was
read before the walk.
-/

namespace OpenNE

/-! ### The blocks it writes -/

/-- A block that belongs to no partition. -/
def NfsSuperBlock.isFree (behind : UInt8) (part : NfsSuperBlock) : Bool :=
  part.PartitionName.1.head? == some 0 &&
    rtStringCmp part.Ident.1 (identChars behind).1 kNeFSIdentLen != 0

/-- The name copied over the field, the zero of the copied `Ident` at its front. -/
def namedField (partName : CString) (old : Bytes kPartLen) (h : partName.length < kPartLen) : Bytes kPartLen :=
  ⟨rtCopyMemory partName.1 (old.1.set 0 0) partName.length, by
    have hlen : partName.1.length < kPartLen := h
    simp [rtCopyMemory, CString.length, old.2]
    omega⟩

/-- The name copied to its field, and where it is longer over the fields behind. -/
def NfsSuperBlock.named (partName : CString) (part : NfsSuperBlock) : NfsSuperBlock :=
  if h : partName.length < kPartLen then { part with PartitionName := namedField partName part.PartitionName h }
  else
    let image := codec.enc part
    codec.dec (image.take kNeFSIdentLen ++ rtCopyMemory partName.1 (image.drop kNeFSIdentLen) partName.length)

/-- The copy of the name, the zero behind it included, ends in the buffer of the block. -/
def NameFits (partName : CString) : Prop := kNeFSIdentLen + partName.length < superBlockSize

instance (partName : CString) : Decidable (NameFits partName) := inferInstanceAs (Decidable (_ < _))

/-- The identifier and the name copied into the free block. -/
def NfsSuperBlock.copied (behind : UInt8) (partName : CString) (part : NfsSuperBlock) : NfsSuperBlock :=
  named partName { part with Version := kNeFSVersionInteger, Ident := identChars behind }

/-- The free block filled in. What neither the name nor an assignment goes over stays what it was. -/
def NfsSuperBlock.formatted (behind : UInt8) (partName : CString) (sectorCount diskSize : UInt64)
    (part : NfsSuperBlock) : NfsSuperBlock :=
  { part.copied behind partName with
    Kind := kNeFSPartitionTypeStandard
    StartCatalog := kNeFSCatalogStartAddress
    Flags := kNeFSPartitionTypeStandard
    CatalogCount := sectorCount / UInt64.ofNat catalogSize
    SectorCount := sectorCount
    DiskSize := diskSize
    FreeCatalog := sectorCount / UInt64.ofNat catalogSize }

/-- The name of a new entry: `"ZkaOS:"`, its first character overwritten by the zero behind the magic. -/
def epmName : Bytes 32 := ⟨0 :: [107, 97, 79, 83, 58] ++ List.replicate 26 0, rfl⟩

/-- How far the walk has come: the block, where the entry before it ends, and the number of entries. -/
structure EpmScan where
  outEpmLba : Lba
  prevStart : Lba
  cnt : UInt64

/-- The entry put into a free block. -/
def EpmScan.entry (endLba : Lba) (scan : EpmScan) : EpmPartBlock :=
  { EpmPartBlock.zero with
    Magic := epmMagic
    Name := epmName
    Fs := kFsName.field 16
    FsVersion := kNeFSVersionInteger.toUInt32.toInt32
    SectorSz := Int64.ofNat kNeFSSectorSz
    LbaStart := if scan.prevStart = 0 then 0 else scan.outEpmLba.toInt64
    LbaEnd := endLba.toInt64
    NumBlocks := scan.cnt.toInt64 }

/-- Past an entry. -/
def EpmScan.next (block : EpmPartBlock) (scan : EpmScan) : EpmScan where
  outEpmLba := scan.outEpmLba + UInt64.ofNat EpmPartBlock.codec.size
  prevStart := (block.LbaStart + block.LbaEnd).toUInt64
  cnt := scan.cnt + 1

/-! ### `Format` -/

/-- What the disk says of itself: `drv_get_sector_count` and `drv_get_size`. -/
structure DiskGeometry where
  sectorCount : UInt64
  diskSize : UInt64

/-- A disk of 4 GiB. -/
def smallGeometry : DiskGeometry := ⟨8388608, 4294967296⟩

/-- A call of `Format`. -/
structure FormatCall where
  drive : DriveTrait
  endLba : Lba
  flags : Int32
  partName : CString

namespace Mount

/-- One round of the walk. -/
def epmRound (endLba : Lba) (s : DriveTrait × EpmScan) : Call Mount (DriveTrait × EpmScan ⊕ DriveTrait) :=
  let (drive, scan) := s
  if drive.fPacket.fPacketGood = false then pure (.inr drive)
  else do
    let (block, drive) ← readRecord EpmPartBlock.codec scan.outEpmLba drive
    if block.Magic.1.head? = some 0 then
      let drive ← writeRecord EpmPartBlock.codec scan.outEpmLba (scan.entry endLba) drive
      return .inr drive
    else return .inl (drive, scan.next block)

/-- The walk, made for a bootable partition only. -/
def epmPhase (fuel : Nat) (call : FormatCall) (drive : DriveTrait) : Call Mount DriveTrait :=
  if call.flags &&& kNeFSPartitionTypeBoot ≠ 0 then
    Call.rounds (epmRound call.endLba) fuel (drive, ⟨kEPMBootBlockLba, 0, 0⟩)
  else pure drive

/-- One round of the search for a free superblock. -/
def formatRound (fuel : Nat) (behind : UInt8) (geometry : DiskGeometry) (partName : CString)
    (s : DriveTrait × Lba × NfsSuperBlock) :
    Call Mount (DriveTrait × Lba × NfsSuperBlock ⊕ Bool × DriveTrait) :=
  let (drive, start, part) := s
  if drive.fPacket.fPacketGood = false then pure (.inr (false, drive))
  else if part.isFree behind = true then
    if NameFits partName then do
      let part := part.formatted behind partName geometry.sectorCount geometry.diskSize
      let drive ← writeRecord NfsSuperBlock.codec kNeFSRootCatalogStartAddress part drive
      let _ ← createCatalog fuel (some kNeFSRoot) 0 kNeFSCatalogKindDir
      return .inr (true, drive)
    -- the name is copied past `fs_buf`
    else Call.stop .fault
  else do
    let start := start + part.DiskSize
    let (part, drive) ← readRecord NfsSuperBlock.codec start drive
    return .inl (drive, start, part)

/-- `Format`, with the drive it leaves behind `drive`. -/
def format (fuel : Nat) (behind : UInt8) (geometry : DiskGeometry) (call : FormatCall) :
    Call Mount (Bool × DriveTrait) :=
  let drive := call.drive
  if call.partName.1 = [] ∨ call.endLba = 0 then pure (false, drive)
  else do
    let drive := drive.withMime nefsMime
    if drive.fPacket.fPacketGood = false then return (false, drive)
    else
      let (part, drive) ← readRecord NfsSuperBlock.codec kNeFSRootCatalogStartAddress drive
      let drive ← epmPhase fuel call drive
      Call.rounds (formatRound fuel behind geometry call.partName) fuel (drive, kNeFSRootCatalogStartAddress, part)

end Mount

end OpenNE

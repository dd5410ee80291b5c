import OpenNE.NeFS.Packet

/-!
# The boot loader's formatter (`BootKit/BootKit.h`)

`BDiskFormatFactory::Format` fills in a superblock, and an EPM block at the start of the disk when the boot
loader is built with `BOOTZ_EPM_SUPPORT`; `IsPartitionValid` is the check made of it at the next boot. `CopyMem`
counts words of 32 bits, so that every string is copied with what stands behind it, over what stands behind its field.
-/

namespace OpenNE

/-- `"   OFS"`. -/
def kNeFSIdent : CString := ⟨[32, 32, 32, 79, 70, 83], by decide⟩

/-- The bytes `kNeFSIdent[0]`, …, `kNeFSIdent[kNeFSIdentLen - 1]`: the characters, their zero, and the byte
that stands behind the literal. -/
def identChars (behind : UInt8) : Bytes kNeFSIdentLen := ⟨kNeFSIdent.1 ++ [0, behind], rfl⟩

/-- `gib_cast(4)`. -/
def kNeFSMinimumDiskSize : UInt64 := 4 * 1024 * 1024 * 1024

def kNeFSPartitionTypeStandard : Int32 := 7
def kNeFSPartitionTypeBoot : Int32 := 9

def kNeFSHardDrive : Int32 := 0xC0

def kNeFSSectorSz : Nat := 512

def kNeFSVersionInteger : UInt64 := 0x0100

def kEPMZkaOS : UInt16 := 0x1f

/-- `new BOOT_BLOCK_STRUCT()`. -/
def EpmPartBlock.zero : EpmPartBlock := ⟨.zeros _, .zeros _, 0, 0, 0, 0, 0, 0, 0, .zeros _, .zeros _⟩

/-- `"NeFS"`. -/
def kFsName : CString := ⟨[78, 101, 70, 83], by decide⟩

/-- The bytes from the start of a string on, where `behind` is what stands behind its zero. -/
def CString.onwards (s : CString) (behind : Store) : Store := fun i =>
  if i ≤ s.length then s.1.getD i 0 else behind (i - s.length - 1)

/-- What stands behind the strings that the formatter copies. -/
structure BootStrings where
  kNeFSIdent : Store
  partName : Store
  kFsName : Store
  kEPMMagic : Store

/-- Zeros behind every string. -/
def BootStrings.zero : BootStrings := ⟨fun _ => 0, fun _ => 0, fun _ => 0, fun _ => 0⟩

/-- The disk of the formatter and what its device says of it. -/
structure BootDev where
  disk : Store
  sectorsCount : UInt64
  diskSize : UInt64

namespace BDiskFormatFactory

/-- `BootDev::kSectorSize`. -/
def kSectorSize : Nat := 512

/-- The block behind the copies of the identifier and of the name. -/
def copied (behind : BootStrings) (partName : CString) : Store :=
  let part : Store := fun _ => 0
  let part := part.write 0 ((kNeFSIdent.onwards behind.kNeFSIdent).read 0 (4 * (kNeFSIdentLen - 1)))
  part.write kNeFSIdentLen ((partName.onwards behind.partName).read 0 (4 * partName.length))

/-- The superblock of `Format`. -/
def superBlock (behind : BootStrings) (dev : BootDev) (partName : CString) (blobCnt : UInt64) : NfsSuperBlock :=
  { (copied behind partName).get NfsSuperBlock.codec 0 with
    Version := kNeFSVersionInteger
    CatalogCount := blobCnt
    Kind := kNeFSHardDrive
    SectorSize := 512
    FreeCatalog := dev.sectorsCount / UInt64.ofNat catalogSize
    SectorCount := dev.sectorsCount
    FreeSectors := dev.sectorsCount
    StartCatalog := kNeFSCatalogStartAddress
    DiskSize := dev.diskSize
    Flags := kNeFSPartitionTypeBoot ||| kNeFSPartitionTypeStandard }

/-- The name of the entry. The copy of the magic is 20 bytes long and goes over the one of `"OS"`. -/
def epmName (behind : Store) : Bytes 32 := ⟨0 :: behind.read 0 14 ++ List.replicate 17 0, by simp⟩

/-- The EPM block of `Format`. -/
def epmBoot (behind : BootStrings) (dev : BootDev) (part : NfsSuperBlock) : EpmPartBlock :=
  { EpmPartBlock.zero with
    Fs := ⟨(kFsName.onwards behind.kFsName).read 0 16, Store.read_length ..⟩
    FsVersion := kNeFSVersionInteger.toUInt32.toInt32
    LbaStart := kNeFSRootCatalogStartAddress.toInt64
    LbaEnd := dev.diskSize.toInt64
    SectorSz := part.SectorSize.toInt64
    Kind := kEPMZkaOS
    NumBlocks := part.CatalogCount.toInt64
    Name := epmName behind.kEPMMagic
    Magic := epmMagic }

/-- `Format`, where `blobs` says that `blob_list` is not null. -/
def format (behind : BootStrings) (epmSupport : Bool) (dev : BootDev) (partName : CString) (blobs : Bool)
    (blobCnt : UInt64) :
    Exec (BootDev × Bool) :=
  if blobs = false ∨ blobCnt = 0 then .ok (dev, false)
  -- EFI::ThrowError
  else if dev.diskSize < kNeFSMinimumDiskSize then .error .panic
  -- the copy of the name runs over the block
  else if superBlockSize < kNeFSIdentLen + 4 * partName.length then .error .fault
  else
    let part := superBlock behind dev partName blobCnt
    let disk := dev.disk.put NfsSuperBlock.codec kNeFSRootCatalogStartAddress.toNat part
    let disk := if epmSupport then disk.put EpmPartBlock.codec kEPMBootBlockLba.toNat (epmBoot behind dev part)
      else disk
    .ok ({ dev with disk := disk }, true)

/-- `IsPartitionValid`, where `behind` stands behind the literal `kNeFSIdent` in the boot loader. -/
def isPartitionValid (behind : UInt8) (dev : BootDev) : Bool :=
  let blockPart := dev.disk.get NfsSuperBlock.codec kNeFSRootCatalogStartAddress.toNat
  if blockPart.Ident ≠ identChars behind then false
  else if blockPart.DiskSize ≠ dev.diskSize ∨ blockPart.DiskSize < 1 ∨
      blockPart.SectorSize ≠ UInt64.ofNat kSectorSize ∨ blockPart.Version ≠ kNeFSVersionInteger ∨
      blockPart.StartCatalog = 0 then false
  else if blockPart.PartitionName.1.head? = some 0 then false
  else true

section Format

variable {behind : BootStrings} {epmSupport : Bool} {dev dev' : BootDev} {partName : CString} {blobs : Bool}
  {blobCnt : UInt64}

theorem format_eq_true (h : format behind epmSupport dev partName blobs blobCnt = .ok (dev', true)) :
    kNeFSMinimumDiskSize ≤ dev.diskSize ∧ dev'.sectorsCount = dev.sectorsCount ∧ dev'.diskSize = dev.diskSize ∧
      dev'.disk.get NfsSuperBlock.codec kNeFSRootCatalogStartAddress.toNat = superBlock behind dev partName blobCnt ∧
      ∀ x, kNeFSRootCatalogStartAddress.toNat + superBlockSize ≤ x → dev'.disk x = dev.disk x := by
  unfold format at h
  by_cases hblobs : blobs = false ∨ blobCnt = 0
  · rw [if_pos hblobs] at h
    cases h
  rw [if_neg hblobs] at h
  by_cases hsize : dev.diskSize < kNeFSMinimumDiskSize
  · rw [if_pos hsize] at h
    cases h
  rw [if_neg hsize] at h
  by_cases hname : superBlockSize < kNeFSIdentLen + 4 * partName.length
  · rw [if_pos hname] at h
    cases h
  rw [if_neg hname] at h
  cases h
  refine ⟨UInt64.not_lt.mp hsize, rfl, rfl, ?_⟩
  -- the EPM block ends before the superblock
  have hbefore : kEPMBootBlockLba.toNat + EpmPartBlock.codec.size ≤ kNeFSRootCatalogStartAddress.toNat := by decide
  cases epmSupport with
  | false => exact ⟨Store.get_put_same, fun x hx => Store.put_apply_outside (.inr hx)⟩
  | true =>
    refine ⟨(Store.get_put_disjoint (.inr hbefore)).trans Store.get_put_same, ?_⟩
    intro x hx
    have hbehind : kEPMBootBlockLba.toNat + EpmPartBlock.codec.size ≤ x :=
      hbefore.trans (by omega)
    exact (Store.put_apply_outside (.inr hbehind)).trans (Store.put_apply_outside (.inr hx))

end Format

end BDiskFormatFactory

end OpenNE

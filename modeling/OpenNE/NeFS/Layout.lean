import OpenNE.Base.Codec
import OpenNE.Base.CString
import OpenNE.Base.Exec
import Mathlib.Data.List.TakeWhile

/-!
# NeFS records and the drive (`FSKit/OpenNeFS.h`, `KernelKit/DriveMgr.h`)

The three packed records of the file system, and the mounted drive as a byte store with the two packet
flags that input and output look at. Kernel memory behind the packet buffers is not part of the model.
-/

namespace OpenNE

/-- An address on the drive. -/
abbrev Lba := UInt64

def kNeFSNodeNameLen : Nat := 256
def kNeFSMimeNameLen : Nat := 200
def kNeFSForkNameLen : Nat := 200
def kNeFSIdentLen : Nat := 8
def kPartLen : Nat := 32
def kNeFSPadLen : Nat := 392

def kNeFSCatalogKindFile : Int32 := 1
def kNeFSCatalogKindDir : Int32 := 2

def kNeFSStatusLocked : UInt16 := 0x19

/-- The code of `/`. -/
def kNeFSSeparator : UInt8 := 47

/-- `kNeFSRoot`. -/
def kNeFSRoot : CString := ⟨[kNeFSSeparator], by decide⟩

def kNeFSRootCatalogStartAddress : Lba := 1024

/-! ### Records -/

structure NfsCatalogStruct where
  Name : Bytes kNeFSNodeNameLen
  Mime : Bytes kNeFSMimeNameLen
  Flags : UInt16
  Status : UInt16
  CatalogFlags : UInt16
  Kind : Int32
  DataForkSize : Lba
  ResourceForkSize : Lba
  DataFork : Lba
  ResourceFork : Lba
  NextSibling : Lba
  PrevSibling : Lba

structure NfsForkStruct where
  ForkName : Bytes kNeFSForkNameLen
  CatalogName : Bytes kNeFSNodeNameLen
  Flags : Int32
  Kind : Int32
  ResourceId : Int64
  ResourceKind : Int32
  ResourceFlags : Int32
  DataOffset : Lba
  DataSize : UInt64
  NextSibling : Lba
  PreviousSibling : Lba
  Pad : Bytes 2

structure NfsSuperBlock where
  Ident : Bytes kNeFSIdentLen
  PartitionName : Bytes kPartLen
  Flags : Int32
  Kind : Int32
  StartCatalog : Lba
  CatalogCount : UInt64
  DiskSize : UInt64
  FreeCatalog : UInt64
  FreeSectors : UInt64
  SectorCount : UInt64
  SectorSize : UInt64
  Version : UInt64
  EpmBlock : Lba
  Pad : Bytes kNeFSPadLen

/-- The packed image. -/
def NfsCatalogStruct.codec : Codec NfsCatalogStruct :=
  ((Codec.bytes kNeFSNodeNameLen).pair <| (Codec.bytes kNeFSMimeNameLen).pair <| Codec.u16.pair <|
      Codec.u16.pair <| Codec.u16.pair <| Codec.i32.pair <| Codec.u64.pair <| Codec.u64.pair <|
      Codec.u64.pair <| Codec.u64.pair <| Codec.u64.pair Codec.u64).map
    (fun ⟨name, mime, flags, status, cflags, kind, dsz, rsz, data, rsrc, next, prev⟩ =>
      ⟨name, mime, flags, status, cflags, kind, dsz, rsz, data, rsrc, next, prev⟩)
    (fun c => (c.Name, c.Mime, c.Flags, c.Status, c.CatalogFlags, c.Kind, c.DataForkSize,
      c.ResourceForkSize, c.DataFork, c.ResourceFork, c.NextSibling, c.PrevSibling))
    (fun _ => rfl) (fun _ => rfl)

/-- The packed image. -/
def NfsForkStruct.codec : Codec NfsForkStruct :=
  ((Codec.bytes kNeFSForkNameLen).pair <| (Codec.bytes kNeFSNodeNameLen).pair <| Codec.i32.pair <|
      Codec.i32.pair <| Codec.i64.pair <| Codec.i32.pair <| Codec.i32.pair <| Codec.u64.pair <|
      Codec.u64.pair <| Codec.u64.pair <| Codec.u64.pair (Codec.bytes 2)).map
    (fun ⟨name, cname, flags, kind, rid, rkind, rflags, off, size, next, prev, pad⟩ =>
      ⟨name, cname, flags, kind, rid, rkind, rflags, off, size, next, prev, pad⟩)
    (fun f => (f.ForkName, f.CatalogName, f.Flags, f.Kind, f.ResourceId, f.ResourceKind,
      f.ResourceFlags, f.DataOffset, f.DataSize, f.NextSibling, f.PreviousSibling, f.Pad))
    (fun _ => rfl) (fun _ => rfl)

/-- The packed image. -/
def NfsSuperBlock.codec : Codec NfsSuperBlock :=
  ((Codec.bytes kNeFSIdentLen).pair <| (Codec.bytes kPartLen).pair <| Codec.i32.pair <|
      Codec.i32.pair <| Codec.u64.pair <| Codec.u64.pair <| Codec.u64.pair <| Codec.u64.pair <|
      Codec.u64.pair <| Codec.u64.pair <| Codec.u64.pair <| Codec.u64.pair <|
      Codec.u64.pair (Codec.bytes kNeFSPadLen)).map
    (fun ⟨ident, pname, flags, kind, start, count, disk, free, fsect, sects, ssize, version, epm, pad⟩ =>
      ⟨ident, pname, flags, kind, start, count, disk, free, fsect, sects, ssize, version, epm, pad⟩)
    (fun b => (b.Ident, b.PartitionName, b.Flags, b.Kind, b.StartCatalog, b.CatalogCount, b.DiskSize,
      b.FreeCatalog, b.FreeSectors, b.SectorCount, b.SectorSize, b.Version, b.EpmBlock, b.Pad))
    (fun _ => rfl) (fun _ => rfl)

/-- `sizeof(NFS_CATALOG_STRUCT)`. -/
def catalogSize : Nat := 514

/-- `sizeof(NFS_FORK_STRUCT)`. -/
def forkSize : Nat := 514

/-- `sizeof(NFS_SUPER_BLOCK)`. -/
def superBlockSize : Nat := 512

theorem catalog_codec_size : NfsCatalogStruct.codec.size = catalogSize := rfl

def kNeFSForkSize : Nat := forkSize

/-- `(2048) + sizeof(NFS_SUPER_BLOCK)`. -/
def kNeFSCatalogStartAddress : Lba := 2048 + UInt64.ofNat superBlockSize

/-- `sizeof(NFS_CATALOG_STRUCT) * kNeFSCatalogPadding`. -/
def catalogStride : Lba := UInt64.ofNat catalogSize * 4

/-! ### The bits of `Flags` -/

def kNeFSFlagDeleted : UInt16 := 70
def kNeFSFlagCreated : UInt16 := 71

/-- `Flags & kNeFSFlagCreated`. -/
def NfsCatalogStruct.hasCreated (c : NfsCatalogStruct) : Bool := c.Flags &&& kNeFSFlagCreated != 0

/-- `Flags & kNeFSFlagCreated`, of a fork. -/
def NfsForkStruct.hasCreated (f : NfsForkStruct) : Bool := f.Flags &&& kNeFSFlagCreated.toUInt32.toInt32 != 0

/-! ### Strings in records -/

/-- The string put into a field of `n` bytes, zeros after it. -/
def CString.field (n : Nat) (s : CString) : Bytes n := ⟨(s.1 ++ List.replicate n 0).take n, by simp⟩

/-- `catalog->Name` as a string. -/
def NfsCatalogStruct.nameString (c : NfsCatalogStruct) : Exec CString := cString (NfsCatalogStruct.codec.enc c)

/-- `fork->ForkName` as a string. -/
def NfsForkStruct.nameString (f : NfsForkStruct) : Exec CString := cString (NfsForkStruct.codec.enc f)

/-- `fork->CatalogName` as a string. -/
def NfsForkStruct.catalogString (f : NfsForkStruct) : Exec CString :=
  cString ((NfsForkStruct.codec.enc f).drop kNeFSForkNameLen)

theorem CString.field_eq {s : CString} {n : Nat} (h : s.length < n) :
    ∃ k, (s.field n).1 = s.1 ++ 0 :: List.replicate k 0 := by
  unfold CString.length at h
  refine ⟨n - s.1.length - 1, ?_⟩
  have hk : n - s.1.length = n - s.1.length - 1 + 1 := by omega
  show (s.1 ++ List.replicate n 0).take n = _
  rw [List.take_append, List.take_of_length_le (by omega), List.take_replicate,
    Nat.min_eq_left (by omega), hk, List.replicate_succ]
  simp

theorem NfsCatalogStruct.nameString_field {c : NfsCatalogStruct} {s : CString}
    (hs : s.length < kNeFSNodeNameLen) (hc : c.Name = s.field kNeFSNodeNameLen) : c.nameString = .ok s := by
  obtain ⟨k, hk⟩ := CString.field_eq hs
  show cString (c.Name.1 ++ _) = .ok s
  rw [hc, hk, List.append_assoc]
  exact cString_terminated

/-! ### Zeroed records -/

/-- `new NFS_CATALOG_STRUCT()`. -/
def NfsCatalogStruct.zero : NfsCatalogStruct := ⟨.zeros _, .zeros _, 0, 0, 0, 0, 0, 0, 0, 0, 0, 0⟩

def NfsForkStruct.zero : NfsForkStruct := ⟨.zeros _, .zeros _, 0, 0, 0, 0, 0, 0, 0, 0, 0, .zeros _⟩

def NfsSuperBlock.zero : NfsSuperBlock :=
  ⟨.zeros _, .zeros _, 0, 0, 0, 0, 0, 0, 0, 0, 0, 0, 0, .zeros _⟩

theorem NfsCatalogStruct.enc_zero : codec.enc zero = List.replicate catalogSize 0 := by
  show List.replicate 256 0 ++ (List.replicate 200 0 ++ (leBytes 2 0 ++ (leBytes 2 0 ++ (leBytes 2 0 ++
    (leBytes 4 0 ++ (leBytes 8 0 ++ (leBytes 8 0 ++ (leBytes 8 0 ++ (leBytes 8 0 ++ (leBytes 8 0 ++
    leBytes 8 0)))))))))) = _
  simp only [leBytes_zero, List.replicate_append_replicate]
  rfl

theorem NfsCatalogStruct.dec_zeros : codec.dec (List.replicate catalogSize 0) = zero := by
  rw [← enc_zero, Codec.dec_enc]

theorem NfsCatalogStruct.nameString_zero : zero.nameString = .ok ⟨[], by simp⟩ := by
  show cString (codec.enc zero) = _
  rw [enc_zero]
  exact @cString_terminated ⟨[], by simp⟩ (List.replicate 513 0)

theorem NfsCatalogStruct.hasCreated_zero : zero.hasCreated = false := by
  show (0 &&& kNeFSFlagCreated != 0) = false
  decide

theorem NfsSuperBlock.enc_zero : codec.enc zero = List.replicate superBlockSize 0 := by
  show List.replicate 8 0 ++ (List.replicate 32 0 ++ (leBytes 4 0 ++ (leBytes 4 0 ++ (leBytes 8 0 ++
    (leBytes 8 0 ++ (leBytes 8 0 ++ (leBytes 8 0 ++ (leBytes 8 0 ++ (leBytes 8 0 ++ (leBytes 8 0 ++
    (leBytes 8 0 ++ (leBytes 8 0 ++ List.replicate 392 0)))))))))))) = _
  simp only [leBytes_zero, List.replicate_append_replicate]
  rfl

theorem NfsSuperBlock.dec_zeros : codec.dec (List.replicate superBlockSize 0) = zero := by
  rw [← enc_zero, Codec.dec_enc]

/-! ### The drive -/

/-- The mounted drive: its bytes and the flags of its packet. -/
structure Drive where
  disk : Store
  fPacketGood : Bool
  fPacketReadOnly : Bool

namespace Drive

variable {α β : Type}

/-- A drive on which nothing but a superblock was written. -/
def blank (part : NfsSuperBlock) : Drive where
  disk := Store.put NfsSuperBlock.codec (fun _ => 0) kNeFSRootCatalogStartAddress.toNat part
  fPacketGood := true
  fPacketReadOnly := false

/-- `fInput` of a packet that holds one record. -/
def input (c : Codec α) (d : Drive) (lba : Lba) : α := d.disk.get c lba.toNat

/-- `fOutput` of a packet of bytes. -/
def outputBytes (d : Drive) (lba : Lba) (bs : List UInt8) : Drive :=
  if d.fPacketReadOnly then d else { d with disk := d.disk.write lba.toNat bs }

/-- `fOutput` of a packet that holds one record. -/
def output (c : Codec α) (d : Drive) (lba : Lba) (v : α) : Drive := d.outputBytes lba (c.enc v)

/-- The superblock as it is on the disk. -/
def superBlock (d : Drive) : NfsSuperBlock := d.input NfsSuperBlock.codec kNeFSRootCatalogStartAddress

/-- The catalog record at `lba`. -/
def catalogAt (d : Drive) (lba : Lba) : NfsCatalogStruct := d.input NfsCatalogStruct.codec lba

/-- The fork record at `lba`. -/
def forkAt (d : Drive) (lba : Lba) : NfsForkStruct := d.input NfsForkStruct.codec lba

variable {c : Codec α} {e : Codec β} {d : Drive} {lba lba' : Lba} {v : α}

theorem output_eq (h : d.fPacketReadOnly = false) :
    d.output c lba v = { d with disk := d.disk.put c lba.toNat v } := by
  simp [output, outputBytes, h, Store.put]

@[simp] theorem output_readOnly : (d.output c lba v).fPacketReadOnly = d.fPacketReadOnly := by
  unfold output outputBytes
  split <;> rfl

theorem input_output_same (h : d.fPacketReadOnly = false) : (d.output c lba v).input c lba = v := by
  rw [output_eq h]
  exact Store.get_put_same

theorem input_output_disjoint (h : lba'.toNat + e.size ≤ lba.toNat ∨ lba.toNat + c.size ≤ lba'.toNat) :
    (d.output c lba v).input e lba' = d.input e lba' := by
  by_cases hro : d.fPacketReadOnly
  · simp [output, outputBytes, hro]
  · rw [output_eq (by simpa using hro)]
    exact Store.get_put_disjoint h

theorem output_apply_outside {x : Nat} (h : x < lba.toNat ∨ lba.toNat + c.size ≤ x) :
    (d.output c lba v).disk x = d.disk x := by
  by_cases hro : d.fPacketReadOnly
  · simp [output, outputBytes, hro]
  · rw [output_eq (by simpa using hro)]
    exact Store.put_apply_outside h

theorem catalogAt_zeroed (h : ∀ x, lba.toNat ≤ x → d.disk x = 0) : d.catalogAt lba = NfsCatalogStruct.zero := by
  rw [catalogAt, input, Store.get_zeroed (fun x hx _ => h x hx)]
  exact NfsCatalogStruct.dec_zeros

end Drive

end OpenNE

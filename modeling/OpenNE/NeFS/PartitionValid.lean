import OpenNE.NeFS.Capacity
import OpenNE.NeFS.Partitions

/-!
# What the boot loader takes for a good partition

`IsPartitionValid` compares eight characters of the identifier, one more than the literal has, and wants a
`SectorSize` of 512. `BDiskFormatFactory::Format` copies words, so that its eighth character is the byte behind the
literal too, and `NeFileSystemParser::Format` writes no `SectorSize`.
-/

namespace OpenNE

open BDiskFormatFactory (isPartitionValid superBlock)

/-! ### The check -/

theorem isPartitionValid_iff {behind : UInt8} {dev : BootDev} : isPartitionValid behind dev = true ↔
    (rootBlock dev.disk).Ident = identChars behind ∧ (rootBlock dev.disk).DiskSize = dev.diskSize ∧
      1 ≤ (rootBlock dev.disk).DiskSize ∧ (rootBlock dev.disk).SectorSize = 512 ∧
      (rootBlock dev.disk).Version = kNeFSVersionInteger ∧ (rootBlock dev.disk).StartCatalog ≠ 0 ∧
      (rootBlock dev.disk).PartitionName.1.head? ≠ some 0 := by
  have hsector : UInt64.ofNat BDiskFormatFactory.kSectorSize = 512 := rfl
  unfold isPartitionValid
  simp only [hsector]
  constructor
  · intro h
    split_ifs at h with hident hfields hname
    simp only [not_or, not_not, UInt64.not_lt] at hident hfields
    obtain ⟨hsize, hone, hsectors, hversion, hstart⟩ := hfields
    exact ⟨hident, hsize, hone, hsectors, hversion, hstart, hname⟩
  · intro h
    obtain ⟨hident, hsize, hone, hsectors, hversion, hstart, hname⟩ := h
    have hfields : ¬((rootBlock dev.disk).DiskSize ≠ dev.diskSize ∨ (rootBlock dev.disk).DiskSize < 1 ∨
        (rootBlock dev.disk).SectorSize ≠ 512 ∨ (rootBlock dev.disk).Version ≠ kNeFSVersionInteger ∨
        (rootBlock dev.disk).StartCatalog = 0) := by
      simp only [not_or, not_not, UInt64.not_lt]
      exact ⟨hsize, hone, hsectors, hversion, hstart⟩
    rw [if_neg (not_not.mpr hident), if_neg hfields, if_neg hname]

theorem rootBlock_zeroed {disk : Store} (hzero : ∀ x, disk x = 0) : rootBlock disk = .zero :=
  (Store.get_zeroed fun x _ _ => hzero x).trans NfsSuperBlock.dec_zeros

/-! ### Disks that were just formatted -/

inductive Formatter where
  /-- `BDiskFormatFactory::Format` -/
  | boot
  /-- `NeFileSystemParser::Format` -/
  | kernel

/-- A disk just formatted under a name that fits: by the boot loader, or by the kernel on a zeroed disk. -/
inductive FreshDisk (strings : BootStrings) : Formatter → BootDev → Prop
  | boot {epmSupport : Bool} {dev dev' : BootDev} {partName : CString} {blobs : Bool} {blobCnt : UInt64}
      (hname : 1 ≤ partName.length ∧ partName.length ≤ kPartLen - 1)
      (h : BDiskFormatFactory.format strings epmSupport dev partName blobs blobCnt = .ok (dev', true)) :
      FreshDisk strings .boot dev'
  | kernel {behind : UInt8} {geometry : DiskGeometry} {call : FormatCall} {disk disk' : Store}
      (hname : 1 ≤ call.partName.length ∧ call.partName.length ≤ kPartLen - 1) (haccepted : call.Accepted)
      (hzero : ∀ x, disk x = 0) (h : Mount.LeavesDisk behind geometry call disk disk') :
      FreshDisk strings .kernel ⟨disk', geometry.sectorCount, geometry.diskSize⟩

section Boot

variable {strings : BootStrings} {dev dev' : BootDev} {partName : CString} {blobs : Bool} {blobCnt : UInt64}

theorem CString.onwards_zero {s : CString} {behind : Store} (h : 1 ≤ s.length) : s.onwards behind 0 ≠ 0 := by
  obtain ⟨bs, hbs⟩ := s
  cases bs with
  | nil => exact absurd h (Nat.not_succ_le_zero 0)
  | cons b bs =>
    intro hzero
    have hb : b = 0 := hzero
    exact hbs (hb ▸ List.mem_cons_self)

theorem ident_get (part : Store) (a : Nat) : (part.get NfsSuperBlock.codec a).Ident.1 = part.read a kNeFSIdentLen := by
  show ((part.get ((Codec.bytes kNeFSIdentLen).pair _) a).1).1 = _
  rw [Store.get_pair]
  show (part.read a kNeFSIdentLen ++ List.replicate kNeFSIdentLen 0).take kNeFSIdentLen = _
  exact List.take_left' (Store.read_length ..)

theorem name_get (part : Store) (a : Nat) :
    (part.get NfsSuperBlock.codec a).PartitionName.1.head? = some (part (a + kNeFSIdentLen)) := by
  show ((part.get ((Codec.bytes kNeFSIdentLen).pair ((Codec.bytes kPartLen).pair _)) a).2.1).1.head? = _
  rw [Store.get_pair, Store.get_pair]
  show ((Codec.bytes kPartLen).dec (part.read (a + kNeFSIdentLen) kPartLen)).1.head? = _
  simp [Codec.bytes, Store.read, kPartLen, List.range_succ_eq_map]

theorem superBlock_ident : (superBlock strings dev partName blobCnt).Ident = identChars (strings.kNeFSIdent 0) := by
  apply Subtype.ext
  show ((BDiskFormatFactory.copied strings partName).get NfsSuperBlock.codec 0).Ident.1 = _
  rw [ident_get]
  have hcopied : (BDiskFormatFactory.copied strings partName).read 0 kNeFSIdentLen =
      (kNeFSIdent.onwards strings.kNeFSIdent).read 0 kNeFSIdentLen := by
    apply Store.read_congr
    intro x _ hx
    rw [Nat.zero_add] at hx
    have hin : x < 4 * (kNeFSIdentLen - 1) := Nat.lt_of_lt_of_le hx (by decide)
    unfold BDiskFormatFactory.copied
    have hinside := @Store.write_read_inside (fun _ => 0) (kNeFSIdent.onwards strings.kNeFSIdent) 0 0 _ x hin
    rw [Nat.zero_add] at hinside
    rw [Store.write_apply_outside (.inl hx)]
    exact hinside
  rw [hcopied]
  rfl

theorem superBlock_name (hname : 1 ≤ partName.length) :
    (superBlock strings dev partName blobCnt).PartitionName.1.head? ≠ some 0 := by
  show ((BDiskFormatFactory.copied strings partName).get NfsSuperBlock.codec 0).PartitionName.1.head? ≠ _
  rw [name_get, Nat.zero_add]
  have hcopied : BDiskFormatFactory.copied strings partName kNeFSIdentLen = partName.onwards strings.partName 0 := by
    unfold BDiskFormatFactory.copied
    exact Store.write_read_inside (i := 0) (by omega)
  rw [hcopied]
  exact fun h => CString.onwards_zero hname (Option.some.inj h)

theorem boot_valid {epmSupport : Bool} (hname : 1 ≤ partName.length)
    (h : BDiskFormatFactory.format strings epmSupport dev partName blobs blobCnt = .ok (dev', true)) :
    isPartitionValid (strings.kNeFSIdent 0) dev' = true := by
  obtain ⟨hmin, -, hsize, hpart, -⟩ := BDiskFormatFactory.format_eq_true h
  have hroot : rootBlock dev'.disk = superBlock strings dev partName blobCnt := hpart
  have hone : (1 : UInt64) ≤ dev.diskSize := UInt64.le_trans (by decide) hmin
  rw [isPartitionValid_iff, hroot, hsize]
  exact ⟨superBlock_ident, rfl, hone, rfl, rfl, (by decide : kNeFSCatalogStartAddress ≠ 0), superBlock_name hname⟩

end Boot

theorem kernel_sectorSize {behind : UInt8} {geometry : DiskGeometry} {call : FormatCall} {disk disk' : Store}
    (hname : call.partName.length < kPartLen) (haccepted : call.Accepted) (hzero : ∀ x, disk x = 0)
    (h : Mount.LeavesDisk behind geometry call disk disk') : (rootBlock disk').SectorSize = 0 := by
  have hroot := rootBlock_zeroed hzero
  have hsearch : ∀ {disk₁ disk₂ : Store}, SearchLeaves behind geometry call.partName disk₁
      (kNeFSRootCatalogStartAddress, rootBlock disk) disk₂ → (rootBlock disk₂).SectorSize = 0 := by
    intro disk₁ disk₂ hleaves
    -- the first block is free
    have hfirst : FirstFree behind disk₁ (kNeFSRootCatalogStartAddress, rootBlock disk) 0 := by
      refine ⟨fun i hi => absurd hi (Nat.not_lt_zero i), ?_⟩
      show (rootBlock disk).isFree behind = true
      rw [hroot]
      exact NfsSuperBlock.isFree_zero behind
    cases hleaves with
    | written n hfree _ =>
      obtain rfl := hfirst.unique hfree
      rw [rootBlock_put]
      show ((rootBlock disk).copied behind call.partName).SectorSize = 0
      rw [hroot, NfsSuperBlock.copied, NfsSuperBlock.named, dif_pos hname]
      rfl
    | tooLong n hfree hlong =>
      refine absurd ?_ hlong
      have hbuffer : kNeFSIdentLen + kPartLen < superBlockSize := by decide
      unfold NameFits
      omega
    | endless hfull =>
      have hfree := hfirst.free
      rw [hfull 0] at hfree
      cases hfree
  by_cases hboot : call.bootable
  · have htable : EpmTable disk 0 := ⟨fun i hi => absurd hi (Nat.not_lt_zero i), hzero _, by decide⟩
    obtain ⟨disk₁, hleaves, hdisk⟩ := Mount.leaves_bootable behind geometry haccepted hboot htable
    rw [h.unique hdisk]
    exact hsearch hleaves
  · obtain ⟨disk₁, hleaves, hdisk⟩ := Mount.leaves_unbootable behind geometry haccepted hboot disk
    rw [h.unique hdisk]
    exact hsearch hleaves

theorem not_valid_of_sectorSize {behind : UInt8} {dev : BootDev} (h : (rootBlock dev.disk).SectorSize = 0) :
    isPartitionValid behind dev = false := by
  rw [Bool.eq_false_iff]
  intro hvalid
  obtain ⟨-, -, -, hsectors, -⟩ := isPartitionValid_iff.mp hvalid
  rw [h] at hsectors
  exact absurd hsectors (by decide)

/-- The boot loader takes a disk that was just formatted for good exactly when it has formatted it itself; a zeroed disk
it never does. -/
theorem fresh_valid_iff (strings : BootStrings) :
    (∀ formatter dev, FreshDisk strings formatter dev →
      (isPartitionValid (strings.kNeFSIdent 0) dev = true ↔ formatter = .boot)) ∧
    ∀ dev : BootDev, (∀ x, dev.disk x = 0) → isPartitionValid (strings.kNeFSIdent 0) dev = false := by
  refine ⟨?_, ?_⟩
  · intro formatter dev hfresh
    cases hfresh with
    | boot hname h => exact iff_of_true (boot_valid hname.1 h) rfl
    | kernel hname haccepted hzero h =>
      have hlen : kPartLen - 1 < kPartLen := by decide
      have hsectors := kernel_sectorSize (Nat.lt_of_le_of_lt hname.2 hlen) haccepted hzero h
      refine iff_of_false ?_ (fun h => by cases h)
      rw [Bool.not_eq_true]
      exact not_valid_of_sectorSize hsectors
  · intro dev hzero
    apply not_valid_of_sectorSize
    rw [rootBlock_zeroed hzero]
    rfl

/-- `Format("a")` of the boot loader on a zeroed disk of 4 GiB. -/
theorem fresh_valid_iff_boot : ∃ dev', FreshDisk .zero .boot dev' ∧
    (isPartitionValid (BootStrings.zero.kNeFSIdent 0) dev' = true ↔ Formatter.boot = .boot) ∧
    isPartitionValid (BootStrings.zero.kNeFSIdent 0) bootDev = false := by
  obtain ⟨dev', hformat⟩ : ∃ dev', BDiskFormatFactory.format .zero true bootDev letterA true 1 = .ok (dev', true) :=
    ⟨_, rfl⟩
  have hfresh : FreshDisk .zero .boot dev' := .boot (by decide) hformat
  obtain ⟨hdisks, hzeroed⟩ := fresh_valid_iff .zero
  exact ⟨dev', hfresh, hdisks .boot dev' hfresh, hzeroed bootDev fun _ => rfl⟩

/-- `Format("b")` of the kernel on a zeroed disk. -/
theorem kernel_disk_refused : ∃ disk', Mount.LeavesDisk 0 smallGeometry formatCall (fun _ => 0) disk' ∧
    FreshDisk .zero .kernel ⟨disk', smallGeometry.sectorCount, smallGeometry.diskSize⟩ ∧
    ∀ behind, isPartitionValid behind ⟨disk', smallGeometry.sectorCount, smallGeometry.diskSize⟩ = false := by
  have haccepted : formatCall.Accepted := ⟨by decide, by decide, ⟨rfl, rfl⟩⟩
  obtain ⟨disk', -, hdisk⟩ := Mount.leaves_unbootable 0 smallGeometry haccepted (by decide) fun _ => 0
  refine ⟨disk', hdisk, .kernel (by decide) haccepted (fun _ => rfl) hdisk, ?_⟩
  intro behind
  exact not_valid_of_sectorSize (kernel_sectorSize (by decide) haccepted (fun _ => rfl) hdisk)

end OpenNE

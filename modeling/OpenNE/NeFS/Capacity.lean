import OpenNE.NeFS.BootFormat
import OpenNE.NeFS.Removal

/-!
# The catalog zone and the first fork headers

`FreeCatalog` starts at one catalog for every `sizeof(NFS_CATALOG_STRUCT)` sectors and no removal refunds it,
so it bounds the slots that are ever handed out (`Chain.length_le`). On a disk of at least
`kNeFSMinimumDiskSize` those slots end before the middle, and the first fork headers, which go from the end of
the disk as the slots go from its start, stay in the upper half.
-/

namespace OpenNE

open BDiskFormatFactory (superBlock)

/-- A formatted disk of `s` sectors. -/
structure BootFormatted (s : Nat) (d : Drive) : Prop where
  writable : d.fPacketReadOnly = false
  zeroed : ∀ x, kNeFSCatalogStartAddress.toNat ≤ x → d.disk x = 0
  part : ∃ behind dev partName blobCnt, d.superBlock = superBlock behind dev partName blobCnt ∧
    dev.sectorsCount.toNat = s ∧ dev.diskSize.toNat = 512 * s

/-- The record at `lba` ends in the lower half of the disk, its first fork header stands in the upper half, and
`DataFork` is their distance from the end without underflow. -/
structure ZoneOk (s : Nat) (d : Drive) (lba : Lba) : Prop where
  lower : lba.toNat + catalogSize ≤ 512 * s / 2
  exact : (d.catalogAt lba).DataFork.toNat + lba.toNat = 512 * s
  upper : 512 * s / 2 ≤ (d.catalogAt lba).DataFork.toNat
  inside : (d.catalogAt lba).DataFork.toNat + forkSize ≤ 512 * s

/-- The calls of the zone: creations under a name whose parent can be cut out, removals of what exists. -/
def ZoneCall (made : List Entry) : CatalogOp → Prop
  | .create name _ _ => ValidName name
  | .remove name => ∃ m ∈ made, m.name = name

variable {s : Nat} {d : Drive}

theorem BootFormatted.formatted (h : BootFormatted s d) : Formatted d where
  writable := h.writable
  start := by
    obtain ⟨behind, dev, partName, blobCnt, hpart, -, -⟩ := h.part
    rw [hpart]
    rfl
  zeroed := h.zeroed

theorem BootFormatted.freeCatalog (h : BootFormatted s d) : d.superBlock.FreeCatalog.toNat = s / catalogSize := by
  obtain ⟨behind, dev, partName, blobCnt, hpart, hsectors, -⟩ := h.part
  rw [hpart]
  show (dev.sectorsCount / UInt64.ofNat catalogSize).toNat = _
  rw [UInt64.toNat_div, hsectors]
  rfl

theorem BootFormatted.diskSize (h : BootFormatted s d) : d.superBlock.DiskSize.toNat = 512 * s := by
  obtain ⟨behind, dev, partName, blobCnt, hpart, -, hsize⟩ := h.part
  rw [hpart]
  exact hsize

theorem BootFormatted.of_format {behind : BootStrings} {epmSupport : Bool} {dev dev' : BootDev} {partName : CString}
    {blobs : Bool} {blobCnt : UInt64}
    (h : BDiskFormatFactory.format behind epmSupport dev partName blobs blobCnt = .ok (dev', true))
    (hzero : ∀ x, kNeFSCatalogStartAddress.toNat ≤ x → dev.disk x = 0) (hsectors : dev.sectorsCount.toNat = s)
    (hsize : dev.diskSize.toNat = 512 * s) : BootFormatted s ⟨dev'.disk, true, false⟩ := by
  obtain ⟨-, -, -, hpart, hbehind⟩ := BDiskFormatFactory.format_eq_true h
  refine ⟨rfl, ?_, behind, dev, partName, blobCnt, hpart, hsectors, hsize⟩
  intro x hx
  exact (hbehind x (Nat.le_trans (by decide) hx)).trans (hzero x hx)

namespace Chain

variable {fmt : NfsSuperBlock} {made : List Entry}

theorem length_le (hc : Chain fmt made d) : made.length ≤ fmt.FreeCatalog.toNat := by
  have hall := hc.freeCatalog
  omega

theorem lt_of_created (hc : Chain fmt made d) {i : Nat} (hi : slot i < 2 ^ 64)
    (hcreated : (d.catalogAt (slotLba i)).hasCreated = true) : i < made.length := by
  by_contra hge
  have hzero : d.catalogAt (slotLba i) = NfsCatalogStruct.zero := by
    apply Drive.catalogAt_zeroed
    intro x hx
    apply hc.zeroed
    rw [slotLba_toNat hi] at hx
    rw [slot_eq] at hx ⊢
    omega
  rw [hzero, NfsCatalogStruct.hasCreated_zero] at hcreated
  cases hcreated

theorem zoneOk (hc : Chain fmt made d) (hfree : fmt.FreeCatalog.toNat = s / catalogSize)
    (hsize : fmt.DiskSize.toNat = 512 * s) (hmin : kNeFSMinimumDiskSize.toNat ≤ 512 * s) {i : Nat}
    (hi : i < made.length) : ZoneOk s d (slotLba i) := by
  have hbudget := hc.length_le
  have hlba := slotLba_toNat (hc.fits i hi)
  have hmin' : 4294967296 ≤ 512 * s := hmin
  rw [hfree, catalogSize] at hbudget
  have hslot : slot i + 514 ≤ 256 * s := by
    rw [slot_eq]
    omega
  have hstart : 2560 ≤ slot i := by
    rw [slot_eq]
    omega
  have hfork : (d.catalogAt (slotLba i)).DataFork.toNat = 512 * s - slot i := by
    have hle : slotLba i ≤ fmt.DiskSize := by
      rw [UInt64.le_iff_toNat_le, hlba, hsize]
      omega
    rw [(hc.record i hi).dataFork, UInt64.toNat_sub_of_le _ _ hle, hlba, hsize]
  refine ⟨?_, ?_, ?_, ?_⟩
  · rw [hlba, catalogSize]
    omega
  · rw [hfork, hlba]
    omega
  · rw [hfork]
    omega
  · rw [hfork, forkSize]
    omega

end Chain

/-- What the zone asks of a drive: of the records that count as created, and of those `FindCatalog` finds. -/
def ZonesApart (s : Nat) (d : Drive) : Prop :=
  (∀ i, slot i < 2 ^ 64 → (d.catalogAt (slotLba i)).hasCreated = true → ZoneOk s d (slotLba i)) ∧
  ∀ fuel name out c lba, findCatalog fuel d (some name) out true = .ok (some c, lba) →
    c = d.catalogAt lba ∧ ZoneOk s d lba

theorem InChain.zonesApart (h : BootFormatted s d) (hmin : kNeFSMinimumDiskSize.toNat ≤ 512 * s)
    {st : Drive × List Entry} (hin : InChain d.superBlock st) : ZonesApart s st.1 := by
  obtain ⟨made, hc, -⟩ := hin
  refine ⟨?_, ?_⟩
  · intro i hi hcreated
    exact hc.zoneOk h.freeCatalog h.diskSize hmin (hc.lt_of_created hi hcreated)
  · intro fuel name out c lba hfind
    obtain ⟨i, hi, -, hrecord, hlba⟩ := hc.findCatalog_some hfind
    rw [hlba]
    exact ⟨hrecord, hc.zoneOk h.freeCatalog h.diskSize hmin hi⟩

theorem InChain.call_returns {fmt : NfsSuperBlock} {st : Drive × List Entry} (hin : InChain fmt st)
    {op : CatalogOp} (hop : ZoneCall st.2 op) : ∃ st', CatalogStep st op st' := by
  obtain ⟨made, hc, hlive⟩ := hin
  cases op with
  | create name flags kind =>
    obtain ⟨fuel, ⟨d', r⟩, hret⟩ := hc.createCatalog_returns flags kind hop
    exact ⟨(d', _), fuel, r, hret, rfl⟩
  | remove name =>
    obtain ⟨m, hm, hname⟩ := hop
    by_cases hroot : name = kNeFSRoot
    · refine ⟨(st.1, st.2), 0, false, ?_, by simp⟩
      simp only [removeCatalog, hroot, if_true]
    · obtain ⟨d', -, hret⟩ := hc.removeCatalog_returns hroot ⟨m, hlive m hm, hname⟩
      exact ⟨(d', _), made.length + 1, true, hret _ (Nat.lt_succ_self _), rfl⟩

/-- On a disk the boot loader formatted the calls return, and after any of them the catalog records and the
first fork headers are apart. -/
theorem catalog_zone_apart (s : Nat) (d : Drive) (hd : BootFormatted s d)
    (hmin : kNeFSMinimumDiskSize.toNat ≤ 512 * s) (ops : List CatalogOp) (st : Drive × List Entry)
    (hrun : Run CatalogStep (d, []) ops st) :
    (∀ op, ZoneCall st.2 op → ∃ st', CatalogStep st op st') ∧ ZonesApart s st.1 := by
  have hin := hd.formatted.inChain_of_run hrun
  exact ⟨fun op hop => hin.call_returns hop, hin.zonesApart hd hmin⟩

/-- A zeroed disk of 4 GiB. -/
def bootDev : BootDev := ⟨fun _ => 0, 8388608, kNeFSMinimumDiskSize⟩

/-- The disk `bootDev` as the formatter leaves it. -/
def bootDrive : Drive := Drive.blank (superBlock .zero bootDev letterA 1)

theorem bootDrive_formatted : BootFormatted 8388608 bootDrive where
  writable := rfl
  zeroed := (Formatted.blank rfl : Formatted bootDrive).zeroed
  part := ⟨.zero, bootDev, letterA, 1, Store.get_put_same, rfl, rfl⟩

/-- `CreateCatalog("/ab")`. -/
theorem catalog_zone_apart_file : ∃ st,
    Run CatalogStep (bootDrive, []) [.create fileName 0 kNeFSCatalogKindFile] st ∧
      (∀ op, ZoneCall st.2 op → ∃ st', CatalogStep st op st') ∧ ZonesApart 8388608 st.1 := by
  have hvalid : ZoneCall [] (.create fileName 0 kNeFSCatalogKindFile) := ⟨by decide, 0, by decide, rfl⟩
  have hin : InChain bootDrive.superBlock (bootDrive, []) :=
    bootDrive_formatted.formatted.inChain_of_run (.nil _)
  obtain ⟨st, hstep⟩ := hin.call_returns hvalid
  exact ⟨st, Run.one hstep, catalog_zone_apart 8388608 bootDrive bootDrive_formatted (by decide) _ st (Run.one hstep)⟩

end OpenNE

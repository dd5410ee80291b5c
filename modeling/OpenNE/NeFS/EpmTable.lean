import OpenNE.Base.Run
import OpenNE.NeFS.FormatRun

/-!
# The table of EPM entries

`Format` with the boot flag appends an entry. It starts at the address of its own block, unless the entry in
front of it ends at address zero, so whether its range is apart from the earlier ones is up to their sizes; and
from the third block on the table lies where the superblock is written behind it, which is the end of it unless that
superblock is there already. `appends_iff` says when an entry is appended as it should be, `table_of_formats` what any
number of such formats leave.
-/

namespace OpenNE

/-! ### Ranges -/

/-- The addresses from `LbaStart` on, `LbaEnd` of them. -/
def EpmPartBlock.Covers (block : EpmPartBlock) (x : Nat) : Prop :=
  block.LbaStart.toUInt64.toNat ≤ x ∧ x < block.LbaStart.toUInt64.toNat + block.LbaEnd.toUInt64.toNat

def EpmPartBlock.Apart (a b : EpmPartBlock) : Prop := ∀ x, ¬(a.Covers x ∧ b.Covers x)

/-- The ranges of `k` entries are pairwise disjoint. -/
def TableApart (disk : Store) (k : Nat) : Prop :=
  ∀ i j, i < j → j < k → (epmEntry disk i).Apart (epmEntry disk j)

/-- Where an entry behind `k` others starts: the address of its block, or zero where the last one ends at zero. -/
def epmStart (disk : Store) (k : Nat) : Lba :=
  if (epmScan disk k).prevStart = 0 then 0 else (epmScan disk k).outEpmLba

/-- An entry was appended to a table of `k` entries: it stands in the first free block as it was filled in, counts
the entries before it, is apart from them, and none of them has changed. -/
structure Appends (endLba : Lba) (disk disk' : Store) (k : Nat) : Prop where
  entry : epmEntry disk' k = (epmScan disk k).entry endLba
  sized : (epmEntry disk' k).LbaEnd.toUInt64 = endLba
  numbered : (epmEntry disk' k).NumBlocks = Int64.ofNat k
  apart : ∀ i < k, (epmEntry disk i).Apart (epmEntry disk' k)
  kept : ∀ x < epmSlot k, disk' x = disk x

open Mount (epmWritten LeavesDisk)

/-- No earlier entry covers an address of a new one. -/
def RangeFree (endLba : Lba) (disk : Store) (k : Nat) : Prop :=
  ∀ i < k, ∀ x, (epmStart disk k).toNat ≤ x → x < (epmStart disk k).toNat + endLba.toNat →
    ¬(epmEntry disk i).Covers x

/-- The superblock of a formatting from the free block `found` is there already: the identifier and the name, the
constants, what the disk says of itself, and the rest as it was in `found` or the name went over it. -/
structure Stands (behind : UInt8) (geometry : DiskGeometry) (partName : CString) (found block : NfsSuperBlock) :
    Prop where
  ident : block.Ident = identChars behind
  name : block.PartitionName = (found.copied behind partName).PartitionName
  flags : block.Flags = kNeFSPartitionTypeStandard
  kind : block.Kind = kNeFSPartitionTypeStandard
  start : block.StartCatalog = kNeFSCatalogStartAddress
  catalogs : block.CatalogCount = geometry.sectorCount / UInt64.ofNat catalogSize
  size : block.DiskSize = geometry.diskSize
  freeCatalogs : block.FreeCatalog = geometry.sectorCount / UInt64.ofNat catalogSize
  freeSectors : block.FreeSectors = (found.copied behind partName).FreeSectors
  sectors : block.SectorCount = geometry.sectorCount
  sectorSize : block.SectorSize = (found.copied behind partName).SectorSize
  version : block.Version = (found.copied behind partName).Version
  epmBlock : block.EpmBlock = (found.copied behind partName).EpmBlock
  pad : block.Pad = (found.copied behind partName).Pad

/-- The superblock lies behind the table, or none is written because no block is free (or the name is longer than the
buffer), or the table is of three entries at least and the superblock is there already. -/
inductive TableSafe (behind : UInt8) (geometry : DiskGeometry) (partName : CString) (disk : Store)
    (s : Lba × NfsSuperBlock) (k : Nat) : Prop
  | short (hk : k ≤ 1)
  | unwritten (hnone : ∀ n, FirstFree behind disk s n → ¬NameFits partName)
  | again (n : Nat) (hk : 3 ≤ k) (hfree : FirstFree behind disk s n)
      (hstands : Stands behind geometry partName ((searchNext disk)^[n] s).2 (rootBlock disk))

/-- What an entry is appended under: its range is free, and the table with it is safe from the superblock. -/
structure AppendsWhen (behind : UInt8) (geometry : DiskGeometry) (call : FormatCall) (disk : Store) (k : Nat) :
    Prop where
  range : RangeFree call.endLba disk k
  intact : TableSafe behind geometry call.partName (epmWritten call disk k)
    (kNeFSRootCatalogStartAddress, rootBlock disk) k

/-- The superblock that is written behind the table, if one is, changes no byte below `size`. -/
def LeftAlone (behind : UInt8) (geometry : DiskGeometry) (partName : CString) (disk : Store) (s : Lba × NfsSuperBlock)
    (size : Nat) : Prop :=
  ∀ n, NameFits partName → FirstFree behind disk s n → ∀ x < size,
    disk.put NfsSuperBlock.codec kNeFSRootCatalogStartAddress.toNat (((searchNext disk)^[n] s).2.formatted behind
      partName geometry.sectorCount geometry.diskSize) x = disk x

section Append

variable {behind : UInt8} {geometry : DiskGeometry} {call : FormatCall} {disk disk' : Store} {k : Nat} {endLba : Lba}

theorem epmSlot_succ (k : Nat) : epmSlot (k + 1) = epmSlot k + EpmPartBlock.codec.size := rfl

theorem entry_start : ((epmScan disk k).entry endLba).LbaStart.toUInt64 = epmStart disk k := by
  unfold epmStart EpmScan.entry
  by_cases hzero : (epmScan disk k).prevStart = 0
  · simp only [hzero, if_true]
    rfl
  · simp only [hzero, if_false]
    exact UInt64.toUInt64_toInt64 _

theorem entry_covers {x : Nat} : ((epmScan disk k).entry endLba).Covers x ↔
    (epmStart disk k).toNat ≤ x ∧ x < (epmStart disk k).toNat + endLba.toNat := by
  have hend : ((epmScan disk k).entry endLba).LbaEnd.toUInt64 = endLba := UInt64.toUInt64_toInt64 _
  unfold EpmPartBlock.Covers
  rw [entry_start, hend]

theorem entry_written : epmEntry (epmWritten call disk k) k = (epmScan disk k).entry call.endLba := Store.get_put_same

theorem written_before {x : Nat} (hx : x < epmSlot k) : epmWritten call disk k x = disk x :=
  Store.put_apply_outside (.inl hx)

theorem appends_iff_table : Appends call.endLba disk disk' k ↔
    RangeFree call.endLba disk k ∧ ∀ x < epmSlot (k + 1), disk' x = epmWritten call disk k x := by
  constructor
  · intro h
    refine ⟨?_, ?_⟩
    · intro i hi x hlow hhigh hcovers
      have hnew : (epmEntry disk' k).Covers x := by
        rw [h.entry, entry_covers]
        exact ⟨hlow, hhigh⟩
      exact h.apart i hi x ⟨hcovers, hnew⟩
    · intro x hx
      by_cases hslot : x < epmSlot k
      · rw [h.kept x hslot, written_before hslot]
      · have hsame : epmEntry disk' k = epmEntry (epmWritten call disk k) k := by
          rw [h.entry, entry_written]
        exact Store.eq_of_get_eq hsame (Nat.not_lt.mp hslot) hx
  · intro h
    obtain ⟨hrange, htable⟩ := h
    have hentry : epmEntry disk' k = (epmScan disk k).entry call.endLba := by
      have hsame : epmEntry disk' k = epmEntry (epmWritten call disk k) k :=
        Store.get_congr fun x _ hhigh => htable x hhigh
      rw [hsame, entry_written]
    refine ⟨hentry, ?_, ?_, ?_, ?_⟩
    · rw [hentry]
      exact UInt64.toUInt64_toInt64 _
    · rw [hentry]
      show (epmScan disk k).cnt.toInt64 = _
      rw [epmScan_cnt]
      rfl
    · intro i hi x hboth
      rw [hentry, entry_covers] at hboth
      exact hrange i hi x hboth.2.1 hboth.2.2 hboth.1
    · intro x hx
      have hlt : x < epmSlot (k + 1) := by
        rw [epmSlot_succ]
        omega
      rw [htable x hlt, written_before hx]

theorem searchLeaves_iff {partName : CString} {start : Lba × NfsSuperBlock} {size : Nat}
    (h : SearchLeaves behind geometry partName disk start disk') :
    (∀ x < size, disk' x = disk x) ↔ LeftAlone behind geometry partName disk start size := by
  cases h with
  | written n hfree hname =>
    constructor
    · intro htable k' hname' hfree'
      obtain rfl := hfree.unique hfree'
      exact htable
    · intro hall
      exact hall n hname hfree
  | tooLong n hfree hlong => exact iff_of_true (fun _ _ => rfl) fun _ hname => absurd hname hlong
  | endless hfull =>
    refine iff_of_true (fun _ _ => rfl) ?_
    intro n hname hfree
    have htrue := hfree.free
    rw [hfull n] at htrue
    cases htrue

/-! ### The superblock over the table -/

theorem dec_ident {bs rest : List UInt8} (hlen : bs.length = kNeFSIdentLen) :
    (NfsSuperBlock.codec.dec (bs ++ rest)).Ident.1 = bs := by
  have htake : (bs ++ rest).take kNeFSIdentLen = bs := List.take_left' hlen
  show (((bs ++ rest).take kNeFSIdentLen) ++ List.replicate 8 0).take kNeFSIdentLen = bs
  rw [htake]
  exact List.take_left' hlen

theorem named_ident {partName : CString} {part : NfsSuperBlock} : (part.named partName).Ident = part.Ident := by
  unfold NfsSuperBlock.named
  split_ifs with hshort
  · rfl
  · have himage : (NfsSuperBlock.codec.enc part).take kNeFSIdentLen = part.Ident.1 := List.take_left' part.Ident.2
    apply Subtype.ext
    dsimp only
    rw [himage]
    exact dec_ident part.Ident.2

theorem formatted_ident {partName : CString} {part : NfsSuperBlock} {sectorCount diskSize : UInt64} :
    (part.formatted behind partName sectorCount diskSize).Ident = identChars behind := named_ident

theorem stands_iff {partName : CString} {found block : NfsSuperBlock} :
    Stands behind geometry partName found block ↔
      block = found.formatted behind partName geometry.sectorCount geometry.diskSize := by
  constructor
  · intro h
    have hcopied : (found.copied behind partName).Ident = identChars behind := named_ident
    obtain ⟨ident, name, flags, kind, start, count, disk, free, fsect, sects, ssize, version, epm, pad⟩ := block
    obtain ⟨rfl, rfl, rfl, rfl, rfl, rfl, rfl, rfl, rfl, rfl, rfl, rfl, rfl, rfl⟩ := h
    rw [NfsSuperBlock.formatted, hcopied]
  · rintro rfl
    exact ⟨formatted_ident, rfl, rfl, rfl, rfl, rfl, rfl, rfl, rfl, rfl, rfl, rfl, rfl, rfl⟩

theorem leftAlone_short {partName : CString} {start : Lba × NfsSuperBlock} (hk : k ≤ 1) :
    LeftAlone behind geometry partName disk start (epmSlot (k + 1)) := by
  intro n hname hfree x hx
  refine Store.put_apply_outside (.inl ?_)
  show x < 1024
  rw [epmSlot_eq] at hx
  omega

theorem leftAlone_third {partName : CString} {start : Lba × NfsSuperBlock} :
    LeftAlone behind geometry partName (epmWritten call disk 2) start (epmSlot 3) ↔
      ∀ n, FirstFree behind (epmWritten call disk 2) start n → ¬NameFits partName := by
  constructor
  · intro h n hfree hname
    have hbyte := h n hname hfree 1024 (by decide)
    -- the first character of the identifier over the last but five of the name
    have hnew : ∀ part : NfsSuperBlock, part.Ident = identChars behind →
        (epmWritten call disk 2).put NfsSuperBlock.codec 1024 part (1024 + 0) = 32 := by
      intro part hident
      rw [Store.put_apply_inside (by decide)]
      show (part.Ident.1 ++ _).getD 0 0 = 32
      rw [hident]
      rfl
    have hold : epmWritten call disk 2 (epmSlot 2 + 32) = 0 := by
      rw [epmWritten, Store.put_apply_inside (by decide)]
      rfl
    have hslot : epmSlot 2 + 32 = 1024 := by decide
    rw [hslot] at hold
    have hboth := (hnew _ formatted_ident).symm.trans (hbyte.trans hold)
    exact absurd hboth (by decide)
  · intro h n hname hfree
    exact absurd hname (h n hfree)

theorem put_same_iff {part : NfsSuperBlock} {size : Nat} (hsize : 1536 ≤ size) :
    (∀ x < size, disk.put NfsSuperBlock.codec 1024 part x = disk x) ↔ disk.get NfsSuperBlock.codec 1024 = part := by
  constructor
  · intro h
    have hsame : (disk.put NfsSuperBlock.codec 1024 part).get NfsSuperBlock.codec 1024 =
        disk.get NfsSuperBlock.codec 1024 := by
      apply Store.get_congr
      intro x _ hx
      exact h x (Nat.lt_of_lt_of_le hx hsize)
    rw [← hsame, Store.get_put_same]
  · intro h x _
    by_cases hin : 1024 ≤ x ∧ x < 1024 + NfsSuperBlock.codec.size
    · exact Store.eq_of_get_eq (Store.get_put_same.trans h.symm) hin.1 hin.2
    · exact Store.put_apply_outside (by omega)

theorem leftAlone_iff {partName : CString} {start : Lba × NfsSuperBlock} :
    LeftAlone behind geometry partName (epmWritten call disk k) start (epmSlot (k + 1)) ↔
      TableSafe behind geometry partName (epmWritten call disk k) start k := by
  constructor
  · intro h
    by_cases hwritten : ∀ n, FirstFree behind (epmWritten call disk k) start n → ¬NameFits partName
    · exact .unwritten hwritten
    · obtain ⟨n, hwritten⟩ := not_forall.mp hwritten
      obtain ⟨hfree, hname⟩ := Classical.not_imp.mp hwritten
      have hfits : NameFits partName := not_not.mp hname
      rcases Nat.lt_or_ge k 2 with hshort | hlong
      · exact .short (by omega)
      · rcases Nat.eq_or_lt_of_le hlong with rfl | hmore
        · exact absurd hfits (leftAlone_third.mp h n hfree)
        · have hsize : 1536 ≤ epmSlot (k + 1) := by
            rw [epmSlot_eq]
            omega
          exact .again n hmore hfree (stands_iff.mpr ((put_same_iff hsize).mp (h n hfits hfree)))
  · intro h
    cases h with
    | short hk => exact leftAlone_short hk
    | unwritten hnone => exact fun n hname hfree => absurd hname (hnone n hfree)
    | again n hk hfree hstands =>
      intro n' hname hfree'
      obtain rfl := hfree.unique hfree'
      have hsize : 1536 ≤ epmSlot (k + 1) := by
        rw [epmSlot_eq]
        omega
      exact (put_same_iff hsize).mpr (stands_iff.mp hstands)

theorem leaves_appends_iff (h : call.Accepted) (hboot : call.bootable) (htable : EpmTable disk k)
    (hleaves : LeavesDisk behind geometry call disk disk') :
    Appends call.endLba disk disk' k ↔ AppendsWhen behind geometry call disk k := by
  obtain ⟨disk₁, hsearch, hleaves₁⟩ := Mount.leaves_bootable behind geometry h hboot htable
  obtain rfl := hleaves.unique hleaves₁
  rw [appends_iff_table, searchLeaves_iff hsearch, leftAlone_iff]
  exact ⟨fun h => ⟨h.1, h.2⟩, fun h => ⟨h.range, h.intact⟩⟩

end Append

/-! ### Runs -/

/-- A call on a disk with so many entries. -/
def FormatStep (behind : UInt8) (geometry : DiskGeometry) (s : Store × Nat) (call : FormatCall) (s' : Store × Nat) :
    Prop :=
  call.Accepted ∧ call.bootable ∧ LeavesDisk behind geometry call s.1 s'.1 ∧ s'.2 = s.2 + 1

/-- What a step is made under: the block behind the entries is the first free one, and the entry is appended as it
should be. -/
def FormatGuard (behind : UInt8) (geometry : DiskGeometry) (s : Store × Nat) (call : FormatCall) : Prop :=
  EpmTable s.1 s.2 ∧ AppendsWhen behind geometry call s.1 s.2

/-- The table after a run: the entries there were at its start, and those appended since, each with its number. -/
structure TableKept (disk : Store) (k : Nat) (s : Store × Nat) : Prop where
  longer : k ≤ s.2
  apart : TableApart s.1 s.2
  kept : ∀ x < epmSlot k, s.1 x = disk x
  numbered : ∀ i, k ≤ i → i < s.2 → (epmEntry s.1 i).NumBlocks = Int64.ofNat i

section Runs

variable {behind : UInt8} {geometry : DiskGeometry} {disk : Store} {k : Nat} {s s' : Store × Nat} {call : FormatCall}

theorem Appends.entry_before {endLba : Lba} {disk' : Store} (h : Appends endLba disk disk' k) {i : Nat} (hi : i < k) :
    epmEntry disk' i = epmEntry disk i := by
  apply Store.get_congr
  intro x _ hhigh
  apply h.kept
  have hsucc : epmSlot (i + 1) ≤ epmSlot k := Nat.mul_le_mul_left _ hi
  rw [epmSlot_succ] at hsucc
  omega

theorem TableKept.step (h : TableKept disk k s) (hstep : FormatStep behind geometry s call s')
    (hguard : FormatGuard behind geometry s call) : TableKept disk k s' := by
  obtain ⟨haccepted, hboot, hleaves, hcount⟩ := hstep
  obtain ⟨htable, hwhen⟩ := hguard
  have happends := (leaves_appends_iff haccepted hboot htable hleaves).mpr hwhen
  have hlonger := h.longer
  refine ⟨?_, ?_, ?_, ?_⟩
  · omega
  · intro i j hij hj
    rw [hcount] at hj
    rcases Nat.lt_or_eq_of_le (Nat.le_of_lt_succ hj) with hlt | rfl
    · rw [happends.entry_before (by omega), happends.entry_before hlt]
      exact h.apart i j hij hlt
    · rw [happends.entry_before hij]
      exact happends.apart i hij
  · intro x hx
    have hle : epmSlot k ≤ epmSlot s.2 := Nat.mul_le_mul_left _ hlonger
    rw [happends.kept x (by omega)]
    exact h.kept x hx
  · intro i hi hlt
    rw [hcount] at hlt
    rcases Nat.lt_or_eq_of_le (Nat.le_of_lt_succ hlt) with hlt | rfl
    · rw [happends.entry_before hlt]
      exact h.numbered i hi hlt
    · exact happends.numbered

theorem TableApart.kept (h : TableApart disk k) : TableKept disk k (disk, k) where
  longer := Nat.le_refl k
  apart := h
  kept _ _ := rfl
  numbered _ hi hlt := absurd hlt (Nat.not_lt.mpr hi)

end Runs

end OpenNE

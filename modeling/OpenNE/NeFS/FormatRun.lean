import OpenNE.NeFS.Format
import Mathlib.Logic.Function.Iterate

/-!
# What `Format` does to the disk

The search goes from block to block (`searched`) and ends at the first free one; on the disk it leaves the new
superblock at `kNeFSRootCatalogStartAddress`, or nothing when no block is free or the name is too long
(`SearchLeaves`). The creation of the root catalog, whether it returns or not, writes nothing.
-/

namespace OpenNE

/-- A drive whose packets are good and not read-only. -/
structure DriveTrait.Usable (drive : DriveTrait) : Prop where
  good : drive.fPacket.fPacketGood = true
  writable : drive.fPacket.fPacketReadOnly = false

theorem DriveTrait.Usable.withPacket {drive : DriveTrait} (h : drive.Usable) (lba : Lba) (size : Nat) :
    (drive.withPacket lba size).Usable :=
  ⟨h.good, h.writable⟩

/-- A call that gets past the checks, on a drive that can be written. -/
structure FormatCall.Accepted (call : FormatCall) : Prop where
  named : call.partName.1 ≠ []
  sized : call.endLba ≠ 0
  usable : call.drive.Usable

/-- The boot flag. -/
abbrev FormatCall.bootable (call : FormatCall) : Prop := call.flags &&& kNeFSPartitionTypeBoot ≠ 0

theorem NfsSuperBlock.isFree_zero (behind : UInt8) : zero.isFree behind = true := by
  have hne : rtStringCmp zero.Ident.1 (identChars behind).1 kNeFSIdentLen ≠ 0 := by
    intro h
    have hchar : (0 : UInt8) = 79 := rtStringCmp_eq_zero.mp h 3 (by decide)
    exact absurd hchar (by decide)
  have hname : zero.PartitionName.1.head? = some 0 := rfl
  simp [isFree, hne, hname]

/-! ### The blocks of the search -/

/-- The block `DiskSize` further on. -/
def searchNext (disk : Store) (s : Lba × NfsSuperBlock) : Lba × NfsSuperBlock :=
  (s.1 + s.2.DiskSize, disk.get NfsSuperBlock.codec (s.1 + s.2.DiskSize).toNat)

/-- The blocks the search looks at and their addresses, where the first one was read already. -/
def searched (disk : Store) (first : NfsSuperBlock) (n : Nat) : Lba × NfsSuperBlock :=
  (searchNext disk)^[n] (kNeFSRootCatalogStartAddress, first)

/-- The superblock on the disk. -/
abbrev rootBlock (disk : Store) : NfsSuperBlock :=
  disk.get NfsSuperBlock.codec kNeFSRootCatalogStartAddress.toNat

theorem rootBlock_put {disk : Store} {part : NfsSuperBlock} :
    rootBlock (disk.put NfsSuperBlock.codec kNeFSRootCatalogStartAddress.toNat part) = part :=
  Store.get_put_same

/-- The first free block of the search is the one after `n` others. -/
structure FirstFree (behind : UInt8) (disk : Store) (s : Lba × NfsSuperBlock) (n : Nat) : Prop where
  occupied : ∀ i < n, ((searchNext disk)^[i] s).2.isFree behind = false
  free : ((searchNext disk)^[n] s).2.isFree behind = true

theorem FirstFree.next {behind : UInt8} {disk : Store} {s : Lba × NfsSuperBlock} {n : Nat}
    (h : FirstFree behind disk s (n + 1)) : FirstFree behind disk (searchNext disk s) n where
  occupied i hi := h.occupied (i + 1) (by omega)
  free := h.free

theorem FirstFree.unique {behind : UInt8} {disk : Store} {s : Lba × NfsSuperBlock} {n k : Nat}
    (hn : FirstFree behind disk s n) (hk : FirstFree behind disk s k) : n = k := by
  rcases Nat.lt_trichotomy n k with hlt | heq | hlt
  · have hfree := hn.free
    rw [hk.occupied n hlt] at hfree
    cases hfree
  · exact heq
  · have hfree := hk.free
    rw [hn.occupied k hlt] at hfree
    cases hfree

/-- What a search from `s` leaves on the disk. -/
inductive SearchLeaves (behind : UInt8) (geometry : DiskGeometry) (partName : CString) (disk : Store)
    (s : Lba × NfsSuperBlock) : Store → Prop
  | written (n : Nat) (hfree : FirstFree behind disk s n) (hname : NameFits partName) :
      SearchLeaves behind geometry partName disk s
        (disk.put NfsSuperBlock.codec kNeFSRootCatalogStartAddress.toNat (((searchNext disk)^[n] s).2.formatted
          behind partName geometry.sectorCount geometry.diskSize))
  | tooLong (n : Nat) (hfree : FirstFree behind disk s n) (hname : ¬NameFits partName) :
      SearchLeaves behind geometry partName disk s disk
  | endless (hfull : ∀ n, ((searchNext disk)^[n] s).2.isFree behind = false) :
      SearchLeaves behind geometry partName disk s disk

theorem FirstFree.exists {behind : UInt8} {disk : Store} {s : Lba × NfsSuperBlock} {n : Nat}
    (hfree : ((searchNext disk)^[n] s).2.isFree behind = true) : ∃ k, FirstFree behind disk s k := by
  have hex : ∃ n, ((searchNext disk)^[n] s).2.isFree behind = true := ⟨n, hfree⟩
  refine ⟨Nat.find hex, ?_, Nat.find_spec hex⟩
  intro i hi
  simpa using Nat.find_min hex hi

/-! ### The table -/

/-- The `i`-th block of the table. -/
def epmSlot (i : Nat) : Nat := EpmPartBlock.codec.size * i

theorem epmSlot_eq (i : Nat) : epmSlot i = 496 * i := rfl

abbrev epmEntry (disk : Store) (i : Nat) : EpmPartBlock := disk.get EpmPartBlock.codec (epmSlot i)

/-- A table of `k` entries, the block behind them free. -/
structure EpmTable (disk : Store) (k : Nat) : Prop where
  taken : ∀ i < k, disk (epmSlot i) ≠ 0
  free : disk (epmSlot k) = 0
  fits : epmSlot (k + 1) ≤ 2 ^ 64

/-- The walk in front of the `i`-th block. -/
def epmScan (disk : Store) : Nat → EpmScan
  | 0 => ⟨kEPMBootBlockLba, 0, 0⟩
  | i + 1 => (epmScan disk i).next (epmEntry disk i)

theorem epmScan_next (disk : Store) (i : Nat) :
    (epmScan disk i).next (disk.get EpmPartBlock.codec (epmSlot i)) = epmScan disk (i + 1) :=
  rfl

theorem epmScan_lba (disk : Store) (i : Nat) : (epmScan disk i).outEpmLba = UInt64.ofNat (epmSlot i) := by
  induction i with
  | zero => rfl
  | succ i ih =>
    show (epmScan disk i).outEpmLba + UInt64.ofNat EpmPartBlock.codec.size = _
    rw [ih, ← UInt64.ofNat_add]
    rfl

theorem epmScan_cnt (disk : Store) (i : Nat) : (epmScan disk i).cnt = UInt64.ofNat i := by
  induction i with
  | zero => rfl
  | succ i ih =>
    show (epmScan disk i).cnt + 1 = _
    rw [ih, UInt64.ofNat_add]
    rfl

theorem epmScan_addr (disk : Store) {k i : Nat} (h : EpmTable disk k) (hi : i ≤ k) :
    (epmScan disk i).outEpmLba.toNat = epmSlot i := by
  have hfits := h.fits
  rw [epmSlot_eq] at hfits
  rw [epmScan_lba, UInt64.toNat_ofNat', epmSlot_eq]
  omega

theorem EpmPartBlock.magic_head (disk : Store) (a : Nat) :
    (disk.get EpmPartBlock.codec a).Magic.1.head? = some (disk a) := by
  show ((disk.get ((Codec.bytes 5).pair _) a).1).1.head? = _
  rw [Store.get_pair]
  show ((Codec.bytes 5).dec (disk.read a 5)).1.head? = _
  simp [Codec.bytes, Store.read, List.range_succ_eq_map]

namespace Mount

variable {α : Type} {c : Codec α} {v : α} {lba : Lba} {drive : DriveTrait} {m : Mount} {fuel : Nat} {behind : UInt8}
  {geometry : DiskGeometry} {partName : CString} {start : Lba} {part : NfsSuperBlock}

/-! ### Packets -/

theorem readRecord_eq :
    readRecord c lba drive m = (.ok (m.disk.get c lba.toNat, drive.withPacket lba c.size), m) :=
  rfl

/-- The mount after a record was written. -/
def wrote (m : Mount) (c : Codec α) (lba : Lba) (v : α) (drive : DriveTrait) : Mount :=
  { m with disk := m.disk.put c lba.toNat v, sent := m.sent ++ [(drive.withPacket lba c.size).fPacket] }

theorem writeRecord_eq (h : drive.Usable) :
    writeRecord c lba v drive m = (.ok (drive.withPacket lba c.size), m.wrote c lba v drive) := by
  have hro : (drive.withPacket lba c.size).fPacket.fPacketReadOnly = false := h.writable
  unfold writeRecord ioDrvOutput
  simp only [hro]
  rfl

/-! ### The root catalog -/

/-- What holds whatever the mounted drive is. -/
def IgnoresDrive (inv : Mount → Prop) : Prop := ∀ m drive, inv m → inv { m with mA := drive }

section Root

variable {inv : Mount → Prop} (hinv : IgnoresDrive inv)

include hinv

theorem readRecordA_keeps : Call.Keeps inv (fun _ => True) (readRecordA c lba) := by
  intro m hm
  exact ⟨hinv m _ hm, fun _ _ => trivial⟩

theorem findRound_keeps {name : CString} {hidden : Bool} :
    Call.Keeps inv (Sum.elim (fun _ => True) fun _ => True) (findRound name hidden part lba) := by
  apply Call.Keeps.bind (readRecordA_keeps hinv)
  intro temporary _
  apply Call.Keeps.bind (.lift _)
  intro temporaryName _
  dsimp only
  split_ifs
  all_goals exact .pure trivial

theorem findCatalog_keeps {name : Option CString} {hidden : Bool} :
    Call.Keeps inv (fun _ => True) (findCatalog fuel name lba hidden) := by
  unfold findCatalog
  split
  · exact .pure trivial
  · split_ifs
    · exact .pure trivial
    · have hpart : Call.Keeps inv (fun _ => True) findPart := by
        apply Call.Keeps.seq (.modify fun m hm => hinv m _ hm)
        intro _
        exact readRecordA_keeps hinv
      apply hpart.seq
      intro part
      apply Call.Keeps.seq
      · exact .rounds (fun _ _ => findRound_keeps hinv) fuel trivial
      · intro found
        exact .pure trivial

theorem createRoot_keeps (fuel : Nat) :
    Call.Keeps inv (fun _ => True) (createCatalog fuel (some kNeFSRoot) 0 kNeFSCatalogKindDir) := by
  show Call.Keeps inv (fun _ => True) (createCatalogChecked fuel kNeFSRoot 0 kNeFSCatalogKindDir)
  apply (findCatalog_keeps hinv).seq
  intro found
  obtain ⟨existing, outLba⟩ := found
  dsimp only
  split_ifs
  · exact .pure trivial
  · intro m hm
    have hparent : (Call.lift (parentName kNeFSRoot) : Call Mount CString) m = (.error .fault, m) := rfl
    rw [Call.bind_of_error hparent]
    exact ⟨hm, fun _ h => by cases h⟩

end Root

theorem ignoresDrive_disk (disk : Store) : IgnoresDrive fun m => m.disk = disk := fun _ _ h => h

/-! ### The search -/

theorem formatRound_occupied (fuel : Nat) (geometry : DiskGeometry) (partName : CString) (m : Mount)
    {s : Lba × NfsSuperBlock} (h : drive.Usable) (hfull : s.2.isFree behind = false) :
    formatRound fuel behind geometry partName (drive, s) m =
      (.ok (.inl (drive.withPacket (s.1 + s.2.DiskSize) superBlockSize, searchNext m.disk s)), m) := by
  unfold formatRound
  simp only [h.good, hfull]
  rfl

theorem formatRound_free (fuel : Nat) (geometry : DiskGeometry) (m : Mount) (start : Lba) (h : drive.Usable)
    (hfree : part.isFree behind = true) (hname : NameFits partName) :
    ∃ r m', formatRound fuel behind geometry partName (drive, start, part) m = (r, m') ∧
      (∀ t, r ≠ .ok (.inl t)) ∧
      m'.disk = m.disk.put NfsSuperBlock.codec kNeFSRootCatalogStartAddress.toNat
        (part.formatted behind partName geometry.sectorCount geometry.diskSize) := by
  unfold formatRound
  simp only [h.good, hfree, hname, if_true, Bool.true_eq_false, if_false]
  rw [Call.bind_of_ok (writeRecord_eq h)]
  have hroot := (createRoot_keeps (ignoresDrive_disk _) fuel (m.wrote NfsSuperBlock.codec
    kNeFSRootCatalogStartAddress (part.formatted behind partName geometry.sectorCount geometry.diskSize)
    drive) rfl).1
  rcases hret : createCatalog fuel (some kNeFSRoot) 0 kNeFSCatalogKindDir (m.wrote NfsSuperBlock.codec
    kNeFSRootCatalogStartAddress (part.formatted behind partName geometry.sectorCount geometry.diskSize)
    drive) with ⟨e | c, m'⟩
  · rw [hret] at hroot
    rw [Call.bind_of_error hret]
    exact ⟨_, _, rfl, fun t => by simp, hroot⟩
  · rw [hret] at hroot
    rw [Call.bind_of_ok hret]
    exact ⟨_, _, rfl, fun t => by simp, hroot⟩

theorem formatRound_tooLong (h : drive.Usable) (hfree : part.isFree behind = true)
    (hname : ¬NameFits partName) :
    formatRound fuel behind geometry partName (drive, start, part) m = (.error .fault, m) := by
  unfold formatRound
  simp only [h.good, hfree, hname]
  rfl

theorem search_past (fuel budget n : Nat) (geometry : DiskGeometry) (partName : CString) (h : drive.Usable)
    {s : Lba × NfsSuperBlock}
    (hfull : ∀ i < n, ((searchNext m.disk)^[i] s).2.isFree behind = false) :
    ∃ drive' : DriveTrait, drive'.Usable ∧
      Call.rounds (formatRound fuel behind geometry partName) (budget + n) (drive, s) m =
        Call.rounds (formatRound fuel behind geometry partName) budget (drive', (searchNext m.disk)^[n] s) m := by
  induction n generalizing drive s with
  | zero => exact ⟨drive, h, rfl⟩
  | succ n ih =>
    have hround := formatRound_occupied fuel geometry partName m h (hfull 0 (Nat.succ_pos n))
    obtain ⟨drive', hdrive', hrest⟩ := ih (h.withPacket (s.1 + s.2.DiskSize) superBlockSize)
      (s := searchNext m.disk s) fun i hi => hfull (i + 1) (by omega)
    exact ⟨drive', hdrive', (Call.rounds_next hround (budget + n)).trans hrest⟩

theorem search_leaves (behind : UInt8) (geometry : DiskGeometry) (partName : CString) (disk : Store)
    (s : Lba × NfsSuperBlock) :
    ∃ disk', SearchLeaves behind geometry partName disk s disk' ∧
      ∃ n, ∀ (m : Mount) (drive : DriveTrait) (fuel budget : Nat), m.disk = disk → drive.Usable → n < budget →
        (Call.rounds (formatRound fuel behind geometry partName) budget (drive, s) m).2.disk = disk' := by
  by_cases hex : ∃ n, ((searchNext disk)^[n] s).2.isFree behind = true
  · obtain ⟨k, hk⟩ := hex
    obtain ⟨n, hfirst⟩ := FirstFree.exists hk
    by_cases hname : NameFits partName
    · refine ⟨_, .written n hfirst hname, n, ?_⟩
      rintro m drive fuel budget rfl h hbudget
      obtain ⟨rest, rfl⟩ : ∃ rest, budget = rest + 1 + n := ⟨budget - n - 1, by omega⟩
      obtain ⟨drive', hdrive', hpast⟩ := search_past fuel (rest + 1) n geometry partName h hfirst.occupied
      obtain ⟨r, m', hround, hlast, hdisk⟩ := formatRound_free fuel geometry m ((searchNext m.disk)^[n] s).1 hdrive'
        hfirst.free hname
      rw [hpast, Call.rounds_last hround hlast, hdisk]
    · refine ⟨_, .tooLong n hfirst hname, n, ?_⟩
      rintro m drive fuel budget rfl h hbudget
      obtain ⟨rest, rfl⟩ : ∃ rest, budget = rest + 1 + n := ⟨budget - n - 1, by omega⟩
      obtain ⟨drive', hdrive', hpast⟩ := search_past fuel (rest + 1) n geometry partName h hfirst.occupied
      rw [hpast, Call.rounds_error (formatRound_tooLong hdrive' hfirst.free hname)]
  · have hfull : ∀ n, ((searchNext disk)^[n] s).2.isFree behind = false := by
      intro n
      simpa using fun hfree => hex ⟨n, hfree⟩
    refine ⟨_, .endless hfull, 0, ?_⟩
    rintro m drive fuel budget rfl h hbudget
    obtain ⟨drive', -, hpast⟩ := search_past fuel 0 budget geometry partName h fun i _ => hfull i
    rw [Nat.zero_add] at hpast
    rw [hpast]
    rfl

/-! ### The walk through the table -/

theorem epmRound_taken (endLba : Lba) (m : Mount) (scan : EpmScan) (h : drive.Usable)
    (htaken : m.disk scan.outEpmLba.toNat ≠ 0) :
    epmRound endLba (drive, scan) m = (.ok (.inl (drive.withPacket scan.outEpmLba EpmPartBlock.codec.size,
      scan.next (m.disk.get EpmPartBlock.codec scan.outEpmLba.toNat))), m) := by
  unfold epmRound
  simp only [h.good, Bool.true_eq_false, if_false]
  rw [Call.bind_of_ok readRecord_eq]
  simp only [EpmPartBlock.magic_head, Option.some.injEq, htaken, if_false]
  rfl

theorem epmRound_free (endLba : Lba) (m : Mount) (scan : EpmScan) (h : drive.Usable)
    (hfree : m.disk scan.outEpmLba.toNat = 0) :
    ∃ drive' m', epmRound endLba (drive, scan) m = (.ok (.inr drive'), m') ∧ drive'.Usable ∧
      m'.disk = m.disk.put EpmPartBlock.codec scan.outEpmLba.toNat (scan.entry endLba) := by
  unfold epmRound
  simp only [h.good, Bool.true_eq_false, if_false]
  rw [Call.bind_of_ok readRecord_eq]
  simp only [EpmPartBlock.magic_head, hfree, if_true]
  rw [Call.bind_of_ok (writeRecord_eq (h.withPacket _ _))]
  exact ⟨_, _, rfl, (h.withPacket _ _).withPacket _ _, rfl⟩

theorem epmWalk (endLba : Lba) (fuel : Nat) {k i : Nat} (htable : EpmTable m.disk k) (h : drive.Usable) (hi : i ≤ k)
    (hfuel : k - i < fuel) :
    ∃ drive' m', Call.rounds (epmRound endLba) fuel (drive, epmScan m.disk i) m = (.ok drive', m') ∧ drive'.Usable ∧
      m'.disk = m.disk.put EpmPartBlock.codec (epmSlot k) ((epmScan m.disk k).entry endLba) := by
  induction hrest : k - i generalizing drive i fuel with
  | zero =>
    obtain rfl : i = k := by omega
    obtain ⟨rest, rfl⟩ : ∃ rest, fuel = rest + 1 := ⟨fuel - 1, by omega⟩
    have haddr := epmScan_addr m.disk htable (Nat.le_refl i)
    obtain ⟨drive', m', hround, hdrive', hdisk⟩ := epmRound_free endLba m (epmScan m.disk i) h
      (by rw [haddr]; exact htable.free)
    rw [haddr] at hdisk
    exact ⟨drive', m', Call.rounds_leave hround rest, hdrive', hdisk⟩
  | succ n ih =>
    obtain ⟨rest, rfl⟩ : ∃ rest, fuel = rest + 1 := ⟨fuel - 1, by omega⟩
    have haddr := epmScan_addr m.disk htable hi
    have hround := epmRound_taken endLba m (epmScan m.disk i) h
      (by rw [haddr]; exact htable.taken i (by omega))
    rw [haddr, epmScan_next] at hround
    rw [Call.rounds_next hround]
    exact ih rest (h.withPacket _ _) (by omega) (by omega) (by omega)

/-! ### The call -/

theorem format_accepted (fuel : Nat) (behind : UInt8) (geometry : DiskGeometry) {call : FormatCall}
    (h : call.Accepted) (m : Mount) :
    ∃ drive : DriveTrait, drive.Usable ∧ format fuel behind geometry call m =
      (epmPhase fuel call drive >>= fun drive =>
        Call.rounds (formatRound fuel behind geometry call.partName) fuel
          (drive, kNeFSRootCatalogStartAddress, rootBlock m.disk)) m := by
  have hgood : (call.drive.withMime nefsMime).fPacket.fPacketGood = true := h.usable.good
  refine ⟨(call.drive.withMime nefsMime).withPacket kNeFSRootCatalogStartAddress superBlockSize,
    ⟨h.usable.good, h.usable.writable⟩, ?_⟩
  unfold format
  simp only [h.named, h.sized, or_self, if_false, hgood, Bool.true_eq_false]
  rfl

/-- What a call leaves on the disk, whatever the mount and however long the call is given from some point on. -/
def LeavesDisk (behind : UInt8) (geometry : DiskGeometry) (call : FormatCall) (disk disk' : Store) : Prop :=
  ∃ n, ∀ (m : Mount) (fuel : Nat), m.disk = disk → n < fuel → (format fuel behind geometry call m).2.disk = disk'

theorem LeavesDisk.unique {call : FormatCall} {disk disk₁ disk₂ : Store}
    (h₁ : LeavesDisk behind geometry call disk disk₁) (h₂ : LeavesDisk behind geometry call disk disk₂) :
    disk₁ = disk₂ := by
  obtain ⟨n₁, h₁⟩ := h₁
  obtain ⟨n₂, h₂⟩ := h₂
  let m : Mount := ⟨disk, call.drive, []⟩
  rw [← h₁ m (n₁ + n₂ + 1) rfl (by omega), h₂ m (n₁ + n₂ + 1) rfl (by omega)]

/-- The disk behind the walk. -/
def epmWritten (call : FormatCall) (disk : Store) (k : Nat) : Store :=
  disk.put EpmPartBlock.codec (epmSlot k) ((epmScan disk k).entry call.endLba)

theorem leaves_unbootable (behind : UInt8) (geometry : DiskGeometry) {call : FormatCall} (h : call.Accepted)
    (hboot : ¬call.bootable) (disk : Store) :
    ∃ disk', SearchLeaves behind geometry call.partName disk (kNeFSRootCatalogStartAddress, rootBlock disk) disk' ∧
      LeavesDisk behind geometry call disk disk' := by
  obtain ⟨disk', hleaves, n, hsearch⟩ := search_leaves behind geometry call.partName disk
    (kNeFSRootCatalogStartAddress, rootBlock disk)
  refine ⟨disk', hleaves, n, ?_⟩
  rintro m fuel rfl hfuel
  obtain ⟨drive, hdrive, heq⟩ := format_accepted fuel behind geometry h m
  have hphase : epmPhase fuel call drive m = (.ok drive, m) := by
    unfold epmPhase
    rw [if_neg hboot]
    rfl
  rw [heq, Call.bind_of_ok hphase]
  exact hsearch m drive fuel fuel rfl hdrive hfuel

theorem leaves_bootable (behind : UInt8) (geometry : DiskGeometry) {call : FormatCall} (h : call.Accepted)
    (hboot : call.bootable) {disk : Store} {k : Nat} (htable : EpmTable disk k) :
    ∃ disk', SearchLeaves behind geometry call.partName (epmWritten call disk k)
      (kNeFSRootCatalogStartAddress, rootBlock disk) disk' ∧ LeavesDisk behind geometry call disk disk' := by
  obtain ⟨disk', hleaves, n, hsearch⟩ := search_leaves behind geometry call.partName (epmWritten call disk k)
    (kNeFSRootCatalogStartAddress, rootBlock disk)
  refine ⟨disk', hleaves, n + k, ?_⟩
  rintro m fuel rfl hfuel
  obtain ⟨drive, hdrive, heq⟩ := format_accepted fuel behind geometry h m
  obtain ⟨drive', m', hwalk, hdrive', hdisk⟩ := epmWalk call.endLba fuel htable hdrive
    (Nat.zero_le k) (by omega)
  have hphase : epmPhase fuel call drive m = (.ok drive', m') := by
    unfold epmPhase
    rw [if_pos hboot]
    exact hwalk
  rw [heq, Call.bind_of_ok hphase]
  exact hsearch m' drive' fuel fuel hdisk hdrive' (by omega)

end Mount

end OpenNE

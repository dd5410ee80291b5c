import OpenNE.NeFS.FormatRun

/-!
# Formatting behind existing partitions

The search of `Format` advances `start` from superblock to superblock, but the packet of the new one is
addressed to `kNeFSRootCatalogStartAddress` all the same (`format_sent`). So behind a chain of partitions no
superblock is ever written: it goes over the first of the chain.
-/

namespace OpenNE

/-- A superblock of an existing partition. -/
def NfsSuperBlock.IsValid (behind : UInt8) (part : NfsSuperBlock) : Prop :=
  part.Ident = identChars behind ∧ part.PartitionName.1.head? ≠ some 0

theorem NfsSuperBlock.IsValid.not_free {behind : UInt8} {part : NfsSuperBlock} (h : part.IsValid behind) :
    part.isFree behind = false := by
  simp [NfsSuperBlock.isFree, h.2]

/-- The `i`-th block reached from `kNeFSRootCatalogStartAddress` by adding `DiskSize`, and its address. -/
abbrev partitionAt (disk : Store) (i : Nat) : Lba × NfsSuperBlock := searched disk (rootBlock disk) i

/-- `k` partitions one behind the other and a free block at `start` behind them. -/
structure PartitionChain (behind : UInt8) (disk : Store) (k : Nat) (start : Lba) : Prop where
  valid : ∀ i < k, (partitionAt disk i).2.IsValid behind
  free : (partitionAt disk k).2.isFree behind = true
  address : (partitionAt disk k).1 = start

/-- What a format behind `k` partitions is for: it returns true, a superblock is sent to `start`, and the `k`
superblocks and their catalogs are what they were. -/
structure FormatsBehind (k : Nat) (start : Lba) (m : Mount) (r : Exec (Bool × DriveTrait) × Mount) : Prop where
  returns : ∃ drive, r.1 = .ok (true, drive)
  written : ∃ ps p, r.2.sent = m.sent ++ ps ∧ p ∈ ps ∧ p.fPacketSize = superBlockSize ∧ p.fPacketLba = start
  superBlocks : ∀ i < k, r.2.disk.read (partitionAt m.disk i).1.toNat superBlockSize =
    m.disk.read (partitionAt m.disk i).1.toNat superBlockSize
  catalogs : ∀ i < k, ∀ j < (partitionAt m.disk i).2.CatalogCount.toNat,
    let lba := (partitionAt m.disk i).2.StartCatalog.toNat + j * catalogStride.toNat
    r.2.disk.read lba catalogSize = m.disk.read lba catalogSize

namespace Mount

/-- Every superblock sent since `sent` went to `kNeFSRootCatalogStartAddress`. -/
def SentToRoot (sent : List DrivePacket) (m : Mount) : Prop :=
  ∃ ps, m.sent = sent ++ ps ∧ ∀ p ∈ ps, p.fPacketSize = superBlockSize → p.fPacketLba = kNeFSRootCatalogStartAddress

variable {sent : List DrivePacket} {α : Type} {c : Codec α} {v : α} {lba : Lba} {drive : DriveTrait}

theorem writeRecord_sent (h : c.size = superBlockSize → lba = kNeFSRootCatalogStartAddress) :
    Call.Keeps (SentToRoot sent) (fun _ => True) (writeRecord c lba v drive) := by
  apply Call.Keeps.seq
  · apply Call.Keeps.modify
    intro m hm
    obtain ⟨ps, hsent, hps⟩ := hm
    have hmore : SentToRoot sent { m with sent := m.sent ++ [(drive.withPacket lba c.size).fPacket] } := by
      refine ⟨ps ++ [(drive.withPacket lba c.size).fPacket], ?_, ?_⟩
      · rw [← List.append_assoc, ← hsent]
      · intro p hp
        rcases List.mem_append.mp hp with hp | hp
        · exact hps p hp
        · rw [List.mem_singleton.mp hp]
          exact h
    dsimp only
    split
    · exact hmore
    · exact hmore
  · intro _
    exact .pure trivial

theorem readRecord_sent : Call.Keeps (SentToRoot sent) (fun _ => True) (readRecord c lba drive) := by
  apply Call.Keeps.seq (.gets fun _ _ => trivial)
  intro content
  exact .pure trivial

theorem epmPhase_sent (fuel : Nat) (call : FormatCall) :
    Call.Keeps (SentToRoot sent) (fun _ => True) (epmPhase fuel call drive) := by
  unfold epmPhase
  split
  · refine Call.Keeps.rounds (fun s (_ : True) => ?_) fuel trivial
    obtain ⟨drive, scan⟩ := s
    unfold epmRound
    dsimp only
    split
    · exact .pure trivial
    · apply readRecord_sent.seq
      intro found
      split
      · have hsize : EpmPartBlock.codec.size ≠ superBlockSize := by decide
        apply (writeRecord_sent fun h => absurd h hsize).seq
        intro drive
        exact .pure trivial
      · exact .pure trivial
  · exact .pure trivial

theorem formatRound_sent (fuel : Nat) (behind : UInt8) (geometry : DiskGeometry) (partName : CString)
    (s : DriveTrait × Lba × NfsSuperBlock) :
    Call.Keeps (SentToRoot sent) (Sum.elim (fun _ => True) fun _ => True)
      (formatRound fuel behind geometry partName s) := by
  obtain ⟨drive, start, part⟩ := s
  have hroot : IgnoresDrive (SentToRoot sent) := fun _ _ hm => hm
  unfold formatRound
  dsimp only
  split
  · exact .pure trivial
  · split
    · split
      · apply (writeRecord_sent fun _ => rfl).seq
        intro drive
        apply (createRoot_keeps hroot fuel).seq
        intro catalog
        exact .pure trivial
      · exact .stop _
    · apply readRecord_sent.seq
      intro found
      exact .pure trivial

theorem format_sent (fuel : Nat) (behind : UInt8) (geometry : DiskGeometry) (call : FormatCall) (m : Mount) :
    SentToRoot m.sent (format fuel behind geometry call m).2 := by
  have hkeeps : Call.Keeps (SentToRoot m.sent) (fun _ => True) (format fuel behind geometry call) := by
    unfold format
    dsimp only
    split
    · exact .pure trivial
    · split
      · exact .pure trivial
      · apply readRecord_sent.seq
        intro found
        apply (epmPhase_sent fuel call).seq
        intro drive
        exact .rounds (fun s _ => formatRound_sent fuel behind geometry call.partName s) fuel trivial
  exact (hkeeps m ⟨[], (List.append_nil _).symm, fun _ h => absurd h List.not_mem_nil⟩).1

end Mount

open Mount (format LeavesDisk)

theorem PartitionChain.start_ne {behind : UInt8} {disk : Store} {k : Nat} {start : Lba}
    (h : PartitionChain behind disk k start) (hk : 1 ≤ k) : start ≠ kNeFSRootCatalogStartAddress := by
  intro heq
  obtain ⟨n, rfl⟩ : ∃ n, k = n + 1 := ⟨k - 1, by omega⟩
  have hfirst : (rootBlock disk).isFree behind = false := (h.valid 0 (by omega)).not_free
  have haddress := h.address
  have hfree := h.free
  have hlast : partitionAt disk (n + 1) = searchNext disk (partitionAt disk n) := Function.iterate_succ_apply' _ _ _
  rw [hlast] at haddress hfree
  -- the last block was read from the disk, at the address of the first
  have hsame : (searchNext disk (partitionAt disk n)).2 = rootBlock disk := by
    show disk.get NfsSuperBlock.codec (searchNext disk (partitionAt disk n)).1.toNat = _
    rw [haddress, heq]
  rw [hsame, hfirst] at hfree
  cases hfree

theorem PartitionChain.not_formatsBehind {behind : UInt8} {m : Mount} {k : Nat} {start : Lba}
    (h : PartitionChain behind m.disk k start) (hk : 1 ≤ k) (fuel : Nat) (geometry : DiskGeometry)
    (call : FormatCall) : ¬FormatsBehind k start m (format fuel behind geometry call m) := by
  intro hformats
  obtain ⟨ps, p, hsent, hp, hsize, hlba⟩ := hformats.written
  obtain ⟨ps', hsent', hroot⟩ := Mount.format_sent fuel behind geometry call m
  have hps : ps = ps' := List.append_cancel_left (hsent.symm.trans hsent')
  exact h.start_ne hk (hlba.symm.trans (hroot p (hps ▸ hp) hsize))

/-- On a disk with partitions `Format` never does what it is for. -/
theorem format_never_behind (fuel : Nat) (behind : UInt8) (geometry : DiskGeometry) (call : FormatCall) (m : Mount)
    (k : Nat) (start : Lba) (hk : 1 ≤ k) (hchain : PartitionChain behind m.disk k start) :
    ¬FormatsBehind k start m (format fuel behind geometry call m) :=
  hchain.not_formatsBehind hk fuel geometry call

/-! ### One partition -/

/-- The superblock of a partition of 4096 bytes. -/
def partitionBlock : NfsSuperBlock := { NfsSuperBlock.zero with
  Ident := identChars 0
  PartitionName := letterA.field kPartLen
  DiskSize := 4096 }

/-- A zeroed disk with that partition on it. -/
def partitionDisk : Store :=
  Store.put NfsSuperBlock.codec (fun _ => 0) kNeFSRootCatalogStartAddress.toNat partitionBlock

theorem partitionDisk_root : rootBlock partitionDisk = partitionBlock := Store.get_put_same

/-- `Format("b")`. -/
def formatCall : FormatCall := ⟨{ fName := "/media/sda/" }, 1000, 0, letterB⟩

theorem partitionDisk_second : partitionAt partitionDisk 1 = (5120, .zero) := by
  have haddress : kNeFSRootCatalogStartAddress + partitionBlock.DiskSize = 5120 := by decide
  show searchNext partitionDisk (kNeFSRootCatalogStartAddress, rootBlock partitionDisk) = _
  rw [partitionDisk_root, searchNext, haddress, UInt64.toNat_ofNat]
  have hzero : ∀ x, 5120 ≤ x → x < 5120 + NfsSuperBlock.codec.size → partitionDisk x = 0 := by
    intro x hx _
    have hbehind : kNeFSRootCatalogStartAddress.toNat + NfsSuperBlock.codec.size ≤ x := Nat.le_trans (by decide) hx
    exact Store.put_apply_outside (.inr hbehind)
  exact congrArg (Prod.mk 5120) ((Store.get_zeroed hzero).trans NfsSuperBlock.dec_zeros)

theorem partitionDisk_valid : partitionBlock.IsValid 0 := ⟨rfl, by decide⟩

theorem partitionDisk_chain : PartitionChain 0 partitionDisk 1 5120 := by
  refine ⟨?_, ?_, ?_⟩
  · intro i hi
    obtain rfl : i = 0 := by omega
    show (rootBlock partitionDisk).IsValid 0
    rw [partitionDisk_root]
    exact partitionDisk_valid
  · rw [partitionDisk_second]
    exact NfsSuperBlock.isFree_zero 0
  · rw [partitionDisk_second]

theorem format_never_behind_one : ¬FormatsBehind 1 5120 ⟨partitionDisk, formatCall.drive, []⟩
    (format 2 0 smallGeometry formatCall ⟨partitionDisk, formatCall.drive, []⟩) :=
  format_never_behind 2 0 smallGeometry formatCall _ 1 5120 (Nat.le_refl 1) partitionDisk_chain

/-- However long it is given, the name of the partition is replaced by that of the new one. -/
theorem format_overwrites : PartitionChain 0 partitionDisk 1 5120 ∧
    (∀ m fuel, m.disk = partitionDisk → ¬FormatsBehind 1 5120 m (format fuel 0 smallGeometry formatCall m)) ∧
    (rootBlock partitionDisk).PartitionName.1.head? = some 97 ∧
    ∃ disk', LeavesDisk 0 smallGeometry formatCall partitionDisk disk' ∧
      (rootBlock disk').PartitionName.1.head? = some 98 := by
  have haccepted : formatCall.Accepted := ⟨by decide, by decide, ⟨rfl, rfl⟩⟩
  have hname : NameFits formatCall.partName := by decide
  obtain ⟨disk', hleaves, hdisk⟩ := Mount.leaves_unbootable 0 smallGeometry haccepted (by decide) partitionDisk
  refine ⟨partitionDisk_chain, ?_, ?_, disk', hdisk, ?_⟩
  · intro m fuel hm
    have hchain : PartitionChain 0 m.disk 1 5120 := by
      rw [hm]
      exact partitionDisk_chain
    exact hchain.not_formatsBehind (Nat.le_refl 1) fuel smallGeometry formatCall
  · rw [partitionDisk_root]
    rfl
  · cases hleaves with
    | written n hfree _ =>
      rw [rootBlock_put]
      rfl
    | tooLong n hfree hlong => exact absurd hname hlong
    | endless hfull =>
      -- the block behind the partition is free
      have hfree := partitionDisk_chain.free
      rw [partitionAt, searched, hfull 1] at hfree
      cases hfree

end OpenNE

import OpenNE.NeFS.CatalogRun
import OpenNE.NeFS.Fork

/-!
# Writing and reading a file

On a drive that `Format` set up, the forks of a catalog begin near the end of the disk. `CreateFork` goes
on only when they begin below `kNeFSCatalogStartAddress`, where `WriteCatalog` and `ReadCatalog` do not look:
no fork is ever created (`createFork_refused`), and nothing is read back (`no_round_trip`).
-/

namespace OpenNE

/-- A zeroed drive of `sectorCount` sectors as `Format` leaves it. -/
structure FormattedBy (sectorCount : Nat) (d : Drive) : Prop extends Formatted d where
  bytes : sectorCount * 512 < 2 ^ 64
  diskSize : d.superBlock.DiskSize = UInt64.ofNat (sectorCount * 512)
  freeCatalog : d.superBlock.FreeCatalog = UInt64.ofNat (sectorCount / catalogSize)

/-- A fork of `data.length` bytes for the catalog `name`. -/
structure ForkFor (name forkName : CString) (data : List UInt8) (fork : NfsForkStruct) : Prop where
  named : forkName.1 ≠ [] ∧ forkName.length < kNeFSForkNameLen
  catalogField : fork.CatalogName = name.field kNeFSNodeNameLen
  forkField : fork.ForkName = forkName.field kNeFSForkNameLen
  dataSize : fork.DataSize = UInt64.ofNat data.length
  sized : 0 < data.length ∧ data.length ≤ kNeFSForkSize

/-- `CreateFork` returns `YES`, `WriteCatalog` then returns true, and `ReadCatalog` of the catalog returns a
buffer that begins with the data. -/
def RoundTrip (debug isRsrcFork : Bool) (stale : NfsForkStruct) (d : Drive) (name forkName : CString)
    (data : List UInt8) (fork : NfsForkStruct) : Prop :=
  ∃ fuel d₁ fork' d₂ catalog buf,
    createFork debug fuel stale d fork = .ok (d₁, fork', true) ∧
    writeCatalog fuel d₁ (some name) isRsrcFork data (some forkName) = .ok (d₂, true) ∧
    getCatalog fuel d₂ (some name) = .ok (some catalog) ∧
    readCatalog fuel d₂ (some catalog) isRsrcFork (some forkName) = .ok (some buf) ∧
    buf.take data.length = data

theorem NfsForkStruct.catalogString_field {fork : NfsForkStruct} {s : CString}
    (hs : s.length < kNeFSNodeNameLen) (hf : fork.CatalogName = s.field kNeFSNodeNameLen) :
    fork.catalogString = .ok s := by
  obtain ⟨k, hk⟩ := CString.field_eq hs
  show cString ((fork.ForkName.1 ++ (fork.CatalogName.1 ++ _)).drop kNeFSForkNameLen) = .ok s
  rw [List.drop_left' fork.ForkName.2, hf, hk, List.append_assoc]
  exact cString_terminated

theorem Chain.dataFork_high {sectorCount : Nat} {d₀ d : Drive} (hd : FormattedBy sectorCount d₀)
    {made : List Entry} (hc : Chain d₀.superBlock made d) {i : Nat} (hi : i < made.length) :
    kNeFSCatalogStartAddress ≤ (d.catalogAt (slotLba i)).DataFork := by
  have hbytes := hd.bytes
  have hfree := hc.freeCatalog
  have hslot := slotLba_toNat (hc.fits i hi)
  rw [hd.freeCatalog, UInt64.toNat_ofNat', Nat.mod_eq_of_lt (by unfold catalogSize; omega)] at hfree
  have hcount : made.length * 514 ≤ sectorCount := by
    have hle : made.length ≤ sectorCount / catalogSize := by omega
    exact Nat.mul_le_of_le_div _ _ _ hle
  have hhigh : slot i + kNeFSCatalogStartAddress.toNat ≤ sectorCount * 512 := by
    rw [startAddress_toNat, slot_eq]
    omega
  have hsize : (UInt64.ofNat (sectorCount * 512)).toNat = sectorCount * 512 := by
    rw [UInt64.toNat_ofNat', Nat.mod_eq_of_lt hbytes]
  have hle : slotLba i ≤ UInt64.ofNat (sectorCount * 512) := by
    rw [UInt64.le_iff_toNat_le, hslot, hsize]
    exact Nat.le_trans (Nat.le_add_right _ _) hhigh
  rw [(hc.record i hi).dataFork, hd.diskSize, UInt64.le_iff_toNat_le, UInt64.toNat_sub_of_le _ _ hle,
    hsize, hslot]
  exact Nat.le_sub_of_add_le' hhigh

theorem Chain.getCatalog_eq {fmt : NfsSuperBlock} {made : List Entry} {d : Drive} (hc : Chain fmt made d)
    {m : Entry} (hm : m ∈ made) {fuel : Nat} {r : Option NfsCatalogStruct}
    (h : getCatalog fuel d (some m.name) = .ok r) :
    ∃ i < made.length, r = some (d.catalogAt (slotLba i)) := by
  obtain ⟨found, hfind, rfl⟩ := Exec.exists_of_map h
  obtain ⟨f, hf, rfl⟩ := hc.findCatalog_eq (hc.nonempty m hm) hfind
  rcases f with _ | ⟨c, lba⟩
  · exact absurd rfl (name_new hf m hm)
  · obtain ⟨i, hi, -, rfl, -⟩ := hf
    exact ⟨i, hi, rfl⟩

theorem Chain.createFork_refused {sectorCount : Nat} {d₀ d d' : Drive} (hd : FormattedBy sectorCount d₀)
    {made : List Entry} (hc : Chain d₀.superBlock made d) {m : Entry} (hm : m ∈ made)
    {fork fork' : NfsForkStruct} (hname : fork.CatalogName = m.name.field kNeFSNodeNameLen)
    {debug : Bool} {fuel : Nat} {stale : NfsForkStruct} :
    createFork debug fuel stale d fork ≠ .ok (d', fork', true) := by
  intro h
  have hshort : m.name.length < kNeFSNodeNameLen := by
    obtain ⟨i, hi, rfl⟩ := List.mem_iff_getElem.mp hm
    exact (hc.record i hi).short
  unfold createFork at h
  split at h
  · rw [NfsForkStruct.catalogString_field hshort hname, Exec.ok_bind] at h
    obtain ⟨r, hget, h⟩ := Exec.bind_eq_ok.mp h
    obtain ⟨i, hi, rfl⟩ := hc.getCatalog_eq hm hget
    simp only at h
    rw [if_neg (UInt64.not_lt.mpr (Chain.dataFork_high hd hc hi))] at h
    unfold mustTryFailed at h
    split at h <;> cases h
  · cases h

theorem Chain.createFork_release {sectorCount : Nat} {d₀ d : Drive} (hd : FormattedBy sectorCount d₀)
    {made : List Entry} (hc : Chain d₀.superBlock made d) {m : Entry} (hm : m ∈ made)
    {fork : NfsForkStruct} (hname : fork.CatalogName = m.name.field kNeFSNodeNameLen) (stale : NfsForkStruct) :
    ∃ fuel, createFork false fuel stale d fork = .ok (d, fork, false) := by
  obtain ⟨i, hi, rfl⟩ := List.mem_iff_getElem.mp hm
  obtain ⟨f, hf, hret⟩ := hc.findCatalog_returns (hc.nonempty _ hm)
  rcases f with _ | ⟨c, lba⟩
  · exact absurd rfl (name_new hf _ hm)
  obtain ⟨j, hj, -, rfl, -⟩ := hf
  refine ⟨made.length + 1, ?_⟩
  unfold createFork
  split
  · rw [NfsForkStruct.catalogString_field (hc.record i hi).short hname, Exec.ok_bind, getCatalog,
      hret _ _ (Nat.lt_succ_self _)]
    simp only [Except.map, foundAt, Exec.ok_bind]
    rw [if_neg (UInt64.not_lt.mpr (Chain.dataFork_high hd hc hj))]
    rfl
  · rfl

/-- No data written to a catalog, of whatever kind, is read back: `CreateFork` gives it no fork. -/
theorem no_round_trip (sectorCount : Nat) (d : Drive) (hd : FormattedBy sectorCount d)
    (calls : List CreateCall) (s : Drive × List Entry) (hrun : Run CreateStep (d, []) calls s) (m : Entry)
    (hm : m ∈ s.2) (forkName : CString) (data : List UInt8) (fork : NfsForkStruct)
    (hfork : ForkFor m.name forkName data fork) (debug isRsrcFork : Bool) (stale : NfsForkStruct) :
    ¬RoundTrip debug isRsrcFork stale s.1 m.name forkName data fork := by
  rintro ⟨fuel, d₁, fork', d₂, catalog, buf, hcreate, -⟩
  exact Chain.createFork_refused hd (hd.chain_of_creates hrun) hm hfork.catalogField hcreate

/-- The fork `m` of one byte for `/ab`. -/
def oneByteFork : NfsForkStruct := { NfsForkStruct.zero with
  CatalogName := fileName.field kNeFSNodeNameLen
  ForkName := CString.field kNeFSForkNameLen ⟨[109], by decide⟩
  DataSize := 1 }

theorem oneByteFork_for : ForkFor fileName ⟨[109], by decide⟩ [7] oneByteFork where
  named := ⟨by decide, by decide⟩
  catalogField := rfl
  forkField := rfl
  dataSize := rfl
  sized := by decide

theorem smallDrive_formatted : FormattedBy 2056 smallDrive where
  toFormatted := Formatted.blank rfl
  bytes := by decide
  diskSize := congrArg NfsSuperBlock.DiskSize Store.get_put_same
  freeCatalog := congrArg NfsSuperBlock.FreeCatalog Store.get_put_same

theorem no_round_trip_small : ∃ s, Run CreateStep (smallDrive, []) [fileCall] s ∧
    ¬RoundTrip false false NfsForkStruct.zero s.1 fileName ⟨[109], by decide⟩ [7] oneByteFork := by
  obtain ⟨d, hrun⟩ := createRun_small
  exact ⟨_, hrun, no_round_trip 2056 smallDrive smallDrive_formatted _ _ hrun _ (List.mem_singleton_self _)
    _ _ _ oneByteFork_for false false _⟩

/-- `CreateFork` of one byte on `/ab` returns `NO` in a build without runtime checks. -/
theorem one_byte_refused : ∃ d, Run CreateStep (smallDrive, []) [fileCall]
      (d, [⟨fileName, kNeFSCatalogKindFile⟩]) ∧
    (∃ fuel, createFork false fuel NfsForkStruct.zero d oneByteFork = .ok (d, oneByteFork, false)) ∧
    ¬RoundTrip false false NfsForkStruct.zero d fileName ⟨[109], by decide⟩ [7] oneByteFork := by
  obtain ⟨d, hrun⟩ := createRun_small
  have hc := smallDrive_formatted.chain_of_creates hrun
  refine ⟨d, hrun, hc.createFork_release smallDrive_formatted (List.mem_singleton_self _) rfl _, ?_⟩
  rintro ⟨fuel, d₁, fork', d₂, catalog, buf, hcreate, -⟩
  exact hc.createFork_refused smallDrive_formatted (List.mem_singleton_self _) rfl hcreate

end OpenNE

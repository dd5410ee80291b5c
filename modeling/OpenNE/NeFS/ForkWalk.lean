import OpenNE.NeFS.CatalogRun
import OpenNE.NeFS.Walks

/-!
# What `WriteCatalog` and `ReadCatalog` find

The headers of a catalog's forks are a chain along `NextSibling`, as long as the addresses are in the catalog
area. `WriteCatalog` finds the first header it should and replaces its data and nothing else, unless it comes to
one before whose names have no end in the record (`writeCatalog_exact_iff`). `ReadCatalog` stops one address too
early but only gives up below that address, so a chain that comes to the first address of the area misleads it
(`readCatalog_right_iff`).
-/

namespace OpenNE

/-! ### Chains of fork headers -/

/-- The address `n` headers behind `start`. -/
def Drive.forkAddress (d : Drive) (start : Lba) (n : Nat) : Lba := (fun lba => (d.forkAt lba).NextSibling)^[n] start

def Drive.forkHeader (d : Drive) (start : Lba) (n : Nat) : NfsForkStruct := d.forkAt (d.forkAddress start n)

/-- The chain from `start` has a header `n`. -/
def Drive.OnForks (d : Drive) (start : Lba) (n : Nat) : Prop :=
  ∀ k ≤ n, kNeFSCatalogStartAddress ≤ d.forkAddress start k

/-- Header `n` is the first one that is `wanted`. -/
structure Drive.FirstFork (d : Drive) (start : Lba) (wanted : NfsForkStruct → Prop) (n : Nat) : Prop where
  onForks : d.OnForks start n
  hit : wanted (d.forkHeader start n)
  first : ∀ k < n, ¬wanted (d.forkHeader start k)

/-- The chain has a header that is `wanted`. -/
def Drive.HasFork (d : Drive) (start : Lba) (wanted : NfsForkStruct → Prop) : Prop :=
  ∃ n, d.OnForks start n ∧ wanted (d.forkHeader start n)

/-- `DataFork`, or `ResourceFork` for a resource. -/
def NfsCatalogStruct.firstFork (catalog : NfsCatalogStruct) (isRsrcFork : Bool) : Lba :=
  if isRsrcFork then catalog.ResourceFork else catalog.DataFork

/-! ### Names of a header -/

/-- The header has that fork name and the catalog name of `owner`. -/
def NfsForkStruct.Named (fork : NfsForkStruct) (forkName : CString) (owner : Exec CString) : Prop :=
  fork.nameString = .ok forkName ∧ ∃ name, fork.catalogString = .ok name ∧ owner = .ok name

/-- `Equals` reads on behind a record: the fork name has no end in it, or it is the right one and one of the
catalog names has none. -/
def NfsForkStruct.Endless (fork : NfsForkStruct) (forkName : CString) (owner : Exec CString) : Prop :=
  fork.nameString = .error .fault ∨
    fork.nameString = .ok forkName ∧ (fork.catalogString = .error .fault ∨ owner = .error .fault)

/-- What `WriteCatalog` looks for. -/
structure NfsForkStruct.Wanted (forkName catalogName : CString) (size : Nat) (fork : NfsForkStruct) : Prop where
  created : fork.hasCreated = true
  named : fork.Named forkName (.ok catalogName)
  dataSize : fork.DataSize.toNat = size

theorem NfsForkStruct.isNamed_cases (fork : NfsForkStruct) (forkName : CString) {owner : Exec CString}
    (howner : OnlyFaults owner) :
    (fork.Named forkName owner ∧ ¬fork.Endless forkName owner ∧ fork.isNamed (.ok forkName) owner = .ok true) ∨
      (¬fork.Named forkName owner ∧ ¬fork.Endless forkName owner ∧ fork.isNamed (.ok forkName) owner = .ok false) ∨
      ¬fork.Named forkName owner ∧ fork.Endless forkName owner ∧
        fork.isNamed (.ok forkName) owner = .error .fault := by
  unfold isNamed Named Endless
  rcases hname : fork.nameString with e | name
  · obtain rfl : e = .fault := cString_stop hname
    exact .inr (.inr ⟨by simp, .inl rfl, rfl⟩)
  rw [Exec.ok_bind, Exec.ok_bind]
  by_cases hsame : name = forkName
  · rw [if_pos hsame, hsame]
    rcases hcatalog : fork.catalogString with e | found
    · obtain rfl : e = .fault := cString_stop hcatalog
      exact .inr (.inr ⟨by simp, by simp, rfl⟩)
    rcases owner with e | name
    · obtain rfl : e = .fault := howner e rfl
      exact .inr (.inr ⟨by simp, by simp, rfl⟩)
    · simp only [Exec.ok_bind]
      by_cases heq : found = name
      · exact .inl ⟨by simp [heq], by simp, by simp [heq]⟩
      · exact .inr (.inl ⟨by simpa using Ne.symm heq, by simp, by simp [heq]⟩)
  · rw [if_neg hsame]
    exact .inr (.inl ⟨fun h => hsame (Except.ok.inj h.1), by simp [hsame], rfl⟩)

/-! ### Rounds -/

section Rounds

variable {d : Drive} {start : Lba} {forkName catalogName : CString} {data : List UInt8}

theorem forkAddress_succ (n : Nat) : d.forkAddress start (n + 1) = (d.forkHeader start n).NextSibling :=
  Function.iterate_succ_apply' _ _ _

/-- What a round of `WriteCatalog` does at `lba`. -/
inductive WriteRound (d : Drive) (catalogName : CString) (data : List UInt8) (forkName : CString) (lba : Lba) :
    Exec (Lba ⊕ Drive × Bool) → Prop
  | below (h : lba < kNeFSCatalogStartAddress) : WriteRound d catalogName data forkName lba (.ok (.inr (d, false)))
  | hit (h : kNeFSCatalogStartAddress ≤ lba) (hwanted : (d.forkAt lba).Wanted forkName catalogName data.length)
      (hends : ¬(d.forkAt lba).Endless forkName (.ok catalogName)) :
      WriteRound d catalogName data forkName lba
        (.ok (.inr (d.outputBytes (d.forkAt lba).DataOffset data, true)))
  | next (h : kNeFSCatalogStartAddress ≤ lba) (hother : ¬(d.forkAt lba).Wanted forkName catalogName data.length)
      (hends : (d.forkAt lba).hasCreated = true → ¬(d.forkAt lba).Endless forkName (.ok catalogName)) :
      WriteRound d catalogName data forkName lba (.ok (.inl (d.forkAt lba).NextSibling))
  | endless (h : kNeFSCatalogStartAddress ≤ lba) (hcreated : (d.forkAt lba).hasCreated = true)
      (hendless : (d.forkAt lba).Endless forkName (.ok catalogName)) :
      WriteRound d catalogName data forkName lba (.error .fault)

theorem writeRound_spec (d : Drive) (catalogName : CString) (data : List UInt8) (forkName : CString) (lba : Lba) :
    WriteRound d catalogName data forkName lba (writeRound d catalogName data (some forkName) lba) := by
  unfold writeRound
  by_cases hbelow : lba < kNeFSCatalogStartAddress
  · rw [if_pos hbelow]
    exact .below hbelow
  have hin := UInt64.not_lt.mp hbelow
  rw [if_neg hbelow]
  simp only [deref, NfsForkStruct.isWanted]
  by_cases hcreated : (d.forkAt lba).hasCreated = true
  · rw [if_pos hcreated]
    rcases (d.forkAt lba).isNamed_cases forkName (.ok catalogName) with
      ⟨hnamed, hends, heq⟩ | ⟨hnamed, hends, heq⟩ | ⟨-, hendless, heq⟩
    · rw [heq, Exec.ok_bind]
      by_cases hsize : (d.forkAt lba).DataSize.toNat = data.length
      · rw [if_pos ⟨rfl, hsize⟩]
        exact .hit hin ⟨hcreated, hnamed, hsize⟩ hends
      · rw [if_neg fun h => hsize h.2]
        exact .next hin (fun h => hsize h.dataSize) fun _ => hends
    · rw [heq, Exec.ok_bind, if_neg (by simp)]
      exact .next hin (fun h => hnamed h.named) fun _ => hends
    · rw [heq, Exec.error_bind]
      exact .endless hin hcreated hendless
  · rw [if_neg hcreated, Exec.ok_bind, if_neg (by simp)]
    exact .next hin (fun h => hcreated h.created) fun h => absurd h hcreated

theorem writeRound_next {lba lba' : Lba}
    (h : writeRound d catalogName data (some forkName) lba = .ok (.inl lba')) :
    lba' = (d.forkAt lba).NextSibling ∧ kNeFSCatalogStartAddress ≤ lba ∧
      ¬(d.forkAt lba).Wanted forkName catalogName data.length ∧
      ((d.forkAt lba).hasCreated = true → ¬(d.forkAt lba).Endless forkName (.ok catalogName)) := by
  have hspec := writeRound_spec d catalogName data forkName lba
  generalize writeRound d catalogName data (some forkName) lba = r at h hspec
  cases hspec with
  | next hin hother hends => exact ⟨(Sum.inl.inj (Except.ok.inj h)).symm, hin, hother, hends⟩
  | below | hit | endless => cases h

/-- What a round of `ReadCatalog` does at `lba`, `last` being the header read before. -/
inductive ReadRound (d : Drive) (catalog : NfsCatalogStruct) (forkName : CString) (lba : Lba)
    (last : Option NfsForkStruct) : Exec (Lba × Option NfsForkStruct ⊕ Lba × Option NfsForkStruct) → Prop
  | below (h : lba ≤ kNeFSCatalogStartAddress) : ReadRound d catalog forkName lba last (.ok (.inr (lba, last)))
  | hit (h : kNeFSCatalogStartAddress < lba) (hnamed : (d.forkAt lba).Named forkName catalog.nameString)
      (hends : ¬(d.forkAt lba).Endless forkName catalog.nameString) :
      ReadRound d catalog forkName lba last (.ok (.inr (lba, some (d.forkAt lba))))
  | next (h : kNeFSCatalogStartAddress < lba) (hother : ¬(d.forkAt lba).Named forkName catalog.nameString)
      (hends : ¬(d.forkAt lba).Endless forkName catalog.nameString) :
      ReadRound d catalog forkName lba last (.ok (.inl ((d.forkAt lba).NextSibling, some (d.forkAt lba))))
  | endless (h : kNeFSCatalogStartAddress < lba)
      (hendless : (d.forkAt lba).Endless forkName catalog.nameString) :
      ReadRound d catalog forkName lba last (.error .fault)

theorem readRound_spec (d : Drive) (forkName : CString) (catalog : NfsCatalogStruct) (lba : Lba)
    (last : Option NfsForkStruct) :
    ReadRound d catalog forkName lba last (readRound d catalog (some forkName) (lba, last)) := by
  unfold readRound
  by_cases hbelow : lba ≤ kNeFSCatalogStartAddress
  · rw [if_pos hbelow]
    exact .below hbelow
  have hin := UInt64.not_le.mp hbelow
  rw [if_neg hbelow]
  simp only [deref]
  have howner : OnlyFaults catalog.nameString := fun _ => cString_stop
  rcases (d.forkAt lba).isNamed_cases forkName howner with
    ⟨hnamed, hends, heq⟩ | ⟨hnamed, hends, heq⟩ | ⟨-, hendless, heq⟩
  · rw [heq, Exec.ok_bind, if_pos rfl]
    exact .hit hin hnamed hends
  · rw [heq, Exec.ok_bind, if_neg (by simp)]
    exact .next hin hnamed hends
  · rw [heq, Exec.error_bind]
    exact .endless hin hendless

end Rounds

/-! ### `WriteCatalog` -/

/-- `WriteCatalog` has found a fork for the data when there is one, and has replaced the data of the first such
fork; without one the disk is as it was. -/
structure WroteExactly (d : Drive) (start : Lba) (forkName catalogName : CString) (data : List UInt8) (d' : Drive)
    (b : Bool) : Prop where
  found : b = true ↔ d.HasFork start (NfsForkStruct.Wanted forkName catalogName data.length)
  written : b = true → ∃ n, d.FirstFork start (NfsForkStruct.Wanted forkName catalogName data.length) n ∧
    (∀ i (h : i < data.length), d'.disk ((d.forkHeader start n).DataOffset.toNat + i) = data[i]) ∧
    ∀ x, x < (d.forkHeader start n).DataOffset.toNat ∨
      (d.forkHeader start n).DataOffset.toNat + data.length ≤ x → d'.disk x = d.disk x
  unchanged : b = false → ∀ x, d'.disk x = d.disk x

/-- Before a fork for the data comes one that exists and whose names have no end in the record. -/
def Drive.EndlessFork (d : Drive) (start : Lba) (forkName catalogName : CString) (size : Nat) : Prop :=
  ∃ n, d.OnForks start n ∧ (∀ k < n, ¬(d.forkHeader start k).Wanted forkName catalogName size) ∧
    (d.forkHeader start n).hasCreated = true ∧ (d.forkHeader start n).Endless forkName (.ok catalogName)

section Write

variable {d : Drive} {start : Lba} {forkName catalogName : CString} {data : List UInt8}

theorem Drive.OnForks.of_lt {n : Nat} (h : ∀ k < n, kNeFSCatalogStartAddress ≤ d.forkAddress start k)
    (hlast : kNeFSCatalogStartAddress ≤ d.forkAddress start n) : d.OnForks start n := by
  intro k hk
  rcases Nat.lt_or_eq_of_le hk with hlt | rfl
  · exact h k hlt
  · exact hlast

theorem Drive.outputBytes_disk (hro : d.fPacketReadOnly = false) (lba : Lba) (bs : List UInt8) :
    (d.outputBytes lba bs).disk = d.disk.write lba.toNat bs := by
  rw [Drive.outputBytes, if_neg (by simp [hro])]

/-- The headers before header `n` are passed by: none is a fork for the data, and the names of those that exist
end. -/
def Drive.WritePasses (d : Drive) (start : Lba) (forkName catalogName : CString) (size : Nat) (n : Nat) : Prop :=
  ∀ k < n, kNeFSCatalogStartAddress ≤ d.forkAddress start k ∧
    ¬(d.forkHeader start k).Wanted forkName catalogName size ∧
    ((d.forkHeader start k).hasCreated = true → ¬(d.forkHeader start k).Endless forkName (.ok catalogName))

theorem Drive.WritePasses.not_endlessFork {n : Nat} (h : d.WritePasses start forkName catalogName data.length n)
    (hstop : kNeFSCatalogStartAddress ≤ d.forkAddress start n →
      (d.forkHeader start n).Wanted forkName catalogName data.length ∧
        ¬(d.forkHeader start n).Endless forkName (.ok catalogName)) :
    ¬d.EndlessFork start forkName catalogName data.length := by
  rintro ⟨m, hon, hbefore, hcreated, hendless⟩
  rcases Nat.lt_trichotomy m n with hlt | rfl | hgt
  · exact (h m hlt).2.2 hcreated hendless
  · exact (hstop (hon m (Nat.le_refl m))).2 hendless
  · exact hbefore n hgt (hstop (hon n (Nat.le_of_lt hgt))).1

theorem writeLoop_walk (hends : ¬ Circular (d.writeSibling catalogName data.length (some forkName)) start) :
    ∃ n, d.WritePasses start forkName catalogName data.length n ∧
      (∀ lba, writeRound d catalogName data (some forkName) (d.forkAddress start n) ≠ .ok (.inl lba)) ∧
      ∀ {result}, (∀ rest, loop (writeRound d catalogName data (some forkName)) (rest + 1)
        (d.forkAddress start n) = result) →
          ∀ fuel, n < fuel → loop (writeRound d catalogName data (some forkName)) fuel start = result := by
  obtain ⟨n, hrounds, hlast⟩ := (writeRound_follows catalogName data (some forkName)).exists_rounds
    (s := d.forkAddress start) (fun k s' hround => (writeRound_next hround).1.trans (forkAddress_succ k).symm) hends
  refine ⟨n, fun k hk => (writeRound_next (hrounds k hk)).2, hlast, ?_⟩
  intro result hresult fuel hfuel
  exact loop_result_of_rounds hrounds hresult hfuel

theorem writeLoop_exact (hro : d.fPacketReadOnly = false)
    (hends : ¬ Circular (d.writeSibling catalogName data.length (some forkName)) start) :
    ∃ n result, (∀ fuel, n < fuel → loop (writeRound d catalogName data (some forkName)) fuel start = result) ∧
      ((¬d.EndlessFork start forkName catalogName data.length ∧
          ∃ d' b, result = .ok (d', b) ∧ WroteExactly d start forkName catalogName data d' b) ∨
        d.EndlessFork start forkName catalogName data.length ∧ result = .error .fault) := by
  obtain ⟨n, hpasses, hlast, hrun⟩ := writeLoop_walk hends
  have hspec := writeRound_spec d catalogName data forkName (d.forkAddress start n)
  generalize hr : writeRound d catalogName data (some forkName) (d.forkAddress start n) = r at hspec
  refine ⟨n, ?_⟩
  cases hspec with
  | below h =>
    refine ⟨.ok (d, false), hrun (loop_succ_leave hr),
      .inl ⟨hpasses.not_endlessFork fun hin => absurd h (UInt64.not_lt.mpr hin), d, false, rfl, ?_, by simp,
        fun _ _ => rfl⟩⟩
    refine iff_of_false (by simp) ?_
    rintro ⟨k, hon, hwanted⟩
    rcases Nat.lt_or_ge k n with hlt | hge
    · exact (hpasses k hlt).2.1 hwanted
    · exact UInt64.not_lt.mpr (hon n hge) h
  | hit h hwanted hnames =>
    have hfirst : d.FirstFork start (NfsForkStruct.Wanted forkName catalogName data.length) n :=
      ⟨.of_lt (fun k hk => (hpasses k hk).1) h, hwanted, fun k hk => (hpasses k hk).2.1⟩
    have hdisk := d.outputBytes_disk hro (d.forkHeader start n).DataOffset data
    refine ⟨.ok (d.outputBytes (d.forkHeader start n).DataOffset data, true), hrun (loop_succ_leave hr),
      .inl ⟨hpasses.not_endlessFork fun _ => ⟨hwanted, hnames⟩, _, true, rfl,
        iff_of_true rfl ⟨n, hfirst.onForks, hwanted⟩, fun _ => ⟨n, hfirst, ?_, ?_⟩, by simp⟩⟩
    · intro i hi
      rw [hdisk]
      exact Store.write_apply_inside hi
    · intro x hx
      rw [hdisk]
      exact Store.write_apply_outside hx
  | next h hother => exact absurd hr (hlast _)
  | endless h hcreated hendless =>
    exact ⟨.error .fault, hrun (loop_succ_error hr), .inr ⟨⟨n, .of_lt (fun k hk => (hpasses k hk).1) h,
      fun k hk => (hpasses k hk).2.1, hcreated, hendless⟩, rfl⟩⟩

theorem writeCatalog_walk {isRsrcFork : Bool} (hdata : data ≠ []) {catalog : NfsCatalogStruct} {enough : Nat}
    (hcatalog : getCatalog enough d (some catalogName) = .ok (some catalog)) {fuel : Nat} (hfuel : enough ≤ fuel) :
    writeCatalog fuel d (some catalogName) isRsrcFork data (some forkName) =
      loop (writeRound d catalogName data (some forkName)) fuel (catalog.firstFork isRsrcFork) := by
  have hpos : ¬data.length < 1 := by
    rw [Nat.lt_one_iff, List.length_eq_zero_iff]
    exact hdata
  have hsteady : Steady fun fuel => getCatalog fuel d (some catalogName) := findCatalog_steady.map Prod.fst
  have hsame : getCatalog fuel d (some catalogName) = .ok (some catalog) := by
    rw [← hcatalog]
    exact hsteady enough fuel hfuel (by simp [hcatalog])
  unfold writeCatalog
  rw [if_neg hpos, hsame]
  rfl

end Write

/-- The call of `WriteCatalog` has returned, and has done what it should. -/
def WritesExactly (d : Drive) (catalogName forkName : CString) (isRsrcFork : Bool) (data : List UInt8)
    (catalog : NfsCatalogStruct) : Prop :=
  ∃ d' b, (∃ enough, ∀ fuel, enough ≤ fuel →
      writeCatalog fuel d (some catalogName) isRsrcFork data (some forkName) = .ok (d', b)) ∧
    WroteExactly d (catalog.firstFork isRsrcFork) forkName catalogName data d' b

/-- On every disk on which the walk ends, a call of `WriteCatalog` for a catalog that exists does exactly what it
should, unless before the first fork for the data one exists whose names have no end in the record. -/
theorem writeCatalog_exact_iff (d : Drive) (hro : d.fPacketReadOnly = false) (catalogName forkName : CString)
    (isRsrcFork : Bool) (data : List UInt8) (hdata : data ≠ []) (catalog : NfsCatalogStruct)
    (hcatalog : ∃ fuel, getCatalog fuel d (some catalogName) = .ok (some catalog))
    (hends : ¬ Circular (d.writeSibling catalogName data.length (some forkName)) (catalog.firstFork isRsrcFork)) :
    WritesExactly d catalogName forkName isRsrcFork data catalog ↔
      ¬d.EndlessFork (catalog.firstFork isRsrcFork) forkName catalogName data.length := by
  obtain ⟨n, result, hloop, hresult⟩ := writeLoop_exact hro hends
  obtain ⟨enough, hcatalog⟩ := hcatalog
  have hcall : ∀ fuel, max enough (n + 1) ≤ fuel →
      writeCatalog fuel d (some catalogName) isRsrcFork data (some forkName) = result := by
    intro fuel hfuel
    rw [writeCatalog_walk hdata hcatalog (Nat.le_trans (Nat.le_max_left _ _) hfuel)]
    exact hloop fuel (Nat.le_trans (Nat.le_max_right _ _) hfuel)
  rcases hresult with ⟨hclear, d', b, rfl, hwrote⟩ | ⟨hendless, rfl⟩
  · exact iff_of_true ⟨d', b, ⟨_, hcall⟩, hwrote⟩ hclear
  · refine iff_of_false ?_ (not_not.mpr hendless)
    rintro ⟨d', b, ⟨large, hlarge⟩, -⟩
    have hsame := hlarge (max large (max enough (n + 1))) (Nat.le_max_left _ _)
    rw [hcall _ (Nat.le_max_right _ _)] at hsame
    cases hsame

/-- The fork `a` of one byte for `/ab`, its data at 8192. -/
def byteFork : NfsForkStruct := { NfsForkStruct.zero with
  ForkName := letterA.field kNeFSForkNameLen
  CatalogName := fileName.field kNeFSNodeNameLen
  Flags := 71
  DataOffset := 8192
  DataSize := 1 }

/-- The catalog `/ab`, its forks beginning at 4096. -/
def byteCatalog : NfsCatalogStruct := { NfsCatalogStruct.zero with
  Name := fileName.field kNeFSNodeNameLen
  Flags := kNeFSFlagCreated
  DataFork := 4096 }

/-- A drive with that catalog and `fork` at 4096. -/
def forkDrive (fork : NfsForkStruct) : Drive :=
  { zeroDrive with
    disk := Store.put NfsForkStruct.codec
      (Store.put NfsCatalogStruct.codec (fun _ => 0) kNeFSCatalogStartAddress.toNat byteCatalog) 4096 fork }

theorem catalogAt_forkDrive (fork : NfsForkStruct) :
    (forkDrive fork).catalogAt kNeFSCatalogStartAddress = byteCatalog := by
  show Store.get NfsCatalogStruct.codec _ _ = _
  rw [forkDrive, Store.get_put_disjoint (by decide), Store.get_put_same]

theorem forkAt_forkDrive (fork : NfsForkStruct) : (forkDrive fork).forkAt 4096 = fork := Store.get_put_same

theorem getCatalog_forkDrive (fork : NfsForkStruct) :
    getCatalog 2 (forkDrive fork) (some fileName) = .ok (some byteCatalog) := by
  have hname : byteCatalog.nameString = .ok fileName := NfsCatalogStruct.nameString_field (by decide) rfl
  have hround : findRound (forkDrive fork) fileName true (forkDrive fork).superBlock kNeFSCatalogStartAddress =
      .ok (.inr (some (byteCatalog, kNeFSCatalogStartAddress))) := by
    unfold findRound
    simp only [catalogAt_forkDrive, hname, Exec.ok_bind]
    exact if_pos ⟨trivial, by simp, rfl⟩
  have hsearch : searchCatalogList 2 (forkDrive fork) fileName true kNeFSCatalogStartAddress =
      .ok (some (byteCatalog, kNeFSCatalogStartAddress)) := loop_succ_leave hround 1
  unfold getCatalog findCatalog
  simp only
  rw [if_neg (by decide), hsearch]
  rfl

set_option maxRecDepth 4000 in
theorem writeSibling_byte : (forkDrive byteFork).writeSibling fileName 1 (some letterA) 4096 = none := rfl

theorem writeCatalog_exact_iff_byte :
    getCatalog 2 (forkDrive byteFork) (some fileName) = .ok (some byteCatalog) ∧
      (WritesExactly (forkDrive byteFork) fileName letterA false [7] byteCatalog ↔
        ¬(forkDrive byteFork).EndlessFork (byteCatalog.firstFork false) letterA fileName 1) :=
  ⟨getCatalog_forkDrive byteFork, writeCatalog_exact_iff (forkDrive byteFork) rfl fileName letterA false [7]
    (by simp) byteCatalog ⟨2, getCatalog_forkDrive byteFork⟩ (not_circular_of_stop writeSibling_byte)⟩

/-- A header of 514 bytes 255: it exists, and none of its names has an end. -/
def endlessFork : NfsForkStruct := NfsForkStruct.codec.dec (List.replicate NfsForkStruct.codec.size 255)

theorem endlessFork_name : endlessFork.nameString = .error .fault := by
  unfold NfsForkStruct.nameString endlessFork
  rw [NfsForkStruct.codec.enc_dec _ List.length_replicate]
  exact if_neg (by simp)

theorem writeRound_endlessFork (data : List UInt8) :
    writeRound (forkDrive endlessFork) fileName data (some letterA) 4096 = .error .fault := by
  unfold writeRound
  rw [if_neg (by decide)]
  simp only [forkAt_forkDrive, NfsForkStruct.isWanted, NfsForkStruct.isNamed, endlessFork_name]
  rfl

/-- The header without an end to its names stops the call for the fork `a`, though the chain has no such fork. -/
theorem writeCatalog_endless : ¬WritesExactly (forkDrive endlessFork) fileName letterA false [7] byteCatalog := by
  rintro ⟨d', b, ⟨enough, hcall⟩, -⟩
  have hlarge := hcall (enough + 2) (Nat.le_add_right _ _)
  rw [writeCatalog_walk (by simp) (getCatalog_forkDrive endlessFork) (Nat.le_add_left _ _)] at hlarge
  cases hlarge.symm.trans (loop_succ_error (writeRound_endlessFork [7]) (enough + 1))

/-! ### `ReadCatalog` -/

section Read

variable {d : Drive} {start : Lba} {forkName : CString} {catalog : NfsCatalogStruct} {isRsrcFork : Bool}

/-- The header read before header `n`. -/
def Drive.forkBefore (d : Drive) (start : Lba) : Nat → Option NfsForkStruct
  | 0 => none
  | n + 1 => some (d.forkHeader start n)

/-- `ReadCatalog` returns a buffer exactly when the chain has a header of these names, and then the first one. -/
def ReadRight (d : Drive) (catalog : NfsCatalogStruct) (isRsrcFork : Bool) (forkName : CString) : Prop :=
  ∃ r, (∃ enough, ∀ fuel, enough ≤ fuel → readCatalog fuel d (some catalog) isRsrcFork (some forkName) = .ok r) ∧
    (r.isSome = true ↔
      d.HasFork (catalog.firstFork isRsrcFork) fun fork => fork.Named forkName catalog.nameString) ∧
    ∀ buf, r = some buf → ∃ n,
      d.FirstFork (catalog.firstFork isRsrcFork) (fun fork => fork.Named forkName catalog.nameString) n ∧
        buf = NfsForkStruct.codec.enc (d.forkHeader (catalog.firstFork isRsrcFork) n)

/-- The headers before header `n` are above the first address of the catalog area and have other names. -/
def Drive.ReadReaches (d : Drive) (start : Lba) (forkName : CString) (owner : Exec CString) (n : Nat) : Prop :=
  ∀ k < n, kNeFSCatalogStartAddress < d.forkAddress start k ∧ ¬(d.forkHeader start k).Named forkName owner

/-- And their names end. -/
def Drive.ReadPasses (d : Drive) (start : Lba) (forkName : CString) (owner : Exec CString) (n : Nat) : Prop :=
  ∀ k < n, kNeFSCatalogStartAddress < d.forkAddress start k ∧ ¬(d.forkHeader start k).Named forkName owner ∧
    ¬(d.forkHeader start k).Endless forkName owner

/-- What keeps the walk of `ReadCatalog` right: it only comes to the first address of the catalog area when it
starts there, on a chain without a header of these names, and it comes to no header whose names have no end. -/
structure Drive.ReadClear (d : Drive) (start : Lba) (forkName : CString) (owner : Exec CString) : Prop where
  boundary : ∀ n, d.ReadReaches start forkName owner n → d.forkAddress start n = kNeFSCatalogStartAddress →
    n = 0 ∧ ¬d.HasFork start fun fork => fork.Named forkName owner
  names : ∀ n, d.ReadReaches start forkName owner n → kNeFSCatalogStartAddress < d.forkAddress start n →
    ¬(d.forkHeader start n).Endless forkName owner

theorem readRound_next {lba : Lba} {last : Option NfsForkStruct} {s : Lba × Option NfsForkStruct}
    (h : readRound d catalog (some forkName) (lba, last) = .ok (.inl s)) :
    s = ((d.forkAt lba).NextSibling, some (d.forkAt lba)) ∧ kNeFSCatalogStartAddress < lba ∧
      ¬(d.forkAt lba).Named forkName catalog.nameString ∧ ¬(d.forkAt lba).Endless forkName catalog.nameString := by
  have hspec := readRound_spec d forkName catalog lba last
  generalize readRound d catalog (some forkName) (lba, last) = r at h hspec
  cases hspec with
  | next hin hother hends => exact ⟨(Sum.inl.inj (Except.ok.inj h)).symm, hin, hother, hends⟩
  | below | hit | endless => cases h

theorem readLoop_walk (hends : ¬ Circular (d.readSibling catalog (some forkName)) start) :
    ∃ n, d.ReadPasses start forkName catalog.nameString n ∧
      (∀ s, readRound d catalog (some forkName) (d.forkAddress start n, d.forkBefore start n) ≠ .ok (.inl s)) ∧
      ∀ {result}, (∀ rest, loop (readRound d catalog (some forkName)) (rest + 1)
        (d.forkAddress start n, d.forkBefore start n) = result) →
          ∀ fuel, n < fuel → loop (readRound d catalog (some forkName)) fuel (start, none) = result := by
  obtain ⟨n, hrounds, hlast⟩ := (readRound_follows catalog (some forkName)).exists_rounds
    (s := fun k => (d.forkAddress start k, d.forkBefore start k)) (by
      intro k s' hround
      rw [(readRound_next hround).1, forkAddress_succ]
      rfl) hends
  refine ⟨n, fun k hk => (readRound_next (hrounds k hk)).2, hlast, ?_⟩
  intro result hresult fuel hfuel
  exact loop_result_of_rounds hrounds hresult hfuel

/-- The header in the buffer that `ReadCatalog` returns. -/
def readHeader (s : Lba × Option NfsForkStruct) : Option NfsForkStruct :=
  if s.1 < kNeFSCatalogStartAddress then none else s.2

theorem readCatalog_eq (fuel : Nat) : readCatalog fuel d (some catalog) isRsrcFork (some forkName) =
    (loop (readRound d catalog (some forkName)) fuel (catalog.firstFork isRsrcFork, none)).map fun s =>
      (readHeader s).map NfsForkStruct.codec.enc := by
  unfold readCatalog readHeader
  show (loop _ fuel (catalog.firstFork isRsrcFork, none) >>= _) = _
  rcases loop (readRound d catalog (some forkName)) fuel (catalog.firstFork isRsrcFork, none) with e | ⟨lba, fork⟩
  · rfl
  · simp only [Exec.ok_bind, Except.map]
    split <;> rfl

/-- The header `found` is what the chain from `start` has to offer. -/
def Drive.ReadFound (d : Drive) (start : Lba) (forkName : CString) (owner : Exec CString)
    (found : Option NfsForkStruct) : Prop :=
  (found.isSome = true ↔ d.HasFork start fun fork => fork.Named forkName owner) ∧
    ∀ fork, found = some fork → ∃ n, d.FirstFork start (fun fork => fork.Named forkName owner) n ∧
      fork = d.forkHeader start n

theorem readRight_iff {n : Nat} {result : Exec (Lba × Option NfsForkStruct)}
    (hloop : ∀ fuel, n < fuel →
      loop (readRound d catalog (some forkName)) fuel (catalog.firstFork isRsrcFork, none) = result) :
    ReadRight d catalog isRsrcFork forkName ↔ ∃ s, result = .ok s ∧
      d.ReadFound (catalog.firstFork isRsrcFork) forkName catalog.nameString (readHeader s) := by
  constructor
  · rintro ⟨r, ⟨enough, hcall⟩, hsome, hbuf⟩
    have hlarge := hcall (max enough (n + 1)) (Nat.le_max_left _ _)
    rw [readCatalog_eq, hloop _ (Nat.le_max_right enough (n + 1))] at hlarge
    obtain ⟨s, hs, rfl⟩ := Exec.exists_of_map hlarge
    refine ⟨s, hs, by rwa [Option.isSome_map] at hsome, ?_⟩
    intro fork hfork
    obtain ⟨k, hfirst, henc⟩ := hbuf (NfsForkStruct.codec.enc fork) (by rw [hfork]; rfl)
    have hdec := congrArg NfsForkStruct.codec.dec henc
    rw [Codec.dec_enc, Codec.dec_enc] at hdec
    exact ⟨k, hfirst, hdec⟩
  · rintro ⟨s, hs, hsome, hfound⟩
    refine ⟨(readHeader s).map NfsForkStruct.codec.enc, ⟨n + 1, ?_⟩, by rwa [Option.isSome_map], ?_⟩
    · intro fuel hfuel
      rw [readCatalog_eq, hloop fuel hfuel, hs]
      rfl
    · intro buf hbuf
      obtain ⟨fork, hfork, rfl⟩ := Option.map_eq_some_iff.mp hbuf
      obtain ⟨k, hfirst, rfl⟩ := hfound fork hfork
      exact ⟨k, hfirst, rfl⟩

section Ends

variable {owner : Exec CString} {n m : Nat}

theorem Drive.ReadPasses.reaches (h : d.ReadPasses start forkName owner n) : d.ReadReaches start forkName owner n :=
  fun k hk => ⟨(h k hk).1, (h k hk).2.1⟩

theorem Drive.ReadReaches.le (h : d.ReadReaches start forkName owner m)
    (hstop : kNeFSCatalogStartAddress < d.forkAddress start n → (d.forkHeader start n).Named forkName owner) :
    m ≤ n := by
  by_contra hlt
  obtain ⟨habove, hother⟩ := h n (Nat.lt_of_not_le hlt)
  exact hother (hstop habove)

theorem readFound_below (h : d.ReadPasses start forkName owner n)
    (hbelow : d.forkAddress start n < kNeFSCatalogStartAddress) :
    d.ReadFound start forkName owner none ∧ d.ReadClear start forkName owner := by
  have hstop : kNeFSCatalogStartAddress < d.forkAddress start n → (d.forkHeader start n).Named forkName owner :=
    fun habove => absurd habove (UInt64.lt_asymm hbelow)
  refine ⟨⟨iff_of_false (by simp) ?_, by simp⟩, ?_, ?_⟩
  · rintro ⟨m, hon, hnamed⟩
    rcases Nat.lt_or_ge m n with hlt | hge
    · exact (h m hlt).2.1 hnamed
    · exact UInt64.not_lt.mpr (hon n hge) hbelow
  · intro m hm hstart
    rcases Nat.lt_or_eq_of_le (hm.le hstop) with hlt | rfl
    · have habove := (h m hlt).1
      rw [hstart] at habove
      exact absurd habove (UInt64.lt_irrefl _)
    · rw [hstart] at hbelow
      exact absurd hbelow (UInt64.lt_irrefl _)
  · intro m hm habove
    rcases Nat.lt_or_eq_of_le (hm.le hstop) with hlt | rfl
    · exact (h m hlt).2.2
    · exact absurd habove (UInt64.lt_asymm hbelow)

theorem readFound_boundary (h : d.ReadPasses start forkName owner n)
    (hstart : d.forkAddress start n = kNeFSCatalogStartAddress) :
    d.ReadFound start forkName owner (d.forkBefore start n) ↔ d.ReadClear start forkName owner := by
  have hstop : kNeFSCatalogStartAddress < d.forkAddress start n → (d.forkHeader start n).Named forkName owner := by
    intro habove
    rw [hstart] at habove
    exact absurd habove (UInt64.lt_irrefl _)
  cases n with
  | succ n =>
    refine iff_of_false ?_ fun hclear => absurd (hclear.boundary _ h.reaches hstart).1 (Nat.succ_ne_zero n)
    rintro ⟨-, hfound⟩
    obtain ⟨k, hfirst, heq⟩ := hfound _ rfl
    apply (h n (Nat.lt_succ_self n)).2.1
    rw [heq]
    exact hfirst.hit
  | zero =>
    constructor
    · rintro ⟨hnone, -⟩
      refine ⟨?_, ?_⟩
      · intro m hm _
        exact ⟨Nat.le_zero.mp (hm.le hstop), fun hhas => by cases hnone.mpr hhas⟩
      · intro m hm habove
        obtain rfl := Nat.le_zero.mp (hm.le hstop)
        rw [hstart] at habove
        exact absurd habove (UInt64.lt_irrefl _)
    · intro hclear
      exact ⟨iff_of_false (by simp [Drive.forkBefore]) (hclear.boundary 0 h.reaches hstart).2,
        by simp [Drive.forkBefore]⟩

theorem readFound_hit (h : d.ReadPasses start forkName owner n)
    (habove : kNeFSCatalogStartAddress < d.forkAddress start n)
    (hnamed : (d.forkHeader start n).Named forkName owner) (hends : ¬(d.forkHeader start n).Endless forkName owner) :
    d.ReadFound start forkName owner (some (d.forkHeader start n)) ∧ d.ReadClear start forkName owner := by
  have hon : d.OnForks start n := .of_lt (fun k hk => UInt64.le_of_lt (h k hk).1) (UInt64.le_of_lt habove)
  refine ⟨⟨iff_of_true rfl ⟨n, hon, hnamed⟩, ?_⟩, ?_, ?_⟩
  · rintro fork hfork
    exact ⟨n, ⟨hon, hnamed, fun k hk => (h k hk).2.1⟩, (Option.some.inj hfork).symm⟩
  · intro m hm hstart
    have hle := hm.le fun _ => hnamed
    have habove' : kNeFSCatalogStartAddress < d.forkAddress start m := by
      rcases Nat.lt_or_eq_of_le hle with hlt | rfl
      · exact (h m hlt).1
      · exact habove
    rw [hstart] at habove'
    exact absurd habove' (UInt64.lt_irrefl _)
  · intro m hm _
    rcases Nat.lt_or_eq_of_le (hm.le fun _ => hnamed) with hlt | rfl
    · exact (h m hlt).2.2
    · exact hends

end Ends

end Read

/-- On every disk on which the walk ends, a call of `ReadCatalog` is right exactly when its walk keeps clear of the
first address of the catalog area and of names without an end. -/
theorem readCatalog_right_iff (d : Drive) (catalog : NfsCatalogStruct) (isRsrcFork : Bool) (forkName : CString)
    (hends : ¬ Circular (d.readSibling catalog (some forkName)) (catalog.firstFork isRsrcFork)) :
    ReadRight d catalog isRsrcFork forkName ↔
      d.ReadClear (catalog.firstFork isRsrcFork) forkName catalog.nameString := by
  obtain ⟨n, hpasses, hlast, hrun⟩ := readLoop_walk hends
  -- the round that the walk ends with decides the call
  have hspec := readRound_spec d forkName catalog (d.forkAddress (catalog.firstFork isRsrcFork) n)
    (d.forkBefore (catalog.firstFork isRsrcFork) n)
  generalize hr : readRound d catalog (some forkName) (d.forkAddress (catalog.firstFork isRsrcFork) n,
    d.forkBefore (catalog.firstFork isRsrcFork) n) = r at hspec
  cases hspec with
  | below h =>
    rw [readRight_iff (hrun (loop_succ_leave hr))]
    simp only [Except.ok.injEq, exists_eq_left', readHeader]
    by_cases hbelow : d.forkAddress (catalog.firstFork isRsrcFork) n < kNeFSCatalogStartAddress
    · rw [if_pos hbelow]
      have hfound := readFound_below hpasses hbelow
      exact iff_of_true hfound.1 hfound.2
    · rw [if_neg hbelow]
      exact readFound_boundary hpasses (UInt64.le_antisymm h (UInt64.not_lt.mp hbelow))
  | hit h hnamed hends =>
    rw [readRight_iff (hrun (loop_succ_leave hr))]
    simp only [Except.ok.injEq, exists_eq_left', readHeader]
    rw [if_neg (UInt64.lt_asymm h)]
    have hfound := readFound_hit hpasses h hnamed hends
    exact iff_of_true hfound.1 hfound.2
  | next h hother hends => exact absurd hr (hlast _)
  | endless h hendless =>
    rw [readRight_iff (hrun (loop_succ_error hr))]
    refine iff_of_false ?_ fun hclear => hclear.names n hpasses.reaches h hendless
    rintro ⟨s, hs, -⟩
    cases hs

/-- A fork `b` of no catalog that points to the first address of the catalog area. -/
def strayFork : NfsForkStruct := { NfsForkStruct.zero with
  ForkName := letterB.field kNeFSForkNameLen
  NextSibling := kNeFSCatalogStartAddress }

theorem strayFork_name : strayFork.nameString = .ok letterB := NfsForkStruct.nameString_field (by decide) rfl

theorem strayFork_walk (fuel : Nat) (hfuel : 1 < fuel) :
    loop (readRound (forkDrive strayFork) byteCatalog (some letterA)) fuel (byteCatalog.firstFork false, none) =
      .ok (kNeFSCatalogStartAddress, some strayFork) := by
  have hfork := forkAt_forkDrive strayFork
  have hother : strayFork.isNamed (.ok letterA) byteCatalog.nameString = .ok false := by
    unfold NfsForkStruct.isNamed
    rw [strayFork_name]
    rfl
  have hnext : readRound (forkDrive strayFork) byteCatalog (some letterA) (4096, none) =
      .ok (.inl (kNeFSCatalogStartAddress, some strayFork)) := by
    unfold readRound
    rw [if_neg (by decide)]
    simp only [hfork, deref, hother, Exec.ok_bind]
    rfl
  have hleave : readRound (forkDrive strayFork) byteCatalog (some letterA)
      (kNeFSCatalogStartAddress, some strayFork) = .ok (.inr (kNeFSCatalogStartAddress, some strayFork)) :=
    if_pos (UInt64.le_refl _)
  apply loop_mono hfuel
  show loop _ 2 (4096, none) = _
  rw [loop_succ_next hnext, loop_succ_leave hleave]

/-- The fork `b` is returned for the fork `a` of `/ab`. -/
theorem readCatalog_stray : ¬ReadRight (forkDrive strayFork) byteCatalog false letterA := by
  rw [readRight_iff strayFork_walk]
  rintro ⟨s, hs, -, hfound⟩
  rw [← Except.ok.inj hs] at hfound
  obtain ⟨k, hfirst, hheader⟩ := hfound strayFork (if_neg (by decide))
  have hnamed := hfirst.hit
  rw [← hheader] at hnamed
  have hname := strayFork_name.symm.trans hnamed.1
  exact absurd (Except.ok.inj hname) (by decide)

set_option maxRecDepth 4000 in
theorem readSibling_byte : (forkDrive byteFork).readSibling byteCatalog (some letterA) 4096 = none := rfl

theorem readCatalog_right_iff_byte : ReadRight (forkDrive byteFork) byteCatalog false letterA ↔
    (forkDrive byteFork).ReadClear (byteCatalog.firstFork false) letterA byteCatalog.nameString :=
  readCatalog_right_iff (forkDrive byteFork) byteCatalog false letterA (not_circular_of_stop readSibling_byte)

end OpenNE

import OpenNE.Base.Span
import OpenNE.NeFS.ForkWalk
import Mathlib.Data.Set.Basic
import Mathlib.Logic.Function.Basic

/-!
# The forks as a store

On a disk whose forks keep their data away from all records and from each other, `WriteCatalog` is an assignment to
one entry of a map from forks to data. After any number of calls every fork holds what was written to it last, and
every catalog and fork is found as before (`fork_store_run`).
-/

namespace OpenNE

/-! ### A disk of forks -/

/-- Where the data of a fork lies. -/
def NfsForkStruct.area (fork : NfsForkStruct) : Span := ⟨fork.DataOffset.toNat, fork.DataSize.toNat⟩

/-- The bytes of the superblock, of the catalog records and of the fork headers. -/
def InRecords (catalogs forks : Set Lba) (x : Nat) : Prop :=
  x ∈ (⟨kNeFSRootCatalogStartAddress.toNat, superBlockSize⟩ : Span) ∨
    (∃ lba ∈ catalogs, x ∈ (⟨lba.toNat, catalogSize⟩ : Span)) ∨ ∃ lba ∈ forks, x ∈ (⟨lba.toNat, forkSize⟩ : Span)

/-- There is a fork at `lba`. -/
def Drive.HoldsFork (d : Drive) (forks : Set Lba) (lba : Lba) : Prop := lba ∈ forks ∧ (d.forkAt lba).hasCreated = true

/-- The walks of a lookup stay in `catalogs`, those along forks in `forks`, and the forks that exist have their data
apart from all records and from each other. -/
structure ForkStore (d : Drive) (catalogs forks : Set Lba) : Prop where
  first : kNeFSCatalogStartAddress ∈ catalogs
  next : ∀ lba ∈ catalogs, d.superBlock.StartCatalog ≤ (d.catalogAt lba).NextSibling →
    (d.catalogAt lba).NextSibling ∈ catalogs
  firstFork : ∀ lba ∈ catalogs, ∀ isRsrcFork,
    kNeFSCatalogStartAddress ≤ (d.catalogAt lba).firstFork isRsrcFork → (d.catalogAt lba).firstFork isRsrcFork ∈ forks
  nextFork : ∀ lba ∈ forks, kNeFSCatalogStartAddress ≤ (d.forkAt lba).NextSibling →
    (d.forkAt lba).NextSibling ∈ forks
  clear : ∀ lba, d.HoldsFork forks lba → ∀ x ∈ (d.forkAt lba).area, ¬InRecords catalogs forks x
  apart : ∀ lba lba', d.HoldsFork forks lba → d.HoldsFork forks lba' → lba ≠ lba' →
    (d.forkAt lba).area.Disjoint (d.forkAt lba').area

/-- The records of the two disks are the same. -/
def SameRecords (catalogs forks : Set Lba) (d d' : Drive) : Prop :=
  ∀ x, InRecords catalogs forks x → d'.disk x = d.disk x

section Same

variable {catalogs forks : Set Lba} {d d' : Drive}

theorem SameRecords.symm (h : SameRecords catalogs forks d d') : SameRecords catalogs forks d' d :=
  fun x hx => (h x hx).symm

theorem SameRecords.trans {d'' : Drive} (h : SameRecords catalogs forks d d') (h' : SameRecords catalogs forks d' d'') :
    SameRecords catalogs forks d d'' :=
  fun x hx => (h' x hx).trans (h x hx)

theorem SameRecords.superBlock (h : SameRecords catalogs forks d d') : d'.superBlock = d.superBlock :=
  Store.get_congr fun x hx hlt => h x (.inl ⟨hx, hlt⟩)

theorem SameRecords.catalogAt (h : SameRecords catalogs forks d d') {lba : Lba} (hlba : lba ∈ catalogs) :
    d'.catalogAt lba = d.catalogAt lba :=
  Store.get_congr fun x hx hlt => h x (.inr (.inl ⟨lba, hlba, hx, hlt⟩))

theorem SameRecords.forkAt (h : SameRecords catalogs forks d d') {lba : Lba} (hlba : lba ∈ forks) :
    d'.forkAt lba = d.forkAt lba :=
  Store.get_congr fun x hx hlt => h x (.inr (.inr ⟨lba, hlba, hx, hlt⟩))

theorem SameRecords.holdsFork (h : SameRecords catalogs forks d d') {lba : Lba} :
    d'.HoldsFork forks lba ↔ d.HoldsFork forks lba := by
  unfold Drive.HoldsFork
  refine and_congr_right fun hlba => ?_
  rw [h.forkAt hlba]

theorem ForkStore.of_same (hd : ForkStore d catalogs forks) (h : SameRecords catalogs forks d d') :
    ForkStore d' catalogs forks := by
  refine ⟨hd.first, ?_, ?_, ?_, ?_, ?_⟩
  · intro lba hlba
    rw [h.superBlock, h.catalogAt hlba]
    exact hd.next lba hlba
  · intro lba hlba
    rw [h.catalogAt hlba]
    exact hd.firstFork lba hlba
  · intro lba hlba
    rw [h.forkAt hlba]
    exact hd.nextFork lba hlba
  · intro lba hlba
    rw [h.forkAt hlba.1]
    exact hd.clear lba (h.holdsFork.mp hlba)
  · intro lba lba' hlba hlba'
    rw [h.forkAt hlba.1, h.forkAt hlba'.1]
    exact hd.apart lba lba' (h.holdsFork.mp hlba) (h.holdsFork.mp hlba')

/-! ### Lookups read records only -/

theorem findRound_next {name : CString} {searchHidden : Bool} {part : NfsSuperBlock} {lba lba' : Lba}
    (h : findRound d name searchHidden part lba = .ok (.inl lba')) :
    lba' = (d.catalogAt lba).NextSibling ∧ part.StartCatalog ≤ lba' := by
  unfold findRound at h
  obtain ⟨found, -, h⟩ := Exec.bind_eq_ok.mp h
  simp only at h
  split_ifs at h with hfound hbelow
  · cases h
  · cases h
  · obtain rfl := Sum.inl.inj (Except.ok.inj h)
    exact ⟨rfl, UInt64.not_lt.mp hbelow⟩

theorem findRound_leave {name : CString} {searchHidden : Bool} {part : NfsSuperBlock} {lba lba' : Lba}
    {catalog : NfsCatalogStruct}
    (h : findRound d name searchHidden part lba = .ok (.inr (some (catalog, lba')))) :
    lba' = lba ∧ catalog = d.catalogAt lba := by
  unfold findRound at h
  obtain ⟨found, -, h⟩ := Exec.bind_eq_ok.mp h
  simp only at h
  split_ifs at h with hfound hbelow
  · obtain ⟨rfl, rfl⟩ := Prod.mk.inj (Option.some.inj (Sum.inr.inj (Except.ok.inj h)))
    exact ⟨rfl, rfl⟩
  · cases h
  · cases h

theorem ForkStore.findCatalog_same (hd : ForkStore d catalogs forks) (h : SameRecords catalogs forks d d')
    (fuel : Nat) (catalogName : Option CString) (outLba : Lba) (searchHidden : Bool) :
    findCatalog fuel d' catalogName outLba searchHidden = findCatalog fuel d catalogName outLba searchHidden := by
  have hsearch : ∀ name, searchCatalogList fuel d' name searchHidden kNeFSCatalogStartAddress =
      searchCatalogList fuel d name searchHidden kNeFSCatalogStartAddress := by
    intro name
    unfold searchCatalogList
    rw [h.superBlock]
    refine loop_congr (· ∈ catalogs) ?_ ?_ fuel hd.first
    · intro lba hlba
      unfold findRound
      rw [h.catalogAt hlba]
    · intro lba lba' hlba hround
      obtain ⟨rfl, hle⟩ := findRound_next hround
      exact hd.next lba hlba hle
  unfold findCatalog
  cases catalogName with
  | none => rfl
  | some name => simp only [hsearch]

theorem ForkStore.getCatalog_same (hd : ForkStore d catalogs forks) (h : SameRecords catalogs forks d d')
    (fuel : Nat) (name : Option CString) : getCatalog fuel d' name = getCatalog fuel d name := by
  rw [getCatalog, getCatalog, hd.findCatalog_same h]

theorem ForkStore.getCatalog_mem (hd : ForkStore d catalogs forks) {fuel : Nat} {name : CString}
    {catalog : NfsCatalogStruct} (hget : getCatalog fuel d (some name) = .ok (some catalog)) :
    ∃ lba ∈ catalogs, catalog = d.catalogAt lba := by
  obtain ⟨⟨found, outLba⟩, hfind, rfl⟩ := Exec.exists_of_map hget
  unfold findCatalog at hfind
  simp only at hfind
  split_ifs at hfind
  · cases hfind
  · obtain ⟨r, hloop, hr⟩ := Exec.exists_of_map hfind
    have hpost : ∀ c lba, r = some (c, lba) → lba ∈ catalogs ∧ c = d.catalogAt lba :=
      loop_invariant (· ∈ catalogs) (fun r => ∀ c lba, r = some (c, lba) → lba ∈ catalogs ∧ c = d.catalogAt lba)
        (fun lba lba' hlba hround => by
          obtain ⟨rfl, hle⟩ := findRound_next hround
          exact hd.next lba hlba hle)
        (fun lba r hlba hround c lba' hr => by
          obtain ⟨rfl, rfl⟩ := findRound_leave (hr ▸ hround)
          exact ⟨hlba, rfl⟩)
        hd.first hloop
    rcases r with _ | ⟨c, lba⟩
    · cases hr
    · obtain rfl := Option.some.inj (congrArg Prod.fst hr)
      obtain ⟨hlba, rfl⟩ := hpost c lba rfl
      exact ⟨lba, hlba, rfl⟩

/-! ### So do the walks along forks -/

section Walk

variable {start : Lba} {n : Nat}

theorem Drive.OnForks.mono (h : d.OnForks start n) {k : Nat} (hk : k ≤ n) : d.OnForks start k :=
  fun j hj => h j (Nat.le_trans hj hk)

theorem ForkStore.forkAddress_mem (hd : ForkStore d catalogs forks)
    (hstart : kNeFSCatalogStartAddress ≤ start → start ∈ forks) (hon : d.OnForks start n) :
    d.forkAddress start n ∈ forks := by
  induction n with
  | zero => exact hstart (hon 0 (Nat.le_refl 0))
  | succ n ih =>
    have hlast := hon (n + 1) (Nat.le_refl _)
    rw [forkAddress_succ] at hlast ⊢
    exact hd.nextFork (d.forkAddress start n) (ih (hon.mono (Nat.le_succ n))) hlast

theorem ForkStore.forkAddress_same (hd : ForkStore d catalogs forks) (h : SameRecords catalogs forks d d')
    (hstart : kNeFSCatalogStartAddress ≤ start → start ∈ forks) (hon : d.OnForks start n) :
    d'.forkAddress start n = d.forkAddress start n := by
  induction n with
  | zero => rw [Drive.forkAddress, Drive.forkAddress, Function.iterate_zero_apply, Function.iterate_zero_apply]
  | succ n ih =>
    have hbefore := hon.mono (Nat.le_succ n)
    rw [forkAddress_succ, forkAddress_succ, Drive.forkHeader, Drive.forkHeader, ih hbefore,
      h.forkAt (hd.forkAddress_mem hstart hbefore)]

theorem ForkStore.firstFork_same (hd : ForkStore d catalogs forks) (h : SameRecords catalogs forks d d')
    (hstart : kNeFSCatalogStartAddress ≤ start → start ∈ forks) {wanted : NfsForkStruct → Prop}
    (hfirst : d.FirstFork start wanted n) : d'.FirstFork start wanted n := by
  have haddress : ∀ k ≤ n, d'.forkAddress start k = d.forkAddress start k :=
    fun k hk => hd.forkAddress_same h hstart (hfirst.onForks.mono hk)
  have hheader : ∀ k ≤ n, d'.forkHeader start k = d.forkHeader start k := by
    intro k hk
    rw [Drive.forkHeader, Drive.forkHeader, haddress k hk, h.forkAt]
    exact hd.forkAddress_mem hstart (hfirst.onForks.mono hk)
  refine ⟨?_, ?_, ?_⟩
  · intro k hk
    rw [haddress k hk]
    exact hfirst.onForks k hk
  · rw [hheader n (Nat.le_refl n)]
    exact hfirst.hit
  · intro k hk
    rw [hheader k (Nat.le_of_lt hk)]
    exact hfirst.first k hk

theorem ForkStore.readCatalog_same (hd : ForkStore d catalogs forks) (h : SameRecords catalogs forks d d') {lba : Lba}
    (hlba : lba ∈ catalogs) (fuel : Nat) (isRsrcFork : Bool) (forkName : CString) :
    readCatalog fuel d' (some (d.catalogAt lba)) isRsrcFork (some forkName) =
      readCatalog fuel d (some (d.catalogAt lba)) isRsrcFork (some forkName) := by
  have hloop : loop (readRound d' (d.catalogAt lba) (some forkName)) fuel
        ((d.catalogAt lba).firstFork isRsrcFork, none) =
      loop (readRound d (d.catalogAt lba) (some forkName)) fuel ((d.catalogAt lba).firstFork isRsrcFork, none) := by
    refine loop_congr (fun s => kNeFSCatalogStartAddress ≤ s.1 → s.1 ∈ forks) ?_ ?_ fuel
      (hd.firstFork lba hlba isRsrcFork)
    · rintro ⟨a, last⟩ ha
      unfold readRound
      by_cases hbelow : a ≤ kNeFSCatalogStartAddress
      · rw [if_pos hbelow, if_pos hbelow]
      · rw [if_neg hbelow, if_neg hbelow, h.forkAt (ha (UInt64.le_of_lt (UInt64.not_le.mp hbelow)))]
    · rintro ⟨a, last⟩ s' ha hround
      obtain ⟨rfl, habove, -, -⟩ := readRound_next hround
      exact hd.nextFork a (ha (UInt64.le_of_lt habove))
  rw [readCatalog_eq, readCatalog_eq, hloop]

end Walk

end Same

/-! ### Calls of `WriteCatalog` -/

/-- The arguments of a call. -/
structure WriteCall where
  catalogName : CString
  isRsrcFork : Bool
  forkName : CString
  data : List UInt8

/-- A call that returned, with what it returned. -/
def WriteStep (d : Drive) (op : WriteCall × Bool) (d' : Drive) : Prop :=
  ∃ fuel, writeCatalog fuel d (some op.1.catalogName) op.1.isRsrcFork op.1.data (some op.1.forkName) = .ok (d', op.2)

/-- The fork a call is for: the first one of the catalog that exists and has the name and the size. -/
def Drive.Target (d : Drive) (call : WriteCall) (lba : Lba) : Prop :=
  call.data ≠ [] ∧ ∃ catalog n, (∃ fuel, getCatalog fuel d (some call.catalogName) = .ok (some catalog)) ∧
    d.FirstFork (catalog.firstFork call.isRsrcFork)
      (NfsForkStruct.Wanted call.forkName call.catalogName call.data.length) n ∧
    lba = d.forkAddress (catalog.firstFork call.isRsrcFork) n

section Calls

variable {catalogs forks : Set Lba} {d d' : Drive} {call : WriteCall} {b : Bool} {lba : Lba}

theorem ForkStore.target_same (hd : ForkStore d catalogs forks) (h : SameRecords catalogs forks d d')
    (htarget : d.Target call lba) : d'.Target call lba := by
  obtain ⟨hdata, catalog, n, ⟨fuel, hget⟩, hfirst, rfl⟩ := htarget
  obtain ⟨l, hl, rfl⟩ := hd.getCatalog_mem hget
  have hstart := hd.firstFork l hl call.isRsrcFork
  refine ⟨hdata, _, n, ⟨fuel, (hd.getCatalog_same h fuel _).trans hget⟩, hd.firstFork_same h hstart hfirst, ?_⟩
  exact (hd.forkAddress_same h hstart hfirst.onForks).symm

theorem ForkStore.target_iff (hd : ForkStore d catalogs forks) (h : SameRecords catalogs forks d d') :
    d'.Target call lba ↔ d.Target call lba :=
  ⟨(hd.of_same h).target_same h.symm, hd.target_same h⟩

theorem ForkStore.target_holds (hd : ForkStore d catalogs forks) (htarget : d.Target call lba) :
    d.HoldsFork forks lba ∧ (d.forkAt lba).DataSize.toNat = call.data.length := by
  obtain ⟨-, catalog, n, ⟨fuel, hget⟩, hfirst, rfl⟩ := htarget
  obtain ⟨l, hl, rfl⟩ := hd.getCatalog_mem hget
  exact ⟨⟨hd.forkAddress_mem (hd.firstFork l hl call.isRsrcFork) hfirst.onForks, hfirst.hit.created⟩,
    hfirst.hit.dataSize⟩

theorem writeLoop_cases {start : Lba} {fuel : Nat} {name forkName : CString} {data : List UInt8}
    (h : loop (writeRound d name data (some forkName)) fuel start = .ok (d', b)) :
    (b = true ∧ ∃ n, d.FirstFork start (NfsForkStruct.Wanted forkName name data.length) n ∧
      d' = d.outputBytes (d.forkHeader start n).DataOffset data) ∨
    b = false ∧ d' = d ∧ ¬d.HasFork start (NfsForkStruct.Wanted forkName name data.length) := by
  refine loop_invariant (fun lba => ∃ n, lba = d.forkAddress start n ∧ ∀ k < n,
      kNeFSCatalogStartAddress ≤ d.forkAddress start k ∧ ¬(d.forkHeader start k).Wanted forkName name data.length)
    (fun r => (r.2 = true ∧ ∃ n, d.FirstFork start (NfsForkStruct.Wanted forkName name data.length) n ∧
        r.1 = d.outputBytes (d.forkHeader start n).DataOffset data) ∨
      r.2 = false ∧ r.1 = d ∧ ¬d.HasFork start (NfsForkStruct.Wanted forkName name data.length))
    ?_ ?_ ⟨0, rfl, fun k hk => absurd hk (Nat.not_lt_zero k)⟩ h
  · rintro lba lba' ⟨n, rfl, hbefore⟩ hround
    obtain ⟨rfl, hin, hother, -⟩ := writeRound_next hround
    refine ⟨n + 1, (forkAddress_succ n).symm, fun k hk => ?_⟩
    rcases Nat.lt_or_eq_of_le (Nat.le_of_lt_succ hk) with hlt | rfl
    · exact hbefore k hlt
    · exact ⟨hin, hother⟩
  · rintro lba ⟨d₁, b₁⟩ ⟨n, rfl, hbefore⟩ hround
    have hspec := writeRound_spec d name data forkName (d.forkAddress start n)
    rw [hround] at hspec
    cases hspec with
    | below hbelow =>
      refine .inr ⟨rfl, rfl, ?_⟩
      rintro ⟨m, hon, hwanted⟩
      rcases Nat.lt_or_ge m n with hlt | hge
      · exact (hbefore m hlt).2 hwanted
      · exact UInt64.not_lt.mpr (hon n hge) hbelow
    | hit hin hwanted =>
      exact .inl ⟨rfl, n, ⟨.of_lt (fun k hk => (hbefore k hk).1) hin, hwanted, fun k hk => (hbefore k hk).2⟩, rfl⟩

theorem writeStep_cases (h : WriteStep d (call, b) d') :
    (b = true ∧ ∃ lba, d.Target call lba ∧ d' = d.outputBytes (d.forkAt lba).DataOffset call.data) ∨
      b = false ∧ d' = d ∧ ∀ lba, ¬d.Target call lba := by
  obtain ⟨fuel, h⟩ := h
  unfold writeCatalog at h
  dsimp only at h
  by_cases hempty : call.data.length < 1
  · rw [if_pos hempty] at h
    cases h
    refine .inr ⟨rfl, rfl, fun lba htarget => htarget.1 ?_⟩
    exact List.length_eq_zero_iff.mp (Nat.lt_one_iff.mp hempty)
  rw [if_neg hempty] at h
  have hdata : call.data ≠ [] := by
    rintro hnil
    simp [hnil] at hempty
  obtain ⟨found, hget, h⟩ := Exec.bind_eq_ok.mp h
  -- no other budget finds another catalog
  have hunique : ∀ fuel' catalog, getCatalog fuel' d (some call.catalogName) = .ok catalog → found = catalog := by
    intro fuel' catalog hget'
    have hsteady : Steady fun fuel => getCatalog fuel d (some call.catalogName) := findCatalog_steady.map Prod.fst
    have hlong := hsteady fuel (max fuel fuel') (Nat.le_max_left _ _) (by simp [hget])
    have hlong' := hsteady fuel' (max fuel fuel') (Nat.le_max_right _ _) (by simp [hget'])
    simp only at hlong hlong'
    rw [hlong, hget, hget'] at hlong'
    exact Except.ok.inj hlong'
  cases found with
  | none =>
    cases h
    refine .inr ⟨rfl, rfl, ?_⟩
    rintro lba ⟨-, catalog, n, ⟨fuel', hget'⟩, -⟩
    have heq := hunique fuel' _ hget'
    cases heq
  | some catalog =>
    have hloop : loop (writeRound d call.catalogName call.data (some call.forkName)) fuel
        (catalog.firstFork call.isRsrcFork) = .ok (d', b) := h
    rcases writeLoop_cases hloop with ⟨rfl, n, hfirst, rfl⟩ | ⟨rfl, rfl, hnone⟩
    · exact .inl ⟨rfl, _, ⟨hdata, catalog, n, ⟨fuel, hget⟩, hfirst, rfl⟩, rfl⟩
    · refine .inr ⟨rfl, rfl, ?_⟩
      rintro lba ⟨-, catalog', n, ⟨fuel', hget'⟩, hfirst, -⟩
      obtain rfl := Option.some.inj (hunique fuel' _ hget')
      exact hnone ⟨n, hfirst.onForks, hfirst.hit⟩

end Calls

/-! ### The map of the forks -/

/-- The forks of the disk `d₀`. -/
abbrev Drive.Forks (d₀ : Drive) (forks : Set Lba) := { lba : Lba // d₀.HoldsFork forks lba }

/-- What the forks of `d₀` hold on `d`. -/
def Drive.contents (d₀ : Drive) (forks : Set Lba) (d : Drive) : d₀.Forks forks → List UInt8 :=
  fun lba => d.disk.read (d₀.forkAt lba).DataOffset.toNat (d₀.forkAt lba).DataSize.toNat

/-- A call on the map: an assignment to the fork it is for, or a refusal. -/
inductive MapStep (d₀ : Drive) (forks : Set Lba) :
    (d₀.Forks forks → List UInt8) → WriteCall × Bool → (d₀.Forks forks → List UInt8) → Prop
  | written {m : d₀.Forks forks → List UInt8} {call : WriteCall} {lba : d₀.Forks forks}
      (htarget : d₀.Target call lba) : MapStep d₀ forks m (call, true) (Function.update m lba call.data)
  | refused {m : d₀.Forks forks → List UInt8} {call : WriteCall} (hnone : ∀ lba, ¬d₀.Target call lba) :
      MapStep d₀ forks m (call, false) m

/-- The disk `d` has come from `d₀` by writing into its forks. -/
structure OnlyData (d₀ : Drive) (catalogs forks : Set Lba) (d : Drive) : Prop where
  records : SameRecords catalogs forks d₀ d
  writable : d.fPacketReadOnly = false
  elsewhere : ∀ x, (∀ lba, d₀.HoldsFork forks lba → x ∉ (d₀.forkAt lba).area) → d.disk x = d₀.disk x

section Map

variable {catalogs forks : Set Lba} {d₀ d d' : Drive} {op : WriteCall × Bool}

/-- One call. -/
theorem OnlyData.step (h₀ : ForkStore d₀ catalogs forks) (hd : OnlyData d₀ catalogs forks d)
    (hstep : WriteStep d op d') :
    OnlyData d₀ catalogs forks d' ∧ MapStep d₀ forks (d₀.contents forks d) op (d₀.contents forks d') := by
  obtain ⟨call, b⟩ := op
  rcases writeStep_cases hstep with ⟨rfl, lba, htarget, rfl⟩ | ⟨rfl, rfl, hnone⟩
  · have htarget₀ := (h₀.target_iff hd.records).mp htarget
    obtain ⟨hholds, hsize⟩ := h₀.target_holds htarget₀
    rw [hd.records.forkAt hholds.1]
    have hdisk := d.outputBytes_disk hd.writable (d₀.forkAt lba).DataOffset call.data
    have houtside : ∀ x, x ∉ (d₀.forkAt lba).area →
        (d.outputBytes (d₀.forkAt lba).DataOffset call.data).disk x = d.disk x := by
      intro x hx
      rw [hdisk]
      apply Store.write_apply_outside
      rw [NfsForkStruct.area, Span.mem_def, hsize] at hx
      simp only at hx
      omega
    refine ⟨⟨?_, ?_, ?_⟩, ?_⟩
    · intro x hx
      rw [houtside x fun hin => h₀.clear lba hholds x hin hx]
      exact hd.records x hx
    · unfold Drive.outputBytes
      split
      · exact hd.writable
      · exact hd.writable
    · intro x hx
      rw [houtside x (hx lba hholds)]
      exact hd.elsewhere x hx
    · have hcontents : d₀.contents forks (d.outputBytes (d₀.forkAt lba).DataOffset call.data) =
          Function.update (d₀.contents forks d) ⟨lba, hholds⟩ call.data := by
        funext ⟨lba', hholds'⟩
        by_cases heq : lba' = lba
        · subst heq
          rw [Function.update_self, Drive.contents, hdisk, hsize]
          exact Store.read_write_same
        · have hne : (⟨lba', hholds'⟩ : d₀.Forks forks) ≠ ⟨lba, hholds⟩ := fun h => heq (congrArg Subtype.val h)
          rw [Function.update_of_ne hne]
          apply Store.read_congr
          intro x hx hlt
          exact houtside x fun hin => h₀.apart lba lba' hholds hholds' (Ne.symm heq) x hin ⟨hx, hlt⟩
      rw [hcontents]
      exact .written htarget₀
  · exact ⟨hd, .refused fun lba htarget => hnone lba ((h₀.target_iff hd.records).mpr htarget)⟩

end Map

/-- Every run of `WriteCatalog` on a store of forks is a run of assignments to the map of its forks: a call that returns
true has assigned its data to the fork it is for, one that returns false is for none. The records stay as they were,
so every catalog and every fork is found as before, and no byte outside of the forks' data changes. -/
theorem fork_store_run {d₀ d : Drive} {catalogs forks : Set Lba} {ops : List (WriteCall × Bool)}
    (h₀ : ForkStore d₀ catalogs forks) (hro : d₀.fPacketReadOnly = false) (hrun : Run WriteStep d₀ ops d) :
    Run (MapStep d₀ forks) (d₀.contents forks d₀) ops (d₀.contents forks d) ∧
      (∀ fuel name, getCatalog fuel d name = getCatalog fuel d₀ name) ∧
      (∀ lba ∈ catalogs, ∀ fuel isRsrcFork forkName,
        readCatalog fuel d (some (d₀.catalogAt lba)) isRsrcFork (some forkName) =
          readCatalog fuel d₀ (some (d₀.catalogAt lba)) isRsrcFork (some forkName)) ∧
      ∀ x, (∀ lba, d₀.HoldsFork forks lba → x ∉ (d₀.forkAt lba).area) → d.disk x = d₀.disk x := by
  obtain ⟨m, hmap, hd, rfl⟩ := hrun.simulate
    (fun d m => OnlyData d₀ catalogs forks d ∧ m = d₀.contents forks d)
    (fun d m op d' hrel hstep => by
      obtain ⟨hd, rfl⟩ := hrel
      obtain ⟨hd', hmap⟩ := hd.step h₀ hstep
      exact ⟨_, hmap, hd', rfl⟩)
    ⟨⟨fun _ _ => rfl, hro, fun _ _ => rfl⟩, rfl⟩
  exact ⟨hmap, h₀.getCatalog_same hd.records, fun lba hlba => h₀.readCatalog_same hd.records hlba, hd.elsewhere⟩

theorem byteFork_store : ForkStore (forkDrive byteFork) {kNeFSCatalogStartAddress, 0} {4096} := by
  have hcatalog : (forkDrive byteFork).catalogAt kNeFSCatalogStartAddress = byteCatalog :=
    (Store.get_put_disjoint (.inl (by decide))).trans Store.get_put_same
  have hzero : (forkDrive byteFork).catalogAt 0 = NfsCatalogStruct.zero := by
    have hbytes : ∀ x, (0 : Lba).toNat ≤ x → x < (0 : Lba).toNat + NfsCatalogStruct.codec.size →
        (forkDrive byteFork).disk x = 0 := by
      intro x _ hlt
      rw [catalog_codec_size, catalogSize] at hlt
      have hlow : x < 2560 := by
        simp only [UInt64.toNat_zero] at hlt
        omega
      exact (Store.put_apply_outside (.inl (Nat.lt_trans hlow (by decide)))).trans
        (Store.put_apply_outside (.inl hlow))
    exact (Store.get_zeroed hbytes).trans NfsCatalogStruct.dec_zeros
  have hfork : (forkDrive byteFork).forkAt 4096 = byteFork := Store.get_put_same
  refine ⟨.inl rfl, ?_, ?_, ?_, ?_, ?_⟩
  · rintro lba (rfl | rfl) -
    · rw [hcatalog]
      exact .inr rfl
    · rw [hzero]
      exact .inr rfl
  · rintro lba (rfl | rfl) isRsrcFork
    · rw [hcatalog]
      cases isRsrcFork
      · exact fun _ => rfl
      · exact fun hle => absurd hle (by decide)
    · rw [hzero]
      cases isRsrcFork
      · exact fun hle => absurd hle (by decide)
      · exact fun hle => absurd hle (by decide)
  · rintro lba rfl hle
    rw [hfork] at hle
    exact absurd hle (by decide)
  · rintro lba ⟨rfl, -⟩ x hx
    rw [hfork, NfsForkStruct.area, Span.mem_def] at hx
    have hx' : 8192 ≤ x ∧ x < 8192 + 1 := hx
    have hdata : ∀ start n : Nat, start + n ≤ 8192 → x ∉ (⟨start, n⟩ : Span) := by
      intro start n hle hin
      rw [Span.mem_def] at hin
      simp only at hin
      omega
    rintro (hin | ⟨lba, rfl | rfl, hin⟩ | ⟨lba, rfl, hin⟩)
    · exact hdata _ _ (by decide) hin
    · exact hdata _ _ (by decide) hin
    · exact hdata _ _ (by decide) hin
    · exact hdata _ _ (by decide) hin
  · rintro lba lba' ⟨rfl, -⟩ ⟨rfl, -⟩ hne
    exact absurd rfl hne

set_option maxRecDepth 4000 in
theorem writeCatalog_byte :
    (writeCatalog 2 (forkDrive byteFork) (some fileName) false [7] (some letterA)).map Prod.snd = .ok true := rfl

/-- A byte written to it. -/
theorem fork_store_run_byte : ∃ d, Run WriteStep (forkDrive byteFork) [(⟨fileName, false, letterA, [7]⟩, true)] d ∧
    Run (MapStep (forkDrive byteFork) {4096}) ((forkDrive byteFork).contents {4096} (forkDrive byteFork))
      [(⟨fileName, false, letterA, [7]⟩, true)] ((forkDrive byteFork).contents {4096} d) := by
  obtain ⟨⟨d, b⟩, hcall, hb⟩ := Exec.exists_of_map writeCatalog_byte
  obtain rfl : b = true := hb
  have hstep : WriteStep (forkDrive byteFork) (⟨fileName, false, letterA, [7]⟩, true) d := ⟨2, hcall⟩
  have hrun := Run.one hstep
  exact ⟨d, hrun, (fork_store_run byteFork_store rfl hrun).1⟩

end OpenNE

import OpenNE.Base.Arc
import OpenNE.NeFS.CatalogRun
import OpenNE.NeFS.Fork
import Mathlib.Data.List.Pairwise
import Mathlib.Tactic.Ring

/-!
# The space of forks

`CreateFork` puts the header of a fork at the chain address, its data `forkSize` bytes below and the next
header `DataSize` bytes below the data: a header and the data above it overlap unless the data is as long as
a header. Two catalogs are `4 * sizeof(NFS_CATALOG_STRUCT)` bytes apart, which is room for two forks. The
ranges of all forks are disjoint exactly when neither happens (`forks_disjoint_iff`).
-/

namespace OpenNE

/-! ### Placement -/

/-- The header and the data of each fork, the first header at `lba`. -/
def forkArcs (lba : Lba) : List NfsForkStruct → List Arc
  | [] => []
  | fork :: rest =>
    let placed := fork.placedAt lba lba
    ⟨lba, forkSize⟩ :: ⟨placed.DataOffset, fork.DataSize.toNat⟩ :: forkArcs placed.NextSibling rest

/-- The forks of the catalogs at the first `n` slots. -/
def forkSpace (d : Drive) (n : Nat) (forks : Nat → List NfsForkStruct) : List Arc :=
  (List.range n).flatMap fun i => forkArcs (d.catalogAt (slotLba i)).DataFork (forks i)

/-! ### Distances below the end of the disk -/

/-- Where the ranges start, as distances below `DiskSize`, and their lengths. -/
def forkOffsets (o : Nat) : List NfsForkStruct → List (Nat × Nat)
  | [] => []
  | fork :: rest =>
    (o, forkSize) :: (o + forkSize, fork.DataSize.toNat) :: forkOffsets (o + forkSize + fork.DataSize.toNat) rest

theorem forkArcs_eq (base : Lba) (o : Nat) (forks : List NfsForkStruct) :
    forkArcs (base - UInt64.ofNat o) forks = (forkOffsets o forks).map (Arc.below base) := by
  have hsub : ∀ a b c : UInt64, a - b - c = a - (b + c) := by grind
  induction forks generalizing o with
  | nil => rfl
  | cons fork rest ih =>
    have hdata : base - UInt64.ofNat o - UInt64.ofNat forkSize = base - UInt64.ofNat (o + forkSize) := by
      rw [hsub, UInt64.ofNat_add]
    have hnext : base - UInt64.ofNat o - UInt64.ofNat forkSize - fork.DataSize =
        base - UInt64.ofNat (o + forkSize + fork.DataSize.toNat) := by
      rw [hdata, hsub, UInt64.ofNat_add _ fork.DataSize.toNat, UInt64.ofNat_toNat]
    simp only [forkArcs, forkOffsets, List.map_cons, NfsForkStruct.placedAt, hnext, ih]
    rw [hdata]
    rfl

/-- The forks have data, not longer than a header. -/
def Sized (forks : List NfsForkStruct) : Prop :=
  ∀ fork ∈ forks, 0 < fork.DataSize.toNat ∧ fork.DataSize.toNat ≤ kNeFSForkSize

/-- Every fork but the last fills the space down to the next header. -/
def Filled (forks : List NfsForkStruct) : Prop :=
  ∀ fork ∈ forks.dropLast, fork.DataSize.toNat = forkSize

theorem filled_cons {fork : NfsForkStruct} {rest : List NfsForkStruct} :
    Filled (fork :: rest) ↔ (rest ≠ [] → fork.DataSize.toNat = forkSize) ∧ Filled rest := by
  cases rest with
  | nil => simp [Filled]
  | cons g rest => simp [Filled, List.dropLast]

theorem forkOffsets_cons {o : Nat} {fork : NfsForkStruct} {rest : List NfsForkStruct}
    (h : Filled (fork :: rest)) :
    forkOffsets o (fork :: rest) =
      (o, forkSize) :: (o + forkSize, fork.DataSize.toNat) :: forkOffsets (o + 2 * forkSize) rest := by
  cases rest with
  | nil => rfl
  | cons g rest =>
    have hsize := (filled_cons.mp h).1 (by simp)
    have hend : o + forkSize + forkSize = o + 2 * forkSize := by omega
    rw [forkOffsets, hsize, hend]

theorem forkOffsets_len_pos {o : Nat} {forks : List NfsForkStruct} (hs : Sized forks) :
    ∀ p ∈ forkOffsets o forks, 0 < p.2 := by
  induction forks generalizing o with
  | nil => simp [forkOffsets]
  | cons fork rest ih =>
    intro p hp
    rw [forkOffsets, List.mem_cons, List.mem_cons] at hp
    rcases hp with rfl | rfl | hp
    · show 0 < forkSize
      decide
    · exact (hs fork (by simp)).1
    · exact ih (fun f hf => hs f (List.mem_cons_of_mem _ hf)) p hp

theorem forkOffsets_bounds {o : Nat} {forks : List NfsForkStruct} (hs : Sized forks) (hf : Filled forks) :
    ∀ p ∈ forkOffsets o forks, o ≤ p.1 ∧ p.1 + forkSize ≤ o + forks.length * (2 * forkSize) ∧
      p.2 ≤ forkSize := by
  induction forks generalizing o with
  | nil => simp [forkOffsets]
  | cons fork rest ih =>
    intro p hp
    have hsize := (hs fork (by simp)).2
    rw [forkOffsets_cons hf, List.mem_cons, List.mem_cons] at hp
    rw [List.length_cons, Nat.succ_mul]
    unfold kNeFSForkSize at hsize
    rcases hp with rfl | rfl | hp
    · refine ⟨Nat.le_refl _, ?_, Nat.le_refl _⟩
      show o + forkSize ≤ _
      omega
    · refine ⟨Nat.le_add_right _ _, ?_, hsize⟩
      show o + forkSize + forkSize ≤ _
      omega
    · obtain ⟨hlow, hhigh, hlen⟩ :=
        ih (fun f hf => hs f (List.mem_cons_of_mem _ hf)) (filled_cons.mp hf).2 p hp
      exact ⟨by omega, by omega, hlen⟩

theorem forkOffsets_descend {o : Nat} {forks : List NfsForkStruct} (hs : Sized forks) (hf : Filled forks) :
    (forkOffsets o forks).Pairwise fun p q => p.1 + q.2 ≤ q.1 := by
  induction forks generalizing o with
  | nil => exact List.Pairwise.nil
  | cons fork rest ih =>
    have hsrest : Sized rest := fun f hf => hs f (List.mem_cons_of_mem _ hf)
    have hfrest := (filled_cons.mp hf).2
    have hsize := (hs fork (by simp)).2
    unfold kNeFSForkSize at hsize
    rw [forkOffsets_cons hf]
    refine List.pairwise_cons.mpr ⟨fun q hq => ?_, List.pairwise_cons.mpr ⟨fun q hq => ?_, ih hsrest hfrest⟩⟩
    · rcases List.mem_cons.mp hq with rfl | hq
      · exact Nat.add_le_add_left hsize o
      · have := forkOffsets_bounds hsrest hfrest q hq
        show o + q.2 ≤ q.1
        omega
    · have := forkOffsets_bounds hsrest hfrest q hq
      show o + forkSize + q.2 ≤ q.1
      omega

theorem header_mem {o k : Nat} {forks : List NfsForkStruct} (hf : Filled forks) (hk : k < forks.length) :
    (o + k * (2 * forkSize), forkSize) ∈ forkOffsets o forks := by
  induction forks generalizing o k with
  | nil => simp at hk
  | cons fork rest ih =>
    rw [forkOffsets_cons hf]
    cases k with
    | zero => simp
    | succ k =>
      have hmem := ih (o := o + 2 * forkSize) (filled_cons.mp hf).2 (Nat.lt_of_succ_lt_succ hk)
      rw [show o + (k + 1) * (2 * forkSize) = o + 2 * forkSize + k * (2 * forkSize) by ring]
      exact List.mem_cons_of_mem _ (List.mem_cons_of_mem _ hmem)

theorem data_mem {o k : Nat} {forks : List NfsForkStruct} (hf : Filled forks) (hk : k < forks.length) :
    ∃ len, (o + k * (2 * forkSize) + forkSize, len) ∈ forkOffsets o forks := by
  induction forks generalizing o k with
  | nil => simp at hk
  | cons fork rest ih =>
    rw [forkOffsets_cons hf]
    cases k with
    | zero => exact ⟨fork.DataSize.toNat, by simp⟩
    | succ k =>
      obtain ⟨len, hmem⟩ := ih (o := o + 2 * forkSize) (filled_cons.mp hf).2 (Nat.lt_of_succ_lt_succ hk)
      rw [show o + (k + 1) * (2 * forkSize) = o + 2 * forkSize + k * (2 * forkSize) by ring]
      exact ⟨len, List.mem_cons_of_mem _ (List.mem_cons_of_mem _ hmem)⟩

theorem filled_of_apart {o : Nat} {forks : List NfsForkStruct} (hs : Sized forks)
    (h : (forkOffsets o forks).Pairwise Arc.Apart) : Filled forks := by
  induction forks generalizing o with
  | nil => simp [Filled]
  | cons fork rest ih =>
    have hsrest : Sized rest := fun f hf => hs f (List.mem_cons_of_mem _ hf)
    have hsize := hs fork (by simp)
    rw [forkOffsets, List.pairwise_cons, List.pairwise_cons] at h
    apply filled_cons.mpr
    refine ⟨?_, ih hsrest h.2.2⟩
    intro hne
    obtain ⟨g, rest, rfl⟩ := List.exists_cons_of_ne_nil hne
    have hnext := (h.2.1 (o + forkSize + fork.DataSize.toNat, forkSize) (by simp [forkOffsets])).2
    unfold kNeFSForkSize at hsize
    simp only [forkSize] at hnext hsize ⊢
    omega

/-! ### All catalogs -/

/-- How far down the disk the forks of slot `j` begin below those of slot `i`, all the way round when they
do not. -/
def slotGap (i j : Nat) : Nat := if i < j then slot j - slot i else 2 ^ 64 - (slot i - slot j)

/-- The forks of each catalog are filled and end before those of the next catalog that has any. -/
structure ForksFit (n : Nat) (forks : Nat → List NfsForkStruct) : Prop where
  filled : ∀ i < n, Filled (forks i)
  room : ∀ i < n, ∀ j < n, forks i ≠ [] → forks j ≠ [] → (forks i).length * (2 * forkSize) ≤ slotGap i j

section Offsets

variable {n : Nat} {forks : Nat → List NfsForkStruct}

/-- The distances of all ranges below `DiskSize`. -/
def allOffsets (n : Nat) (forks : Nat → List NfsForkStruct) : List (Nat × Nat) :=
  (List.range n).flatMap fun i => forkOffsets (slot i) (forks i)

theorem forks_ne_nil {i o : Nat} {p : Nat × Nat} (hp : p ∈ forkOffsets o (forks i)) : forks i ≠ [] := by
  intro hnil
  rw [hnil] at hp
  simp [forkOffsets] at hp

theorem ForksFit.apart_of_lt (hfit : ForksFit n forks) (hslot : ∀ i < n, slot i < 2 ^ 64)
    (hs : ∀ i, Sized (forks i)) {i j : Nat} (hij : i < j) (hj : j < n) {p q : Nat × Nat}
    (hp : p ∈ forkOffsets (slot i) (forks i)) (hq : q ∈ forkOffsets (slot j) (forks j)) : Arc.Apart p q := by
  have hi : i < n := Nat.lt_trans hij hj
  obtain ⟨hp₁, hp₂, hp₃⟩ := forkOffsets_bounds (hs i) (hfit.filled i hi) p hp
  obtain ⟨hq₁, hq₂, hq₃⟩ := forkOffsets_bounds (hs j) (hfit.filled j hj) q hq
  have hdown := hfit.room i hi j hj (forks_ne_nil hp) (forks_ne_nil hq)
  have hround := hfit.room j hj i hi (forks_ne_nil hq) (forks_ne_nil hp)
  have hfits := hslot j hj
  have hle : slot i < slot j := by
    rw [slot_eq, slot_eq]
    omega
  unfold slotGap at hdown hround
  rw [if_pos hij] at hdown
  rw [if_neg (by omega)] at hround
  unfold Arc.Apart
  simp only [forkSize] at *
  omega

theorem ForksFit.apart (hfit : ForksFit n forks) (hslot : ∀ i < n, slot i < 2 ^ 64)
    (hs : ∀ i, Sized (forks i)) : (allOffsets n forks).Pairwise Arc.Apart := by
  refine List.pairwise_flatMap.mpr ⟨fun i hi => ?_, ?_⟩
  · have hi := List.mem_range.mp hi
    apply (forkOffsets_descend (hs i) (hfit.filled i hi)).imp_of_mem
    intro p q hp hq hpq
    obtain ⟨hp₁, hp₂, hp₃⟩ := forkOffsets_bounds (hs i) (hfit.filled i hi) p hp
    obtain ⟨hq₁, hq₂, hq₃⟩ := forkOffsets_bounds (hs i) (hfit.filled i hi) q hq
    have hround := hfit.room i hi i hi (forks_ne_nil hp) (forks_ne_nil hp)
    unfold slotGap at hround
    rw [if_neg (Nat.lt_irrefl i)] at hround
    have hdown : p.1 + q.2 ≤ q.1 := hpq
    have hpos := forkOffsets_len_pos (hs i) q hq
    unfold Arc.Apart
    simp only [forkSize] at *
    omega
  · apply List.pairwise_lt_range.imp_of_mem
    intro i j _ hj hij p hp q hq
    exact hfit.apart_of_lt hslot hs hij (List.mem_range.mp hj) hp hq

theorem room_of_apart (hslot : ∀ i < n, slot i < 2 ^ 64) (hfilled : ∀ i < n, Filled (forks i))
    (h : ∀ i < n, ∀ j < n, ∀ p ∈ forkOffsets (slot i) (forks i), ∀ q ∈ forkOffsets (slot j) (forks j),
      i ≠ j ∨ p ≠ q → Arc.Apart p q) {i j : Nat} (hi : i < n) (hj : j < n) (hne : forks j ≠ []) :
    (forks i).length * (2 * forkSize) ≤ slotGap i j := by
  by_contra hlong
  have hfi := hslot i hi
  have hfj := hslot j hj
  have hgap : 0 < slotGap i j ∧ ((slot j : Int) - slot i) % 2 ^ 64 = slotGap i j % 2 ^ 64 := by
    unfold slotGap
    rw [slot_eq] at hfi hfj
    rw [slot_eq, slot_eq]
    split <;> omega
  -- the fork of catalog `i` that the gap ends in
  have hk : slotGap i j / (2 * forkSize) < (forks i).length := by
    rw [Nat.div_lt_iff_lt_mul (by decide)]
    omega
  have hfirst := header_mem (o := slot j) (k := 0) (hfilled j hj) (List.length_pos_of_ne_nil hne)
  have hheader := header_mem (o := slot i) (hfilled i hi) hk
  obtain ⟨len, hdata⟩ := data_mem (o := slot i) (hfilled i hi) hk
  have hdiv := Nat.div_add_mod (slotGap i j) (2 * forkSize)
  rw [Nat.mul_comm] at hdiv
  have hmod := Nat.mod_lt (slotGap i j) (by decide : 2 * forkSize > 0)
  by_cases hlow : slotGap i j % (2 * forkSize) < forkSize
  · have hapart := h i hi j hj _ hheader _ hfirst <| by
      rw [or_iff_not_imp_left, not_ne_iff]
      rintro rfl heq
      have hgap := congrArg Prod.fst heq
      simp only [slotGap, if_neg (Nat.lt_irrefl i), forkSize] at hgap
      omega
    have hlt := hapart.2
    simp only [forkSize] at *
    omega
  · have hapart := h i hi j hj _ hdata _ hfirst <| by
      rw [or_iff_not_imp_left, not_ne_iff]
      rintro rfl heq
      have hgap := congrArg Prod.fst heq
      simp only [forkSize] at hgap
      omega
    have hlt := hapart.2
    simp only [forkSize] at *
    omega

instance : Std.Symm Arc.Apart := ⟨fun _ _ h => h.symm⟩

theorem ForksFit.of_apart (hslot : ∀ i < n, slot i < 2 ^ 64) (hs : ∀ i, Sized (forks i))
    (h : (allOffsets n forks).Pairwise Arc.Apart) : ForksFit n forks := by
  obtain ⟨hsame, hother⟩ := List.pairwise_flatMap.mp h
  have hfilled : ∀ i < n, Filled (forks i) := fun i hi =>
    filled_of_apart (hs i) (hsame i (List.mem_range.mpr hi))
  refine ⟨hfilled, fun i hi j hj _ hne => room_of_apart hslot hfilled ?_ hi hj hne⟩
  intro i hi j hj p hp q hq hdistinct
  by_cases hij : i = j
  · subst hij
    exact (hsame i (List.mem_range.mpr hi)).forall hp hq (hdistinct.resolve_left (not_not.mpr rfl))
  · rcases Nat.lt_or_gt_of_ne hij with hlt | hgt
    · exact (List.pairwise_iff_getElem.mp hother) i j (by simpa) (by simpa) hlt p (by simpa) q (by simpa)
    · exact ((List.pairwise_iff_getElem.mp hother) j i (by simpa) (by simpa) hgt q (by simpa) p (by simpa)).symm

end Offsets

theorem Chain.forkSpace_eq {fmt : NfsSuperBlock} {made : List Entry} {d : Drive} (hc : Chain fmt made d)
    (forks : Nat → List NfsForkStruct) :
    forkSpace d made.length forks = (allOffsets made.length forks).map (Arc.below fmt.DiskSize) := by
  unfold forkSpace allOffsets
  rw [List.map_flatMap]
  apply List.flatMap_congr
  intro i hi
  rw [(hc.record i (List.mem_range.mp hi)).dataFork]
  exact forkArcs_eq fmt.DiskSize (slot i) (forks i)

theorem Chain.forks_disjoint_iff {fmt : NfsSuperBlock} {made : List Entry} {d : Drive}
    (hc : Chain fmt made d) {forks : Nat → List NfsForkStruct} (hs : ∀ i, Sized (forks i)) :
    (forkSpace d made.length forks).Pairwise Arc.Disjoint ↔ ForksFit made.length forks := by
  have hlen : ∀ p ∈ allOffsets made.length forks, 0 < p.2 := by
    intro p hp
    obtain ⟨i, _, hp⟩ := List.mem_flatMap.mp hp
    exact forkOffsets_len_pos (hs i) p hp
  rw [hc.forkSpace_eq, List.pairwise_map]
  have happart : (allOffsets made.length forks).Pairwise
      (fun p q => (Arc.below fmt.DiskSize p).Disjoint (Arc.below fmt.DiskSize q)) ↔
      (allOffsets made.length forks).Pairwise Arc.Apart :=
    List.Pairwise.iff_of_mem fun hp hq => Arc.below_disjoint_iff (hlen _ hp) (hlen _ hq)
  rw [happart]
  exact ⟨ForksFit.of_apart hc.fits hs, fun hfit => hfit.apart hc.fits hs⟩

/-- After calls of `CreateCatalog` on a formatted drive, the headers and data of any forks placed on the
catalogs are pairwise disjoint exactly when the forks fit. -/
theorem fork_space_disjoint_iff (d : Drive) (hd : Formatted d) (calls : List CreateCall)
    (s : Drive × List Entry) (hrun : Run CreateStep (d, []) calls s) (forks : Nat → List NfsForkStruct)
    (hs : ∀ i, Sized (forks i)) :
    (forkSpace s.1 s.2.length forks).Pairwise Arc.Disjoint ↔ ForksFit s.2.length forks :=
  (hd.chain_of_creates hrun).forks_disjoint_iff hs

/-- Forks of `size` bytes. -/
def forkOf (size : UInt64) : NfsForkStruct := { NfsForkStruct.zero with DataSize := size }

theorem fork_space_disjoint_iff_small : ∃ s, Run CreateStep (smallDrive, []) [fileCall] s ∧
    ((forkSpace s.1 s.2.length fun _ => [forkOf 514, forkOf 1]).Pairwise Arc.Disjoint ↔
      ForksFit s.2.length fun _ => [forkOf 514, forkOf 1]) := by
  obtain ⟨d', hrun⟩ := createRun_small
  exact ⟨_, hrun, fork_space_disjoint_iff smallDrive (Formatted.blank rfl) _ _ hrun _
    fun _ fork hfork => by
      simp only [List.mem_cons, List.not_mem_nil, or_false] at hfork
      rcases hfork with rfl | rfl <;> decide⟩

/-- Two forks of one byte on `/ab`: the header of the second lies over the data of the first. -/
theorem short_forks_overlap : ∃ d, Run CreateStep (smallDrive, []) [fileCall]
      (d, [⟨fileName, kNeFSCatalogKindFile⟩]) ∧
    ¬(forkSpace d 1 fun _ => [forkOf 1, forkOf 1]).Pairwise Arc.Disjoint := by
  obtain ⟨d, hrun⟩ := createRun_small
  refine ⟨d, hrun, fun hdisjoint => ?_⟩
  have hc := (Formatted.blank rfl : Formatted smallDrive).chain_of_creates hrun
  have hs : ∀ i : Nat, Sized ((fun _ => [forkOf 1, forkOf 1]) i) := by
    intro i fork hfork
    obtain rfl : fork = forkOf 1 := by simpa using hfork
    decide
  have hfit := (hc.forks_disjoint_iff hs).mp hdisjoint
  exact absurd (hfit.filled 0 (Nat.lt_succ_self 0) (forkOf 1) (by simp)) (by decide)

end OpenNE

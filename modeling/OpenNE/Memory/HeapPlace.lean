import OpenNE.Memory.HeapFree
import OpenNE.Memory.PoolBound

/-!
# Where an allocation lies

The headers of the pool lead the search of `mm_new_heap` to one place (`mmNewHeap_place`). The call writes the bitmap
header there, the information block with the words that the padding loop zeroes, and the page-table words of the
place; every other byte of the memory stays as it was (`Kernel.allocatedAt_outside`).
-/

namespace OpenNE

open StateTransition

/-- The headers lead the search for `size` bytes to `b`. For no bytes there is no search. -/
def Kernel.Places (k : Kernel) (size b : UInt64) : Prop :=
  if size = 0 then b = 0 else b ∈ eval (nextHeader size k.mem) (k.kKernelBitMpStart + kPageSize)

/-- The kernel with the header at `b` taken for `size` bytes. -/
def Kernel.headed (k : Kernel) (size b : UInt64) : Kernel :=
  { k with
    mem := if bitSet k.mem b kBitMapMagIdx = kBitMapMagic then reuseHeader k.mem b size
      else formatHeader k.mem b size }

/-- The kernel behind a search for `size` bytes that took the place `b`. -/
def Kernel.taken (k : Kernel) (size b : UInt64) (wr user : Bool) : Kernel :=
  if size = 0 then k else (k.headed size b).mapBlock b wr user

/-- The kernel behind `mm_new_heap` of `sz` bytes at the place `b`. -/
def Kernel.allocatedAt (k : Kernel) (sz b : UInt64) (wr user : Bool) : Kernel :=
  { k.taken (sz + hibSize) b wr user with
    mem := newHeapMem wr user sz b (k.taken (sz + hibSize) b wr user).mem }

/-- What the call writes. -/
def Kernel.allocWrites (k : Kernel) (sz b : UInt64) : List Span :=
  ⟨b.toNat, bitMapHeaderSize⟩ :: ⟨(b + hibSize).toNat, 101⟩ :: (k.headed (sz + hibSize) b).paging.words b

/-- None of these writes lies in `r`. -/
def Kernel.Spares (k : Kernel) (sz b : UInt64) (r : Span) : Prop := ∀ w ∈ k.allocWrites sz b, w.Disjoint r

instance (k : Kernel) (sz b : UInt64) (r : Span) : Decidable (k.Spares sz b r) :=
  inferInstanceAs (Decidable (∀ w ∈ k.allocWrites sz b, w.Disjoint r))

section Place

variable {debug wr user : Bool} {fuel : Nat} {size sz b p : UInt64} {k k' : Kernel}

theorem Kernel.Places.unique {b' : UInt64} (h : k.Places size b) (h' : k.Places size b') : b = b' := by
  unfold Kernel.Places at h h'
  split_ifs at h h' with hsize
  · rw [h, h']
  · exact Part.mem_unique h h'

theorem Kernel.headed_outside {a : Nat} (ha : a < b.toNat ∨ b.toNat + bitMapHeaderSize ≤ a) :
    (k.headed size b).mem a = k.mem a := by
  unfold Kernel.headed
  dsimp only
  split_ifs
  · exact reuseHeader_outside ha
  · exact formatHeader_outside ha

theorem findBitMapRound_taken (hsize : size ≠ 0) (h : nextHeader size k.mem b = none) :
    findBitMapRound size wr user k b = .ok (.inr (b, k.taken size b wr user)) := by
  rw [Kernel.taken, if_neg hsize, Kernel.headed]
  by_cases hmagic : bitSet k.mem b kBitMapMagIdx = kBitMapMagic
  · have hfree : bitSet k.mem b kBitMapSizeIdx ≤ size ∧ bitSet k.mem b kBitMapUsedIdx = 0 := by
      by_contra hns
      rw [nextHeader, if_pos ⟨hmagic, hns⟩] at h
      cases h
    rw [if_pos hmagic]
    unfold findBitMapRound
    rw [if_pos ⟨hmagic, hfree.1⟩, if_pos hfree.2]
    rfl
  · rw [if_neg hmagic]
    exact findBitMapRound_format hmagic

theorem findBitMap_place (h : findBitMap fuel k.kKernelBitMpStart size wr user k = .ok (b, k')) :
    k.Places size b ∧ k' = k.taken size b wr user := by
  by_cases hsize : size = 0
  · rw [findBitMap, if_pos hsize] at h
    obtain ⟨rfl, rfl⟩ := Prod.mk.inj (Except.ok.inj h)
    rw [Kernel.Places, if_pos hsize, Kernel.taken, if_pos hsize]
    exact ⟨rfl, rfl⟩
  · obtain ⟨p, hp, hround⟩ := (findBitMap_returns_iff hsize).mp ⟨fuel, h⟩
    rw [findBitMapRound_taken hsize (mem_eval.mp hp).2] at hround
    obtain ⟨rfl, rfl⟩ := Prod.mk.inj (Sum.inr.inj (Except.ok.inj hround))
    rw [Kernel.Places, if_neg hsize]
    exact ⟨hp, rfl⟩

theorem mmNewHeap_place (hsz : sz ≠ 0) (h : mmNewHeap debug fuel sz wr user k = .ok (p, k')) :
    ∃ b, k.Places (sz + hibSize) b ∧ p = b + hibSize + hibSize ∧ k' = k.allocatedAt sz b wr user := by
  simp only [mmNewHeap, hsz, if_false] at h
  obtain ⟨_, -, h⟩ := Exec.bind_eq_ok.mp h
  obtain ⟨⟨w, k₁⟩, hrequest, h⟩ := Exec.bind_eq_ok.mp h
  obtain ⟨⟨b, k₂⟩, halloc, hrequest⟩ := Exec.bind_eq_ok.mp hrequest
  obtain ⟨rfl, rfl⟩ := Prod.mk.inj (Except.ok.inj hrequest)
  obtain ⟨⟨c, k₃⟩, hfind, halloc⟩ := Exec.bind_eq_ok.mp halloc
  obtain ⟨_, -, halloc⟩ := Exec.bind_eq_ok.mp halloc
  obtain ⟨rfl, rfl⟩ := Prod.mk.inj (Except.ok.inj halloc)
  obtain ⟨hplace, rfl⟩ := findBitMap_place hfind
  obtain ⟨hptr, hkernel⟩ := Prod.mk.inj (Except.ok.inj h)
  refine ⟨c, hplace, ?_, ?_⟩
  · rw [← hptr]
    exact newHeapMem_fHeapPtr wr user sz c _
  · rw [← hkernel]
    rfl

theorem Kernel.taken_outside {a : Nat} (hheader : a ∉ (⟨b.toNat, bitMapHeaderSize⟩ : Span))
    (hwords : ∀ w ∈ (k.headed size b).paging.words b, a ∉ w) : (k.taken size b wr user).mem a = k.mem a := by
  unfold Kernel.taken
  split_ifs
  · rfl
  · have hhead : (k.headed size b).mem a = k.mem a := by
      simp only [Span.mem_def] at hheader
      exact Kernel.headed_outside (by omega)
    rw [← hhead]
    generalize k.headed size b = k₁ at hwords
    have hmap : (mmMapPage b (makeMMFlags wr user) k₁.paging).2.tables a = k₁.paging.tables a :=
      mmMapPage_outside hwords
    exact hmap

theorem Kernel.allocatedAt_outside {a : Nat} (h : ∀ w ∈ k.allocWrites sz b, a ∉ w) :
    (k.allocatedAt sz b wr user).mem a = k.mem a := by
  have hinfo := h ⟨(b + hibSize).toNat, 101⟩ (by simp [Kernel.allocWrites])
  simp only [Span.mem_def] at hinfo
  have hnew : (k.allocatedAt sz b wr user).mem a = (k.taken (sz + hibSize) b wr user).mem a :=
    newHeapMem_outside (by omega)
  rw [hnew]
  refine Kernel.taken_outside (h _ (by simp [Kernel.allocWrites])) fun w hw => h w ?_
  exact List.mem_cons_of_mem _ (List.mem_cons_of_mem _ hw)

theorem Kernel.Spares.mem {r : Span} {a : Nat} (h : k.Spares sz b r) (ha : a ∈ r) :
    (k.allocatedAt sz b wr user).mem a = k.mem a :=
  Kernel.allocatedAt_outside fun w hw haw => h w hw a haw ha

end Place

end OpenNE

import OpenNE.Memory.Heap
import Mathlib.Logic.Function.Basic

/-!
# The heap, object by object

What the heap is for, stated without bytes: each pointer has an information block and words of its own. Where a new
object lies is left open (`Placement`): anywhere but on a live one. A freed object keeps its words.
-/

namespace OpenNE

structure ObjectHeap where
  info : UInt64 → HeapInformationBlock
  words : UInt64 → Nat → UInt64

/-- The blocks `mm_delete_heap` takes back. -/
def ObjectHeap.Live (h : ObjectHeap) (p : UInt64) : Prop :=
  p ≠ 0 ∧ p - hibSize ≠ 0 ∧ (h.info p).fMagic = kKernelHeapMagic ∧ (h.info p).bit hibPresent = true

instance (h : ObjectHeap) (p : UInt64) : Decidable (h.Live p) := inferInstanceAs (Decidable (_ ∧ _ ∧ _ ∧ _))

/-- A choice of addresses. A search that finds none does not end. -/
structure Placement where
  place : ObjectHeap → UInt64 → Option UInt64
  place_fresh : ∀ {h sz p}, place h sz = some p → p ≠ 0 ∧ p - hibSize ≠ 0 ∧ ¬ h.Live p

namespace ObjectHeap

/-- Word `i` of the object at `p` assigned. -/
def setWord (h : ObjectHeap) (p : UInt64) (i : Nat) (v : UInt64) : ObjectHeap :=
  { h with words := Function.update h.words p (Function.update (h.words p) i v) }

/-- The first `n` words of the object at `p` zeroed. -/
def zeroWords (h : ObjectHeap) (p : UInt64) (n : Nat) : ObjectHeap :=
  { h with words := Function.update h.words p fun i => if i < n then 0 else h.words p i }

/-- The block `mm_new_heap` makes at `p`. -/
def create (h : ObjectHeap) (p szFix : UInt64) (wr user : Bool) : ObjectHeap :=
  { h with
    info := Function.update h.info p
      { (h.info p).created szFix p wr user with fPadding := ⟨List.replicate 16 0, rfl⟩ } }

/-- `mm_new_heap`. The loop over the padding zeroes the first six words of the payload too. -/
def mmNewHeap (env : Placement) (debug : Bool) (sz : UInt64) (wr user : Bool) (h : ObjectHeap) :
    Exec (UInt64 × ObjectHeap) := do
  if sz = 0 then return (0, h)
  mustPass debug (sz < kKernelHeapMaxSize)
  let szFix := sz + hibSize
  match env.place h szFix with
  | none => throw .unfinished
  | some p => return (p, (h.create p szFix wr user).zeroWords p 6)

/-- `mm_delete_heap`. -/
def mmDeleteHeap (heapPtr : UInt64) (h : ObjectHeap) : Int32 × ObjectHeap :=
  if mmCheckHeapAddress heapPtr = false then (kErrorHeapNotPresent, h)
  else if heapPtr - hibSize ≠ 0 ∧ (h.info heapPtr).fMagic = kKernelHeapMagic then
    if (h.info heapPtr).bit hibPresent = false then (kErrorHeapNotPresent, h)
    else (kErrorSuccess, { h with info := Function.update h.info heapPtr (h.info heapPtr).released })
  else (kErrorInternal, h)

/-! ### What the calls do to live objects and words -/

variable {wr user : Bool} {h : ObjectHeap} {p q : UInt64} {i n : Nat}

@[simp] theorem live_zeroWords : (h.zeroWords p n).Live q ↔ h.Live q := Iff.rfl

theorem words_setWord {v : UInt64} {j : Nat} :
    (h.setWord p i v).words q j = if q = p ∧ j = i then v else h.words q j := by
  by_cases hq : q = p
  · subst hq
    by_cases hj : j = i <;> simp [setWord, hj]
  · simp [setWord, hq]

theorem words_zeroWords_same (hlt : i < n) : (h.zeroWords p n).words p i = 0 := by
  simp [zeroWords, hlt]

theorem words_zeroWords_ne (hne : q ≠ p) : (h.zeroWords p n).words q i = h.words q i := by
  simp [zeroWords, hne]

theorem bit_present_setBit (info : HeapInformationBlock) :
    (info.setBit hibPresent true).bit hibPresent = true := by
  obtain ⟨magic, ⟨bs, hbs⟩, crc, flags, size, ptr, padding⟩ := info
  obtain ⟨b, rfl⟩ := List.length_eq_one_iff.mp hbs
  have hand : (b ||| hibPresent) &&& hibPresent = hibPresent := by
    apply UInt8.eq_of_toBitVec_eq
    ext i
    simp only [UInt8.toBitVec_and, UInt8.toBitVec_or, BitVec.getElem_and, BitVec.getElem_or,
      Bool.and_eq_right_iff_imp, Bool.or_eq_true]
    exact Or.inr
  simp only [HeapInformationBlock.setBit, HeapInformationBlock.bit, ↓reduceIte, List.map_cons, List.map_nil,
    List.any_cons, List.any_nil, hand]
  decide

theorem live_create {szFix : UInt64} (hp : p ≠ 0) (hinfo : p - hibSize ≠ 0) :
    (h.create p szFix wr user).Live q ↔ q = p ∨ h.Live q := by
  by_cases hq : q = p
  · subst hq
    simp only [Live, create, Function.update_self, true_or, iff_true]
    exact ⟨hp, hinfo, rfl, bit_present_setBit _⟩
  · simp [Live, create, hq]

theorem mmDeleteHeap_live (hp : h.Live p) :
    (mmDeleteHeap p h).1 = kErrorSuccess ∧ ∀ q, (mmDeleteHeap p h).2.Live q ↔ q ≠ p ∧ h.Live q := by
  obtain ⟨hne, hinfo, hmagic, hbit⟩ := hp
  have hret : mmDeleteHeap p h =
      (kErrorSuccess, { h with info := Function.update h.info p (h.info p).released }) := by
    simp [mmDeleteHeap, mmCheckHeapAddress, hne, hinfo, hmagic, hbit]
  refine ⟨by rw [hret], fun q => ?_⟩
  rw [hret]
  by_cases hq : q = p
  · subst hq
    have hzero : ((h.info q).released).fMagic = 0 := rfl
    simp [Live, hzero, kKernelHeapMagic]
  · simp [Live, hq]

theorem mmDeleteHeap_words : (mmDeleteHeap p h).2.words = h.words := by
  unfold mmDeleteHeap
  split_ifs <;> rfl

theorem mmDeleteHeap_info (hne : q ≠ p) : (mmDeleteHeap p h).2.info q = h.info q := by
  unfold mmDeleteHeap
  split_ifs
  · rfl
  · rfl
  · exact Function.update_of_ne hne ..
  · rfl

end ObjectHeap

/-- A heap without live objects. -/
def emptyHeap : ObjectHeap where
  info _ := ⟨0, ⟨[0], rfl⟩, 0, 0, 0, 0, ⟨List.replicate 16 0, rfl⟩⟩
  words _ _ := 0

end OpenNE

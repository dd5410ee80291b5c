import Mathlib.Data.List.Basic
import Mathlib.Tactic.Common

/-!
# Address ranges

A `Span` is the range `[start, start + len)`. Spans laid end to end (`Tiles`) are pairwise disjoint and
cover exactly the range between the first start and the last end.
-/

namespace OpenNE

/-- The addresses `[start, start + len)`. -/
structure Span where
  start : Nat
  len : Nat
  deriving DecidableEq, Repr

namespace Span

instance : Membership Nat Span where
  mem s x := s.start ≤ x ∧ x < s.start + s.len

instance (s : Span) (x : Nat) : Decidable (x ∈ s) := inferInstanceAs (Decidable (_ ∧ _))

theorem mem_def {s : Span} {x : Nat} : x ∈ s ↔ s.start ≤ x ∧ x < s.start + s.len := Iff.rfl

/-- No address lies in both. -/
def Disjoint (s t : Span) : Prop := ∀ x, x ∈ s → x ∉ t

theorem Disjoint.symm {s t : Span} (h : s.Disjoint t) : t.Disjoint s :=
  fun x ht hs => h x hs ht

theorem disjoint_of_le {s t : Span} (h : s.start + s.len ≤ t.start) : s.Disjoint t := by
  intro x hs ht
  rw [mem_def] at hs ht
  omega

theorem disjoint_iff {s t : Span} (hs : 0 < s.len) (ht : 0 < t.len) :
    s.Disjoint t ↔ s.start + s.len ≤ t.start ∨ t.start + t.len ≤ s.start := by
  constructor
  · intro h
    by_contra hne
    rw [not_or] at hne
    apply h (max s.start t.start)
    · rw [mem_def]; omega
    · rw [mem_def]; omega
  · rintro (h | h)
    · exact disjoint_of_le h
    · exact (disjoint_of_le h).symm

instance (s t : Span) : Decidable (s.Disjoint t) :=
  if hs : 0 < s.len then
    if ht : 0 < t.len then decidable_of_iff _ (disjoint_iff hs ht).symm
    else isTrue fun x _ hx => ht (by rw [mem_def] at hx; omega)
  else isTrue fun x hx _ => hs (by rw [mem_def] at hx; omega)

end Span

/-- The spans lie end to end from `a` to `e`. -/
def Tiles : Nat → List Span → Nat → Prop
  | a, [], e => a = e
  | a, s :: rest, e => s.start = a ∧ Tiles (a + s.len) rest e

namespace Tiles

instance decide : ∀ a l e, Decidable (Tiles a l e)
  | a, [], e => inferInstanceAs (Decidable (a = e))
  | a, s :: rest, e =>
    have := decide (a + s.len) rest e
    inferInstanceAs (Decidable (s.start = a ∧ Tiles (a + s.len) rest e))

theorem append {a e : Nat} {l r : List Span} :
    Tiles a (l ++ r) e ↔ ∃ m, Tiles a l m ∧ Tiles m r e := by
  induction l generalizing a with
  | nil => simp [Tiles]
  | cons s l ih => simp only [List.cons_append, Tiles, ih]; tauto

theorem le_end {a e : Nat} {l : List Span} (h : Tiles a l e) : a ≤ e := by
  induction l generalizing a with
  | nil => exact Nat.le_of_eq h
  | cons s l ih => exact Nat.le_trans (Nat.le_add_right a s.len) (ih h.2)

theorem end_unique {a e e' : Nat} {l : List Span} (h : Tiles a l e) (h' : Tiles a l e') : e = e' := by
  induction l generalizing a with
  | nil => exact h.symm.trans h'
  | cons s l ih => exact ih h.2 h'.2

theorem bounds {a e : Nat} {l : List Span} (h : Tiles a l e) {s : Span} (hs : s ∈ l) :
    a ≤ s.start ∧ s.start + s.len ≤ e := by
  induction l generalizing a with
  | nil => simp at hs
  | cons t l ih =>
    have hend := h.2.le_end
    rcases List.mem_cons.mp hs with rfl | hs
    · have := h.1
      omega
    · have := ih h.2 hs
      omega

theorem pairwise {a e : Nat} {l : List Span} (h : Tiles a l e) :
    l.Pairwise fun s t => s.start + s.len ≤ t.start := by
  induction l generalizing a with
  | nil => exact List.Pairwise.nil
  | cons s l ih =>
    refine List.pairwise_cons.mpr ⟨fun t ht => ?_, ih h.2⟩
    have := h.1
    have := (bounds h.2 ht).1
    omega

end Tiles

end OpenNE

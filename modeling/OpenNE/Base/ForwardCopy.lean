import Mathlib.Data.Nat.Init
import Mathlib.Tactic.Common

/-!
# Copies from the front

A copy that goes from the first place to the last and may overlap its source takes some of what it copies from where
it has been before. What it leaves is the source as it was exactly when those places held the same to begin with
(`ForwardCopy.exact_iff`).
-/

namespace OpenNE

variable {α : Type}

/-- `out` is what a copy of `n` places from `src` to `dst` leaves, when `bytes` is the source as it was and `reread i`
says that place `i` is read where the copy has written. -/
structure ForwardCopy (out bytes : Nat → α) (src dst n : Nat) (reread : Nat → Prop) : Prop where
  moved : ∀ i < n, reread i → out (dst + i) = out (src + i)
  kept : ∀ i < n, ¬ reread i → out (dst + i) = bytes i
  behind : ∀ i < n, reread i → dst ≤ src + i ∧ src + i < dst + i

namespace ForwardCopy

variable {out bytes : Nat → α} {src dst n i : Nat} {reread : Nat → Prop}

theorem earlier (h : ForwardCopy out bytes src dst n reread) (hi : i < n) (hreread : reread i) :
    src + i - dst < i ∧ out (dst + i) = out (dst + (src + i - dst)) := by
  obtain ⟨hlow, hhigh⟩ := h.behind i hi hreread
  refine ⟨by omega, ?_⟩
  rw [h.moved i hi hreread, Nat.add_sub_cancel' hlow]

theorem from_source (h : ForwardCopy out bytes src dst n reread) (hi : i < n) : ∃ k ≤ i, out (dst + i) = bytes k := by
  induction i using Nat.strong_induction_on with
  | _ i ih =>
    by_cases hreread : reread i
    · obtain ⟨hlt, hsame⟩ := h.earlier hi hreread
      obtain ⟨k, hk, hfrom⟩ := ih _ hlt (Nat.lt_trans hlt hi)
      exact ⟨k, Nat.le_of_lt (Nat.lt_of_le_of_lt hk hlt), hsame.trans hfrom⟩
    · exact ⟨i, Nat.le_refl i, h.kept i hi hreread⟩

theorem exact_iff (h : ForwardCopy out bytes src dst n reread) :
    (∀ i < n, out (dst + i) = bytes i) ↔ ∀ i < n, reread i → bytes i = bytes (src + i - dst) := by
  constructor
  · intro hexact i hi hreread
    obtain ⟨hlt, hsame⟩ := h.earlier hi hreread
    rw [← hexact i hi, hsame, hexact _ (Nat.lt_trans hlt hi)]
  · intro hbytes i
    induction i using Nat.strong_induction_on with
    | _ i ih =>
      intro hi
      by_cases hreread : reread i
      · obtain ⟨hlt, hsame⟩ := h.earlier hi hreread
        rw [hsame, ih _ hlt (Nat.lt_trans hlt hi), hbytes i hi hreread]
      · exact h.kept i hi hreread

end ForwardCopy

end OpenNE

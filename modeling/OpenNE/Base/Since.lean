import Mathlib.Data.List.Induction

/-!
# What was started and not stopped since

`Since start stop l`: in the history `l`, oldest first, there is a `start` with no `stop` behind it. It is decided by
the last entry, or left to those before (`since_snoc`).
-/

namespace OpenNE

variable {α : Type} {start stop a : α} {l : List α}

/-- A `start`, and no `stop` since. -/
def Since (start stop : α) (l : List α) : Prop := ∃ before after, l = before ++ start :: after ∧ stop ∉ after

theorem not_since_nil : ¬ Since start stop [] := by
  rintro ⟨before, after, hsplit, -⟩
  cases before <;> cases hsplit

theorem since_snoc : Since start stop (l ++ [a]) ↔ a = start ∨ a ≠ stop ∧ Since start stop l := by
  constructor
  · rintro ⟨before, after, hsplit, hafter⟩
    rcases List.eq_nil_or_concat after with rfl | ⟨after, last, rfl⟩
    · have hlast := (List.append_inj' hsplit rfl).2
      exact .inl (List.singleton_inj.mp hlast)
    · rw [List.concat_eq_append] at hsplit hafter
      rw [← List.cons_append, ← List.append_assoc] at hsplit
      obtain ⟨hl, hlast⟩ := List.append_inj' hsplit rfl
      rw [← List.singleton_inj.mp hlast, List.mem_append, List.mem_singleton, not_or] at hafter
      exact .inr ⟨fun h => hafter.2 h.symm, before, after, hl, hafter.1⟩
  · rintro (rfl | ⟨hne, before, after, rfl, hafter⟩)
    · exact ⟨l, [], rfl, List.not_mem_nil⟩
    · refine ⟨before, after ++ [a], by rw [List.append_assoc, List.cons_append], ?_⟩
      rw [List.mem_append, List.mem_singleton, not_or]
      exact ⟨hafter, fun h => hne h.symm⟩

end OpenNE

import OpenNE.Base.Run

/-!
# The last write wins

Of the operations of a run some write a place, the others leave it alone. Where a write keeps nothing of the one before
it, the place holds at the end what the last of them makes of what it held at first (`Run.last_write`).
-/

namespace OpenNE

section Log

variable {ι : Type} (writes : ι → Prop) [DecidablePred writes]

/-- The last of the operations that write. -/
def lastWrite (ops : List ι) : Option ι := ops.reverse.find? fun op => decide (writes op)

theorem lastWrite_snoc (ops : List ι) (op : ι) :
    lastWrite writes (ops ++ [op]) = if writes op then some op else lastWrite writes ops := by
  unfold lastWrite
  rw [List.reverse_concat, List.find?_cons]
  by_cases h : writes op
  · rw [decide_eq_true h, if_pos h]
  · rw [decide_eq_false h, if_neg h]

theorem lastWrite_some {ops : List ι} {op : ι} (h : lastWrite writes ops = some op) : writes op := by
  have hfound := List.find?_some h
  exact of_decide_eq_true hfound

theorem lastWrite_all (ops : List ι) : lastWrite (fun _ => True) ops = ops.getLast? := by
  induction ops using List.reverseRecOn with
  | nil => rfl
  | append_singleton ops op => rw [lastWrite_snoc, if_pos trivial, List.getLast?_concat]

end Log

theorem lastWrite_range {writes : Nat → Prop} [DecidablePred writes] {n k : Nat} (hk : k < n) (hwrites : writes k)
    (hlast : ∀ j, k < j → j < n → ¬writes j) : lastWrite writes (List.range n) = some k := by
  induction n with
  | zero => omega
  | succ n ih =>
    rw [List.range_succ, lastWrite_snoc]
    by_cases hn : k = n
    · rw [← hn, if_pos hwrites]
    · rw [if_neg (hlast n (by omega) (Nat.lt_succ_self n))]
      exact ih (by omega) fun j hj hjn => hlast j hj (by omega)

section Run

variable {σ ι α : Type} {step : σ → ι → σ → Prop} {s s' : σ} {ops : List ι} {writes : ι → Prop} [DecidablePred writes]

theorem Run.last_write (view : σ → α) (write : α → ι → α)
    (habsorb : ∀ a op op', writes op → writes op' → write (write a op) op' = write a op')
    (hwrites : ∀ s op s', step s op s' → writes op → view s' = write (view s) op)
    (hskips : ∀ s op s', step s op s' → ¬writes op → view s' = view s) (h : Run step s ops s') :
    view s' = (lastWrite writes ops).elim (view s) (write (view s)) := by
  induction h with
  | nil => rfl
  | @snoc s₁ s' ops op _ hlast ih =>
    rw [lastWrite_snoc]
    by_cases hop : writes op
    · rw [if_pos hop, hwrites _ _ _ hlast hop, ih]
      cases hprev : lastWrite writes ops with
      | none => rfl
      | some op' => exact habsorb _ op' op (lastWrite_some writes hprev) hop
    · rw [if_neg hop, hskips _ _ _ hlast hop]
      exact ih

theorem Run.last_op (view : σ → α) (write : α → ι → α) (habsorb : ∀ a op op', write (write a op) op' = write a op')
    (hwrites : ∀ s op s', step s op s' → view s' = write (view s) op) (h : Run step s ops s') :
    view s' = ops.getLast?.elim (view s) (write (view s)) := by
  have hlast : view s' = (lastWrite (fun _ : ι => True) ops).elim (view s) (write (view s)) :=
    h.last_write view write (fun a op op' _ _ => habsorb a op op') (fun s op s' hstep _ => hwrites s op s' hstep)
      fun _ _ _ _ hskip => absurd trivial hskip
  rw [hlast, lastWrite_all]

end Run

end OpenNE

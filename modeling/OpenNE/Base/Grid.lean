import Mathlib.Data.List.Range
import Mathlib.Logic.Function.Basic

/-!
# Loops over a rectangle

Two nested loops that write one cell in each round. What they make of a picture is said of each cell at once
(`gridLoop_paints`).
-/

namespace OpenNE

/-- A value for every cell, by its row and its column. -/
abbrev Picture (α : Type) := Nat × Nat → α

/-- The rows from `row` on, and the columns of each from `column` on. -/
def gridLoop {σ : Type} (f : σ → Nat → Nat → σ) (row rows column columns : Nat) (s : σ) : σ :=
  (List.range' row rows).foldl (fun s i => (List.range' column columns).foldl (fun s j => f s i j) s) s

/-- The cell lies in the rectangle. -/
def InGrid (row rows column columns : Nat) (p : Nat × Nat) : Prop :=
  (row ≤ p.1 ∧ p.1 < row + rows) ∧ column ≤ p.2 ∧ p.2 < column + columns

instance (row rows column columns : Nat) : DecidablePred (InGrid row rows column columns) := fun _ =>
  inferInstanceAs (Decidable (_ ∧ _))

/-- The picture with each cell of the rectangle painted over, by its place in the rectangle. -/
def paintGrid {α : Type} (paint : Nat → Nat → α → α) (row rows column columns : Nat) (picture : Picture α) :
    Picture α :=
  fun p => if InGrid row rows column columns p then paint (p.1 - row) (p.2 - column) (picture p) else picture p

theorem gridLoop_shift {σ : Type} (f : σ → Nat → Nat → σ) (row rows column columns : Nat) (s : σ) :
    gridLoop f 0 rows 0 columns s = gridLoop (fun s i j => f s (i - row) (j - column)) row rows column columns s := by
  have hrows : List.range' row rows = (List.range' 0 rows).map (row + ·) := (List.map_add_range' 0 rows 1).symm
  have hcolumns : List.range' column columns = (List.range' 0 columns).map (column + ·) :=
    (List.map_add_range' 0 columns 1).symm
  unfold gridLoop
  rw [hrows, List.foldl_map]
  simp only [hcolumns, List.foldl_map, Nat.add_sub_cancel_left]

section Loop

variable {σ α : Type} {row rows column columns : Nat} {rel : Nat → σ → Picture α → Prop}

theorem rowLoop_paints {f : σ → Nat → Nat → σ} {paint : Nat → α → α} {i n : Nat} {s : σ} {picture : Picture α}
    (hstep : ∀ j < columns, ∀ s picture, rel (n + j) s picture →
      rel (n + j + 1) (f s i (column + j))
        (Function.update picture (i, column + j) (paint j (picture (i, column + j)))))
    (hrel : rel n s picture) :
    rel (n + columns) ((List.range' column columns).foldl (fun s j => f s i j) s)
      fun p => if p.1 = i ∧ column ≤ p.2 ∧ p.2 < column + columns then paint (p.2 - column) (picture p)
        else picture p := by
  induction columns with
  | zero =>
    have hsame : (fun p : Nat × Nat => if p.1 = i ∧ column ≤ p.2 ∧ p.2 < column + 0
        then paint (p.2 - column) (picture p) else picture p) = picture := by
      funext p
      rw [if_neg]
      omega
    rw [hsame]
    exact hrel
  | succ columns ih =>
    have hprev := hstep columns (Nat.lt_succ_self columns) _ _ (ih fun j hj => hstep j (Nat.lt_succ_of_lt hj))
    rw [List.range'_concat, List.foldl_append, Nat.one_mul]
    refine (congrArg (rel _ _) (funext fun p => ?_)).mpr hprev
    by_cases hp : p = (i, column + columns)
    · subst hp
      rw [Function.update_self, if_pos ⟨rfl, by omega⟩, if_neg (by omega), Nat.add_sub_cancel_left]
    · have hiff : p.1 = i ∧ column ≤ p.2 ∧ p.2 < column + (columns + 1) ↔
          p.1 = i ∧ column ≤ p.2 ∧ p.2 < column + columns := by
        have hne : ¬(p.1 = i ∧ p.2 = column + columns) := fun h => hp (Prod.ext h.1 h.2)
        omega
      rw [Function.update_of_ne hp]
      simp only [hiff]

theorem gridLoop_paints (f : σ → Nat → Nat → σ) (paint : Nat → Nat → α → α) (rel : Nat → σ → Picture α → Prop)
    {s : σ} {picture : Picture α}
    (hstep : ∀ i < rows, ∀ j < columns, ∀ s picture, rel (i * columns + j) s picture →
      rel (i * columns + j + 1) (f s (row + i) (column + j)) (Function.update picture (row + i, column + j)
        (paint i j (picture (row + i, column + j)))))
    (hrel : rel 0 s picture) :
    rel (rows * columns) (gridLoop f row rows column columns s) (paintGrid paint row rows column columns picture) := by
  unfold gridLoop
  induction rows with
  | zero =>
    have hsame : paintGrid paint row 0 column columns picture = picture := by
      funext p
      apply if_neg
      unfold InGrid
      omega
    rw [hsame, Nat.zero_mul]
    exact hrel
  | succ rows ih =>
    have hprev := rowLoop_paints (fun j hj => hstep rows (Nat.lt_succ_self rows) j hj)
      (ih fun i hi => hstep i (Nat.lt_succ_of_lt hi))
    rw [List.range'_concat, List.foldl_append, Nat.one_mul, Nat.succ_mul]
    refine (congrArg (rel _ _) (funext fun p => ?_)).mpr hprev
    unfold paintGrid InGrid
    by_cases hp : p.1 = row + rows
    · have houtside : ¬((row ≤ p.1 ∧ p.1 < row + rows) ∧ column ≤ p.2 ∧ p.2 < column + columns) := by omega
      have hiff : (row ≤ p.1 ∧ p.1 < row + (rows + 1)) ∧ column ≤ p.2 ∧ p.2 < column + columns ↔
          p.1 = row + rows ∧ column ≤ p.2 ∧ p.2 < column + columns := by
        omega
      have hround : p.1 - row = rows := by omega
      simp only [if_neg houtside, hiff, hround]
    · have houtside : ¬(p.1 = row + rows ∧ column ≤ p.2 ∧ p.2 < column + columns) := fun h => hp h.1
      have hiff : (row ≤ p.1 ∧ p.1 < row + (rows + 1)) ∧ column ≤ p.2 ∧ p.2 < column + columns ↔
          (row ≤ p.1 ∧ p.1 < row + rows) ∧ column ≤ p.2 ∧ p.2 < column + columns := by
        omega
      simp only [if_neg houtside, hiff]
      congr

end Loop

end OpenNE

import Mathlib.Data.List.GetD
import Mathlib.Tactic.Common

/-!
# Byte-addressed stores

A store gives every address its byte. Reads and writes are of byte lists. The frame lemmas say that a
write is read back where it was made (`read_write_same`) and nowhere else (`read_write_disjoint`).
-/

namespace OpenNE

abbrev Store := Nat → UInt8

namespace Store

/-- The `n` bytes from `a` on. -/
def read (s : Store) (a n : Nat) : List UInt8 :=
  (List.range n).map fun i => s (a + i)

/-- The store with `bs` laid down from `a` on. -/
def write (s : Store) (a : Nat) (bs : List UInt8) : Store := fun x =>
  if a ≤ x ∧ x < a + bs.length then bs.getD (x - a) 0 else s x

@[simp] theorem read_length (s : Store) (a n : Nat) : (s.read a n).length = n := by
  simp [read]

theorem read_add (s : Store) (a m n : Nat) : s.read a (m + n) = s.read a m ++ s.read (a + m) n := by
  simp only [read, List.range_add, List.map_append, List.map_map]
  congr 1
  exact List.map_congr_left fun i _ => by simp [Nat.add_assoc]

theorem write_apply_outside {s : Store} {a x : Nat} {bs : List UInt8}
    (h : x < a ∨ a + bs.length ≤ x) : s.write a bs x = s x := by
  rw [write, if_neg (by omega)]

theorem write_apply_inside {s : Store} {a i : Nat} {bs : List UInt8} (h : i < bs.length) :
    s.write a bs (a + i) = bs[i] := by
  rw [write, if_pos (by omega), Nat.add_sub_cancel_left, List.getD_eq_getElem _ _ h]

theorem write_read_inside {s t : Store} {a b n i : Nat} (h : i < n) : s.write a (t.read b n) (a + i) = t (b + i) := by
  rw [write_apply_inside (by simpa using h)]
  simp [read]

theorem read_congr {s t : Store} {a n : Nat} (h : ∀ x, a ≤ x → x < a + n → s x = t x) :
    s.read a n = t.read a n := by
  apply List.map_congr_left
  intro i hi
  have := List.mem_range.mp hi
  exact h (a + i) (by omega) (by omega)

theorem read_write_same {s : Store} {a : Nat} {bs : List UInt8} :
    (s.write a bs).read a bs.length = bs := by
  apply List.ext_getElem (by simp)
  intro i hi _
  rw [read_length] at hi
  simp only [read, List.getElem_map, List.getElem_range]
  exact write_apply_inside hi

theorem read_write_disjoint {s : Store} {a b n : Nat} {bs : List UInt8}
    (h : b + n ≤ a ∨ a + bs.length ≤ b) : (s.write a bs).read b n = s.read b n :=
  read_congr fun _ _ _ => write_apply_outside (by omega)

theorem write_append (s : Store) (a : Nat) (bs cs : List UInt8) :
    (s.write a bs).write (a + bs.length) cs = s.write a (bs ++ cs) := by
  funext x
  simp only [write, List.length_append]
  by_cases hlast : a + bs.length ≤ x ∧ x < a + bs.length + cs.length
  · rw [if_pos hlast, if_pos (by omega), List.getD_append_right _ _ _ _ (by omega)]
    congr 1
    omega
  · by_cases hfirst : a ≤ x ∧ x < a + bs.length
    · rw [if_neg hlast, if_pos hfirst, if_pos (by omega), List.getD_append _ _ _ _ (by omega)]
    · rw [if_neg hlast, if_neg hfirst, if_neg (by omega)]

theorem write_nil (s : Store) (a : Nat) : s.write a [] = s := by
  funext x
  exact write_apply_outside (by rw [List.length_nil]; omega)

theorem eq_of_read_eq {s t : Store} {a n x : Nat} (h : s.read a n = t.read a n) (hlow : a ≤ x)
    (hhigh : x < a + n) : s x = t x := by
  have hbyte := congrArg (fun bs => bs[x - a]?) h
  have hlt : x - a < n := by omega
  have haddr : a + (x - a) = x := by omega
  simpa [read, hlt, haddr] using hbyte

theorem read_zeroed {s : Store} {a n : Nat} (h : ∀ x, a ≤ x → x < a + n → s x = 0) :
    s.read a n = List.replicate n 0 := by
  refine List.eq_replicate_iff.mpr ⟨by simp, fun b hb => ?_⟩
  obtain ⟨i, hi, rfl⟩ := List.mem_map.mp hb
  have := List.mem_range.mp hi
  exact h (a + i) (by omega) (by omega)

end Store

end OpenNE

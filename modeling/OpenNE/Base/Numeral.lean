import Mathlib.Data.List.GetD
import Mathlib.Data.Nat.Digits.Lemmas
import Mathlib.Tactic.Common

/-!
# Numerals

The numeral of a number to a base: its digits, the most significant first, zero being written with one digit. A
numeral is the numeral of the quotient followed by the last digit (`numeral_of_le`), which is how it is printed
recursively, and its digits can be read off one by one (`numeral_getD`), which is how it is printed in a loop.
-/

namespace OpenNE

/-- The digits of `n` to the base `b`. -/
def numeral (b n : Nat) : List Nat := if n = 0 then [0] else (b.digits n).reverse

variable {b m n : Nat}

theorem numeral_of_lt (h : n < b) : numeral b n = [n] := by
  rw [numeral]
  split_ifs with hzero
  · rw [hzero]
  · rw [Nat.digits_of_lt b n hzero h, List.reverse_singleton]

theorem numeral_of_le (hb : 1 < b) (h : b ≤ n) : numeral b n = numeral b (n / b) ++ [n % b] := by
  have hpos : 0 < n := by omega
  have hquot : n / b ≠ 0 := (Nat.div_pos h (by omega)).ne'
  rw [numeral, numeral, if_neg hpos.ne', if_neg hquot, Nat.digits_def' hb hpos, List.reverse_cons]

theorem ofDigits_numeral (b n : Nat) : Nat.ofDigits b (numeral b n).reverse = n := by
  rw [numeral]
  split_ifs with hzero
  · rw [hzero]
    rfl
  · rw [List.reverse_reverse, Nat.ofDigits_digits]

theorem numeral_inj : numeral b m = numeral b n ↔ m = n := by
  refine ⟨fun h => ?_, fun h => by rw [h]⟩
  rw [← ofDigits_numeral b m, h, ofDigits_numeral]

theorem length_numeral (hb : 1 < b) (n : Nat) : (numeral b n).length = Nat.log b n + 1 := by
  rw [numeral]
  split_ifs with hzero
  · rw [hzero, Nat.log_zero_right]
    rfl
  · rw [List.length_reverse, Nat.length_digits b n hb hzero]

theorem lt_of_mem_numeral (hb : 1 < b) {d : Nat} (h : d ∈ numeral b n) : d < b := by
  rw [numeral] at h
  split_ifs at h with hzero
  · rw [List.mem_singleton.mp h]
    omega
  · exact Nat.digits_lt_base hb (List.mem_reverse.mp h)

theorem numeral_getD (hb : 1 < b) {i : Nat} (hi : i ≤ Nat.log b n) :
    (numeral b n).getD i 0 = n / b ^ (Nat.log b n - i) % b := by
  rw [numeral]
  split_ifs with hzero
  · have hfirst : i = 0 := by
      rw [hzero, Nat.log_zero_right] at hi
      omega
    rw [hfirst, hzero, Nat.zero_div, Nat.zero_mod]
    rfl
  · have hlen : (b.digits n).length = Nat.log b n + 1 := Nat.length_digits b n hb hzero
    rw [List.getD_eq_getElem?_getD, List.getElem?_reverse (by omega), ← List.getD_eq_getElem?_getD,
      Nat.getD_digits n _ (by omega), hlen, Nat.add_sub_cancel]

/-! ### Turned -/

/-- The numeral of `d` digits with its first `i` digits moved to its end. -/
def turned (b d n i : Nat) : Nat := n % b ^ (d - i) * b ^ i + n / b ^ (d - i)

theorem turned_zero {d : Nat} (h : n < b ^ d) : turned b d n 0 = n := by
  rw [turned, Nat.sub_zero, Nat.mod_eq_of_lt h, Nat.div_eq_of_lt h, Nat.pow_zero, Nat.mul_one, Nat.add_zero]

theorem mod_pow_succ_eq (b n j : Nat) : n % b ^ (j + 1) = n / b ^ j % b * b ^ j + n % b ^ j := by
  rw [Nat.pow_succ, Nat.mod_mul, Nat.mul_comm (b ^ j), Nat.add_comm]

theorem div_pow_eq (b n j : Nat) : n / b ^ j = n / b ^ (j + 1) * b + n / b ^ j % b := by
  rw [Nat.pow_succ, ← Nat.div_div_eq_div_mul, Nat.mul_comm, Nat.div_add_mod]

theorem turned_succ {d i : Nat} (hb : 0 < b) (h : n < b ^ (d + 1)) (hi : i ≤ d) :
    turned b (d + 1) n i % b ^ d * b + turned b (d + 1) n i / b ^ d = turned b (d + 1) n (i + 1) := by
  obtain ⟨j, rfl⟩ : ∃ j, d = j + i := ⟨d - i, by omega⟩
  have hleft : j + i + 1 - i = j + 1 := by omega
  have hnext : j + i + 1 - (i + 1) = j := by omega
  have hmoved : n / b ^ (j + 1) < b ^ i := by
    rw [Nat.div_lt_iff_lt_mul (Nat.pow_pos hb), ← Nat.pow_add, show i + (j + 1) = j + i + 1 by omega]
    exact h
  have hbehind : n % b ^ j * b ^ i + n / b ^ (j + 1) < b ^ (j + i) := by
    have hrest : n % b ^ j + 1 ≤ b ^ j := Nat.mod_lt n (Nat.pow_pos hb)
    calc n % b ^ j * b ^ i + n / b ^ (j + 1) < n % b ^ j * b ^ i + b ^ i := Nat.add_lt_add_left hmoved _
      _ = (n % b ^ j + 1) * b ^ i := (Nat.succ_mul _ _).symm
      _ ≤ b ^ j * b ^ i := Nat.mul_le_mul_right _ hrest
      _ = b ^ (j + i) := (Nat.pow_add _ _ _).symm
  have hsplit : turned b (j + i + 1) n i =
      n / b ^ j % b * b ^ (j + i) + (n % b ^ j * b ^ i + n / b ^ (j + 1)) := by
    rw [turned, hleft, mod_pow_succ_eq, Nat.add_mul, Nat.mul_assoc, ← Nat.pow_add, Nat.add_assoc]
  have hdigit : (n / b ^ j % b * b ^ (j + i) + (n % b ^ j * b ^ i + n / b ^ (j + 1))) / b ^ (j + i) =
      n / b ^ j % b := by
    rw [Nat.add_comm, Nat.add_mul_div_right _ _ (Nat.pow_pos hb), Nat.div_eq_of_lt hbehind, Nat.zero_add]
  calc turned b (j + i + 1) n i % b ^ (j + i) * b + turned b (j + i + 1) n i / b ^ (j + i)
      = (n % b ^ j * b ^ i + n / b ^ (j + 1)) * b + n / b ^ j % b := by
        rw [hsplit, Nat.mul_add_mod_of_lt hbehind, hdigit]
    _ = n % b ^ j * b ^ (i + 1) + (n / b ^ (j + 1) * b + n / b ^ j % b) := by
        rw [Nat.add_mul, Nat.mul_assoc, ← Nat.pow_succ, Nat.add_assoc]
    _ = turned b (j + i + 1) n (i + 1) := by rw [turned, hnext, ← div_pow_eq]

theorem turned_lt {d i : Nat} (hb : 0 < b) (h : n < b ^ d) (hi : i ≤ d) : turned b d n i < b ^ d := by
  have hrest : n % b ^ (d - i) + 1 ≤ b ^ (d - i) := Nat.mod_lt n (Nat.pow_pos hb)
  have hmoved : n / b ^ (d - i) < b ^ i := by
    rw [Nat.div_lt_iff_lt_mul (Nat.pow_pos hb), ← Nat.pow_add, show i + (d - i) = d by omega]
    exact h
  calc turned b d n i < n % b ^ (d - i) * b ^ i + b ^ i := Nat.add_lt_add_left hmoved _
    _ = (n % b ^ (d - i) + 1) * b ^ i := (Nat.succ_mul _ _).symm
    _ ≤ b ^ (d - i) * b ^ i := Nat.mul_le_mul_right _ hrest
    _ = b ^ d := by rw [← Nat.pow_add, show d - i + i = d by omega]

theorem turned_mod {d i : Nat} : turned b d n (i + 1) % b = n / b ^ (d - (i + 1)) % b := by
  rw [turned, Nat.pow_succ, ← Nat.mul_assoc, Nat.mul_add_mod_self_right]

/-! ### In characters -/

/-- A digit as a character; the letters are capitals. -/
def digitChar (d : Nat) : UInt8 := if d < 10 then UInt8.ofNat (48 + d) else UInt8.ofNat (55 + d)

/-- What a digit stands for. -/
def charDigit (c : UInt8) : Nat := if c.toNat < 65 then c.toNat - 48 else c.toNat - 55

def numeralText (b n : Nat) : List UInt8 := (numeral b n).map digitChar

theorem charDigit_digitChar {d : Nat} (h : d < 36) : charDigit (digitChar d) = d := by
  rw [digitChar]
  split_ifs with hten
  · rw [charDigit, UInt8.toNat_ofNat_of_lt' (by rw [UInt8.size]; omega), if_pos (by omega)]
    omega
  · rw [charDigit, UInt8.toNat_ofNat_of_lt' (by rw [UInt8.size]; omega), if_neg (by omega)]
    omega

theorem numeralText_inj (hb : 1 < b) (hle : b ≤ 36) : numeralText b m = numeralText b n ↔ m = n := by
  have hback : ∀ k, (numeralText b k).map charDigit = numeral b k := by
    intro k
    rw [numeralText, List.map_map]
    refine (List.map_congr_left fun d hd => ?_).trans (List.map_id _)
    exact charDigit_digitChar (Nat.lt_of_lt_of_le (lt_of_mem_numeral hb hd) hle)
  refine ⟨fun h => ?_, fun h => by rw [h]⟩
  rw [← numeral_inj (b := b), ← hback m, h, hback]

theorem numeralText_of_lt (h : n < b) : numeralText b n = [digitChar n] := by
  rw [numeralText, numeral_of_lt h, List.map_singleton]

theorem numeralText_of_le (hb : 1 < b) (h : b ≤ n) :
    numeralText b n = numeralText b (n / b) ++ [digitChar (n % b)] := by
  rw [numeralText, numeral_of_le hb h, List.map_append, List.map_singleton, numeralText]

theorem length_numeralText (hb : 1 < b) (n : Nat) : (numeralText b n).length = Nat.log b n + 1 := by
  rw [numeralText, List.length_map, length_numeral hb]

theorem numeralText_take_succ (hb : 1 < b) {i : Nat} (hi : i ≤ Nat.log b n) :
    (numeralText b n).take (i + 1) =
      (numeralText b n).take i ++ [digitChar (n / b ^ (Nat.log b n - i) % b)] := by
  have hlen : i < (numeral b n).length := by
    rw [length_numeral hb]
    omega
  have hdigit := numeral_getD hb hi
  rw [List.getD_eq_getElem _ _ hlen] at hdigit
  rw [numeralText, List.take_succ_eq_append_getElem (by rw [List.length_map]; exact hlen), List.getElem_map, hdigit]

end OpenNE

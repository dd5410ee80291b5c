import Mathlib.Logic.Function.Iterate
import Mathlib.Tactic.Common

/-!
# Reflected CRCs

Checks that divide by a polynomial, the lowest bit first. A bit step is linear in the exclusive or (`bitStep_xor`),
and only shifts a remainder whose low bits are clear (`bitSteps_of_clear`). So the steps of a byte are those of the
low byte of the remainder and a shift of what is above it (`byteStep_eq`), and a table of 256 words is enough.
-/

namespace OpenNE

namespace ReflectedCrc

variable {w : Nat}

/-- The remainder after one more bit: the polynomial is taken off when a one is shifted out. -/
def bitStep (poly x : BitVec w) : BitVec w :=
  if x.getLsbD 0 = true then (x >>> 1) ^^^ poly else x >>> 1

def bitSteps (poly : BitVec w) (n : Nat) (x : BitVec w) : BitVec w := (bitStep poly)^[n] x

/-- The remainder after one more byte. -/
def byteStep (poly x : BitVec w) (b : BitVec 8) : BitVec w := bitSteps poly 8 (x ^^^ b.setWidth w)

/-- The check of a byte string, bit by bit. -/
def check (poly start final : BitVec w) (bytes : List (BitVec 8)) : BitVec w :=
  bytes.foldl (byteStep poly) start ^^^ final

section Steps

variable {poly : BitVec w} {n : Nat}

theorem bitStep_xor (x y : BitVec w) : bitStep poly (x ^^^ y) = bitStep poly x ^^^ bitStep poly y := by
  have hself : ∀ a : BitVec w, a ^^^ poly ^^^ poly = a := by
    intro a
    rw [BitVec.xor_assoc, BitVec.xor_self, BitVec.xor_zero]
  unfold bitStep
  rw [BitVec.getLsbD_xor, BitVec.ushiftRight_xor_distrib]
  by_cases hx : x.getLsbD 0 = true
  · by_cases hy : y.getLsbD 0 = true
    · -- the polynomial is taken off on both sides, and so not at all
      rw [if_pos hx, if_pos hy, if_neg (by simp [hx, hy]), BitVec.xor_comm (y >>> 1), ← BitVec.xor_assoc, hself]
    · rw [if_pos hx, if_neg hy, if_pos (by simp [hx, hy]), BitVec.xor_assoc, BitVec.xor_comm (y >>> 1),
        ← BitVec.xor_assoc]
  · by_cases hy : y.getLsbD 0 = true
    · rw [if_neg hx, if_pos hy, if_pos (by simp [hx, hy]), BitVec.xor_assoc]
    · rw [if_neg hx, if_neg hy, if_neg (by simp [hx, hy])]

theorem bitSteps_xor (x y : BitVec w) : bitSteps poly n (x ^^^ y) = bitSteps poly n x ^^^ bitSteps poly n y := by
  induction n generalizing x y with
  | zero => rfl
  | succ n ih =>
    simp only [bitSteps, Function.iterate_succ_apply, bitStep_xor] at ih ⊢
    exact ih _ _

theorem bitSteps_of_clear {x : BitVec w} (hclear : ∀ i < n, x.getLsbD i = false) : bitSteps poly n x = x >>> n := by
  induction n with
  | zero => simp [bitSteps]
  | succ n ih =>
    have hlow : (x >>> n).getLsbD 0 = false := by
      rw [BitVec.getLsbD_ushiftRight]
      exact hclear n n.lt_succ_self
    have hfirst := ih fun i hi => hclear i (Nat.lt_succ_of_lt hi)
    simp only [bitSteps, Function.iterate_succ_apply'] at hfirst ⊢
    rw [hfirst, bitStep, if_neg (by simp [hlow]), BitVec.shiftRight_add]

theorem bitSteps_split (x : BitVec w) :
    bitSteps poly n x = bitSteps poly n ((x.setWidth n).setWidth w) ^^^ (x >>> n) := by
  let low : BitVec w := (x.setWidth n).setWidth w
  have hlow : ∀ i, low.getLsbD i = (decide (i < n) && x.getLsbD i) := by
    intro i
    simp only [low, BitVec.getLsbD_setWidth]
    by_cases hi : i < w
    · simp [hi]
    · simp [BitVec.getLsbD_of_ge x i (by omega)]
  have hclear : ∀ i < n, (low ^^^ x).getLsbD i = false := by
    intro i hi
    simp [hlow, hi]
  have hshift : (low ^^^ x) >>> n = x >>> n := by
    apply BitVec.eq_of_getLsbD_eq
    intro i _
    have habove : ¬ n + i < n := by omega
    simp [hlow, habove]
  have hx : x = low ^^^ (low ^^^ x) := by
    rw [← BitVec.xor_assoc, BitVec.xor_self, BitVec.zero_xor]
  calc bitSteps poly n x = bitSteps poly n low ^^^ bitSteps poly n (low ^^^ x) := by rw [← bitSteps_xor, ← hx]
    _ = bitSteps poly n low ^^^ (x >>> n) := by rw [bitSteps_of_clear hclear, hshift]

theorem byteStep_eq (hw : 8 ≤ w) (x : BitVec w) (b : BitVec 8) :
    byteStep poly x b = bitSteps poly 8 ((x.setWidth 8 ^^^ b).setWidth w) ^^^ (x >>> 8) := by
  have hbyte : b.setWidth w >>> 8 = 0#w := by
    apply BitVec.eq_of_getLsbD_eq
    intro i _
    simp [BitVec.getLsbD_ushiftRight, BitVec.getLsbD_setWidth]
  have hlow : (x ^^^ b.setWidth w).setWidth 8 = x.setWidth 8 ^^^ b := by
    rw [BitVec.setWidth_xor, BitVec.setWidth_setWidth_of_le b hw, BitVec.setWidth_eq]
  rw [byteStep, bitSteps_split, hlow, BitVec.ushiftRight_xor_distrib, hbyte, BitVec.xor_zero]

end Steps

end ReflectedCrc

end OpenNE

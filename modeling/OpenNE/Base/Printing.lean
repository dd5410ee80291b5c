import OpenNE.Base.Exec
import OpenNE.Base.Numeral
import Mathlib.Tactic.NormNum

/-!
# Numbers printed (`KernelKit/DebugOutput.h`, `src/BootTextWriter.cc`)

Sizes and addresses are printed through a signed `Long`, without a sign: a word from `2 ^ 63` on prints what its
negation prints, so that only the words below `2 ^ 63` are printed as they are (`prints_iff`).
-/

namespace OpenNE

/-! ### The calls -/

/-- `kNumbers` of a decimal digit. -/
def kDecimals : List UInt8 := [48, 49, 50, 51, 52, 53, 54, 55, 56, 57]

/-- `kNumbers` of a hexadecimal digit, `cNumbers` in the boot loader. -/
def kNumbers : List UInt8 := kDecimals ++ [65, 66, 67, 68, 69, 70]

/-- `x > 0 ? x : -x`; the least `Long` is its own negation. -/
def magnitude (x : Int64) : Int64 := if 0 < x then x else -x

/-- The printers of a digit after what stands before it. Where the digit is none, they print a question mark: the
character `fail`, or the code of that character as a number. -/
def writeDigits (base : Int64) (digits : List UInt8) (fail : Option UInt8) :
    Nat → Int64 → List UInt8 → Exec (List UInt8)
  | 0, _, _ => .error .unfinished
  | fuel + 1, x, term => do
    let y := (magnitude x / base).toUInt64
    let h := (magnitude x % base).toUInt64
    let term ← if y ≠ 0 then writeDigits base digits fail fuel y.toInt64 term else .ok term
    if base.toUInt64 < h then
      match fail with
      | none => writeDigits base digits none fuel 63 term
      | some c => .ok (term ++ [c])
    else .ok (term ++ [digits.getD h.toNat 0])

/-- `_write_number`. -/
def writeNumber : Nat → Int64 → List UInt8 → Exec (List UInt8) := writeDigits 10 kDecimals none

/-- `_write_number_hex`. -/
def writeNumberHex : Nat → Int64 → List UInt8 → Exec (List UInt8) := writeDigits 16 kNumbers none

/-- `number`, behind what is on the terminal. -/
def number (fuel : Nat) (x : Int64) (term : List UInt8) : Exec (List UInt8) := writeNumber fuel x term

/-- `hex_number`. -/
def hexNumber (fuel : Nat) (x : Int64) (term : List UInt8) : Exec (List UInt8) := do
  let term ← writeNumberHex fuel x term
  .ok (term ++ [104])

namespace BTextWriter

/-- `BTextWriter::_Write`. -/
def writeRest : Nat → Int64 → List UInt8 → Exec (List UInt8) := writeDigits 16 kNumbers (some 63)

/-- `BTextWriter::Write` of a `Long`. -/
def write (fuel : Nat) (x : Int64) (term : List UInt8) : Exec (List UInt8) := do
  let term ← writeRest fuel x term
  .ok (term ++ [104])

end BTextWriter

/-! ### What they are for -/

/-- The call ends, whatever is on the terminal, with `text` behind it. -/
def Prints (call : Nat → Int64 → List UInt8 → Exec (List UInt8)) (w : UInt64) (text : List UInt8) : Prop :=
  ∃ enough, ∀ fuel, enough ≤ fuel → ∀ term, call fuel w.toInt64 term = .ok (term ++ text)

/-- The digits of the word. -/
structure PrintsFaithfully (w : UInt64) : Prop where
  decimal : Prints number w (numeralText 10 w.toNat)
  hex : Prints hexNumber w (numeralText 16 w.toNat ++ [104])
  boot : Prints BTextWriter.write w (numeralText 16 w.toNat ++ [104])

/-- Two words print the same. -/
def SameText (call : Nat → Int64 → List UInt8 → Exec (List UInt8)) (w w' : UInt64) : Prop :=
  ∃ text, Prints call w text ∧ Prints call w' text

theorem Prints.unique {call : Nat → Int64 → List UInt8 → Exec (List UInt8)} {w : UInt64} {text text' : List UInt8}
    (h : Prints call w text) (h' : Prints call w text') : text = text' := by
  obtain ⟨enough, hcall⟩ := h
  obtain ⟨enough', hcall'⟩ := h'
  have hok := hcall (max enough enough') (Nat.le_max_left _ _) []
  rw [hcall' (max enough enough') (Nat.le_max_right _ _) []] at hok
  exact (Except.ok.inj hok).symm

/-! ### Digits -/

section Digits

theorem kDecimals_getD {d : Nat} (h : d < 10) : kDecimals.getD d 0 = digitChar d := by
  interval_cases d <;> rfl

theorem kNumbers_getD {d : Nat} (h : d < 16) : kNumbers.getD d 0 = digitChar d := by
  interval_cases d <;> rfl

theorem toNat_toUInt64 {x : Int64} {n : Nat} (h : x.toInt = n) : x.toUInt64.toNat = n := by
  have hle : 0 ≤ x := by
    rw [Int64.le_iff_toInt_le, h]
    exact Int.natCast_nonneg n
  rw [Int64.toNat_toUInt64_of_le hle, Int64.toNatClampNeg, h, Int.toNat_natCast]

theorem magnitude_of_nonneg {x : Int64} {n : Nat} (h : x.toInt = n) : (magnitude x).toInt = n := by
  rw [magnitude]
  split_ifs with hpos
  · exact h
  · have hzero : n = 0 := by
      rw [Int64.lt_iff_toInt_lt, h] at hpos
      simpa using hpos
    rw [Int64.toInt_neg, h, hzero]
    rfl

variable {base : Int64} {b n : Nat} {m : Int64}

theorem toInt_quot (hbase : base.toInt = b) (hb : 1 < b) (hm : m.toInt = n) :
    (m / base).toInt = (n / b : Nat) := by
  have hne : base ≠ -1 := by
    rintro rfl
    have : (-1 : Int64).toInt = -1 := by decide
    omega
  rw [Int64.toInt_div_of_ne_right _ _ hne, hm, hbase]
  rfl

theorem toInt_rem (hbase : base.toInt = b) (hm : m.toInt = n) : (m % base).toInt = (n % b : Nat) := by
  rw [Int64.toInt_mod, hm, hbase]
  rfl

variable {digits : List UInt8} {x : Int64}

theorem writeDigits_succ (hbase : base.toInt = b) (hb : 1 < b) (hdigits : ∀ d < b, digits.getD d 0 = digitChar d)
    (fail : Option UInt8) (hx : (magnitude x).toInt = n) (fuel : Nat) (term : List UInt8) :
    ∃ y : Int64, y.toInt = (n / b : Nat) ∧ writeDigits base digits fail (fuel + 1) x term =
      (if n / b ≠ 0 then writeDigits base digits fail fuel y term else .ok term) >>=
        fun term => .ok (term ++ [digitChar (n % b)]) := by
  have hquot := toInt_quot hbase hb hx
  have hrem := toNat_toUInt64 (toInt_rem hbase hx)
  have hlast : n % b < b := Nat.mod_lt n (by omega)
  refine ⟨magnitude x / base, hquot, ?_⟩
  have hnext : (magnitude x / base).toUInt64 ≠ 0 ↔ n / b ≠ 0 := by
    rw [ne_eq, ← UInt64.toNat_inj, toNat_toUInt64 hquot]
    rfl
  have hdigit : ¬ base.toUInt64 < (magnitude x % base).toUInt64 := by
    rw [UInt64.lt_iff_toNat_lt, hrem, toNat_toUInt64 hbase]
    omega
  rw [writeDigits]
  simp only [if_neg hdigit, hrem, hdigits _ hlast, hnext, Int64.toInt64_toUInt64]
  split_ifs with hmore
  · rfl
  · rfl

theorem writeDigits_eq (hbase : base.toInt = b) (hb : 1 < b) (hdigits : ∀ d < b, digits.getD d 0 = digitChar d)
    (fail : Option UInt8) {fuel : Nat} (hx : (magnitude x).toInt = n) (hfuel : n < b ^ (fuel + 1))
    (term : List UInt8) :
    writeDigits base digits fail (fuel + 1) x term = .ok (term ++ numeralText b n) := by
  induction fuel generalizing n x term with
  | zero =>
    obtain ⟨y, -, hcall⟩ := writeDigits_succ hbase hb hdigits fail hx 0 term
    rw [Nat.zero_add, Nat.pow_one] at hfuel
    rw [hcall, Nat.div_eq_of_lt hfuel, if_neg (not_not.mpr rfl), Exec.ok_bind, numeralText_of_lt hfuel,
      Nat.mod_eq_of_lt hfuel]
  | succ fuel ih =>
    obtain ⟨y, hy, hcall⟩ := writeDigits_succ hbase hb hdigits fail hx (fuel + 1) term
    rw [hcall]
    by_cases hsmall : n < b
    · rw [Nat.div_eq_of_lt hsmall, if_neg (not_not.mpr rfl), Exec.ok_bind, numeralText_of_lt hsmall,
        Nat.mod_eq_of_lt hsmall]
    · have hle : b ≤ n := Nat.le_of_not_lt hsmall
      have hquot : n / b < b ^ (fuel + 1) := by
        rw [Nat.div_lt_iff_lt_mul (by omega)]
        exact hfuel
      rw [if_pos (Nat.div_pos hle (by omega)).ne', ih (magnitude_of_nonneg hy) hquot, Exec.ok_bind,
        numeralText_of_le hb hle, List.append_assoc]

theorem writeDigits_long (hbase : base.toInt = b) (hb : 1 < b) (hdigits : ∀ d < b, digits.getD d 0 = digitChar d)
    (fail : Option UInt8) (hx : (magnitude x).toInt = n) {fuel : Nat} (hfuel : 64 ≤ fuel) (term : List UInt8) :
    writeDigits base digits fail fuel x term = .ok (term ++ numeralText b n) := by
  obtain ⟨rest, rfl⟩ : ∃ rest, fuel = rest + 1 := ⟨fuel - 1, by omega⟩
  have hlong : (n : Int) < 2 ^ 63 := hx ▸ Int64.toInt_lt (magnitude x)
  refine writeDigits_eq hbase hb hdigits fail hx ?_ term
  calc n < 2 ^ 63 := by omega
    _ ≤ 2 ^ (rest + 1) := Nat.pow_le_pow_right (by decide) (by omega)
    _ ≤ b ^ (rest + 1) := Nat.pow_le_pow_left hb _

theorem writeNumber_min {fuel : Nat} (hfuel : 65 ≤ fuel) (term : List UInt8) :
    writeNumber fuel Int64.minValue term = .ok (term ++ numeralText 10 92233720368547758063) := by
  obtain ⟨rest, rfl⟩ : ∃ rest, fuel = rest + 1 := ⟨fuel - 1, by omega⟩
  have hbase : (10 : Int64).toInt = (10 : Nat) := by decide
  have hquot : (magnitude (magnitude Int64.minValue / 10).toUInt64.toInt64).toInt = (922337203685477580 : Nat) := by
    decide
  have hmark : (magnitude 63).toInt = (63 : Nat) := by decide
  have hnext : (magnitude Int64.minValue / 10).toUInt64 ≠ 0 := by decide
  have hfail : (10 : Int64).toUInt64 < (magnitude Int64.minValue % 10).toUInt64 := by decide
  have hdigits : ∀ d < 10, kDecimals.getD d 0 = digitChar d := fun d hd => kDecimals_getD hd
  have htext : numeralText 10 922337203685477580 ++ numeralText 10 63 = numeralText 10 92233720368547758063 := by
    rw [numeralText_of_le (n := 92233720368547758063) (by decide) (by decide),
      numeralText_of_le (n := 92233720368547758063 / 10) (by decide) (by decide),
      numeralText_of_le (n := 63) (by decide) (by decide), numeralText_of_lt (n := 63 / 10) (by decide),
      List.append_assoc]
  rw [writeNumber, writeDigits]
  simp only [if_pos hnext, if_pos hfail]
  rw [writeDigits_long hbase (by decide) hdigits none hquot (by omega), Exec.ok_bind,
    writeDigits_long hbase (by decide) hdigits none hmark (by omega), List.append_assoc, htext]

theorem writeHex_min (fail : Option UInt8) {fuel : Nat} (hfuel : 65 ≤ fuel) (term : List UInt8) :
    writeDigits 16 kNumbers fail fuel Int64.minValue term = .ok (term ++ numeralText 16 (2 ^ 63)) := by
  obtain ⟨rest, rfl⟩ : ∃ rest, fuel = rest + 1 := ⟨fuel - 1, by omega⟩
  have hbase : (16 : Int64).toInt = (16 : Nat) := by decide
  have hquot : (magnitude (magnitude Int64.minValue / 16).toUInt64.toInt64).toInt = (2 ^ 63 / 16 : Nat) := by
    decide
  have hnext : (magnitude Int64.minValue / 16).toUInt64 ≠ 0 := by decide
  have hdigit : ¬ (16 : Int64).toUInt64 < (magnitude Int64.minValue % 16).toUInt64 := by decide
  have hzero : kNumbers.getD (magnitude Int64.minValue % 16).toUInt64.toNat 0 = digitChar (2 ^ 63 % 16) := by decide
  rw [writeDigits]
  simp only [if_pos hnext, if_neg hdigit, hzero]
  rw [writeDigits_long hbase (by decide) (fun d hd => kNumbers_getD hd) fail hquot (by omega), Exec.ok_bind,
    numeralText_of_le (n := 2 ^ 63) (by decide) (by decide), List.append_assoc]

end Digits

/-! ### Words -/

/-- What is printed of a word in hexadecimal: the word or its negation, whichever is less. -/
def printedHex (w : UInt64) : Nat := min w.toNat (2 ^ 64 - w.toNat)

/-- What is printed of it in decimal. -/
def printedDecimal (w : UInt64) : Nat := if w.toNat = 2 ^ 63 then 92233720368547758063 else printedHex w

section Words

variable {w w' : UInt64}

theorem toInt_toInt64 (w : UInt64) :
    w.toInt64.toInt = if w.toNat < 2 ^ 63 then (w.toNat : Int) else w.toNat - 2 ^ 64 := by
  have hint : w.toInt64.toInt = w.toBitVec.toInt := rfl
  rw [hint, BitVec.toInt_eq_toNat_cond]
  split_ifs with hlow hlow' hlow'
  · rfl
  · exact absurd hlow (by rw [UInt64.toNat_toBitVec]; omega)
  · exact absurd hlow' (by rw [UInt64.toNat_toBitVec] at hlow; omega)
  · rfl

theorem eq_min_of_toNat (h : w.toNat = 2 ^ 63) : w.toInt64 = Int64.minValue := by
  have hw : w = 0x8000000000000000 := UInt64.toNat_inj.mp (h.trans (by decide))
  rw [hw]
  decide

theorem magnitude_toInt64 (h : w.toNat ≠ 2 ^ 63) : (magnitude w.toInt64).toInt = printedHex w := by
  have hlt := w.toNat_lt
  rw [printedHex]
  by_cases hlow : w.toNat < 2 ^ 63
  · have hint : w.toInt64.toInt = w.toNat := by rw [toInt_toInt64, if_pos hlow]
    rw [magnitude_of_nonneg hint, Nat.min_eq_left (by omega)]
  · have hint : w.toInt64.toInt = w.toNat - 2 ^ 64 := by rw [toInt_toInt64, if_neg hlow]
    have hneg : ¬ 0 < w.toInt64 := by
      rw [Int64.lt_iff_toInt_lt, hint]
      simp only [Int64.toInt_zero]
      omega
    rw [magnitude, if_neg hneg, Int64.toInt_neg, hint, Int.bmod_eq_of_le (by omega) (by omega),
      Nat.min_eq_right (by omega)]
    omega

theorem prints_number (w : UInt64) : Prints number w (numeralText 10 (printedDecimal w)) := by
  refine ⟨65, fun fuel hfuel term => ?_⟩
  rw [printedDecimal, number]
  split_ifs with hmin
  · rw [eq_min_of_toNat hmin, writeNumber_min hfuel]
  · exact writeDigits_long (by decide) (by decide) (fun d hd => kDecimals_getD hd) none (magnitude_toInt64 hmin)
      (by omega) term

theorem writeHex_word (fail : Option UInt8) {fuel : Nat} (hfuel : 65 ≤ fuel) (w : UInt64) (term : List UInt8) :
    writeDigits 16 kNumbers fail fuel w.toInt64 term = .ok (term ++ numeralText 16 (printedHex w)) := by
  by_cases hmin : w.toNat = 2 ^ 63
  · rw [eq_min_of_toNat hmin, writeHex_min fail hfuel, printedHex, hmin]
    rfl
  · exact writeDigits_long (by decide) (by decide) (fun d hd => kNumbers_getD hd) fail (magnitude_toInt64 hmin)
      (by omega) term

theorem prints_hexNumber (w : UInt64) : Prints hexNumber w (numeralText 16 (printedHex w) ++ [104]) := by
  refine ⟨65, fun fuel hfuel term => ?_⟩
  rw [hexNumber, writeNumberHex, writeHex_word none hfuel, Exec.ok_bind, List.append_assoc]

theorem prints_write (w : UInt64) : Prints BTextWriter.write w (numeralText 16 (printedHex w) ++ [104]) := by
  refine ⟨65, fun fuel hfuel term => ?_⟩
  rw [BTextWriter.write, BTextWriter.writeRest, writeHex_word _ hfuel, Exec.ok_bind, List.append_assoc]

theorem sameText_iff {call : Nat → Int64 → List UInt8 → Exec (List UInt8)} {text : UInt64 → List UInt8}
    (hcall : ∀ w, Prints call w (text w)) : SameText call w w' ↔ text w = text w' := by
  constructor
  · rintro ⟨common, hw, hw'⟩
    rw [(hcall w).unique hw, (hcall w').unique hw']
  · intro h
    exact ⟨text w, hcall w, h ▸ hcall w'⟩

theorem printedHex_eq_iff : printedHex w = printedHex w' ↔ w = w' ∨ w.toNat + w'.toNat = 2 ^ 64 := by
  have hlt := w.toNat_lt
  have hlt' := w'.toNat_lt
  rw [printedHex, printedHex, ← UInt64.toNat_inj]
  omega

theorem printedDecimal_eq_iff : printedDecimal w = printedDecimal w' ↔ w = w' ∨ w.toNat + w'.toNat = 2 ^ 64 := by
  have hlt := w.toNat_lt
  have hlt' := w'.toNat_lt
  rw [printedDecimal, printedDecimal, printedHex, printedHex, ← UInt64.toNat_inj]
  split_ifs with hmin hmin' hmin' <;> omega

theorem printedDecimal_eq_self_iff : printedDecimal w = w.toNat ↔ w.toNat < 2 ^ 63 := by
  have hlt := w.toNat_lt
  rw [printedDecimal, printedHex]
  split_ifs with hmin <;> omega

theorem printsFaithfully_iff : PrintsFaithfully w ↔ w.toNat < 2 ^ 63 := by
  constructor
  · intro h
    have htext := (prints_number w).unique h.decimal
    exact printedDecimal_eq_self_iff.mp ((numeralText_inj (by decide) (by decide)).mp htext)
  · intro hlow
    have hhex : printedHex w = w.toNat := by
      rw [printedHex]
      omega
    refine ⟨?_, hhex ▸ prints_hexNumber w, hhex ▸ prints_write w⟩
    rw [← printedDecimal_eq_self_iff.mpr hlow]
    exact prints_number w

end Words

/-- A word is printed as it is exactly when it is below `2 ^ 63`. Two words print the same, in decimal and in
hexadecimal, exactly when they are equal or negations of each other. In hexadecimal the kernel and the boot loader
agree on every word. -/
theorem prints_iff (w w' : UInt64) : (PrintsFaithfully w ↔ w.toNat < 2 ^ 63) ∧
    (SameText number w w' ↔ w = w' ∨ w.toNat + w'.toNat = 2 ^ 64) ∧
    (SameText hexNumber w w' ↔ w = w' ∨ w.toNat + w'.toNat = 2 ^ 64) ∧
    (SameText BTextWriter.write w w' ↔ w = w' ∨ w.toNat + w'.toNat = 2 ^ 64) ∧
    (∃ text, Prints number w text) ∧ ∃ text, Prints hexNumber w text ∧ Prints BTextWriter.write w text := by
  have hhex : numeralText 16 (printedHex w) ++ [104] = numeralText 16 (printedHex w') ++ [104] ↔
      w = w' ∨ w.toNat + w'.toNat = 2 ^ 64 := by
    rw [List.append_cancel_right_eq, numeralText_inj (by decide) (by decide), printedHex_eq_iff]
  refine ⟨printsFaithfully_iff, ?_, ?_, ?_, ⟨_, prints_number w⟩, ⟨_, prints_hexNumber w, prints_write w⟩⟩
  · rw [sameText_iff prints_number, numeralText_inj (by decide) (by decide), printedDecimal_eq_iff]
  · rw [sameText_iff prints_hexNumber, hhex]
  · rw [sameText_iff prints_write, hhex]

/-- The last address prints as a one. -/
theorem last_address_printed : ¬ PrintsFaithfully 0xFFFFFFFFFFFFFFFF ∧ SameText number 0xFFFFFFFFFFFFFFFF 1 ∧
    SameText hexNumber 0xFFFFFFFFFFFFFFFF 1 ∧ SameText BTextWriter.write 0xFFFFFFFFFFFFFFFF 1 := by
  have hhex : printedHex 0xFFFFFFFFFFFFFFFF = printedHex 1 := by decide
  have hdecimal : printedDecimal 0xFFFFFFFFFFFFFFFF = printedDecimal 1 := by decide
  refine ⟨fun h => absurd (printsFaithfully_iff.mp h) (by decide), ?_, ?_, ?_⟩
  · rw [sameText_iff prints_number, hdecimal]
  · rw [sameText_iff prints_hexNumber, hhex]
  · rw [sameText_iff prints_write, hhex]

end OpenNE

import OpenNE.Boot.StringCompare
import Mathlib.Data.Int.Init
import Mathlib.Tactic.Linarith
import Mathlib.Tactic.Positivity

/-!
# Reading a number (`BootKit/Support.h`)

`StringToLong` reads blanks, a sign, a prefix and digits, and saturates. The model is for a `long` of any width and for
a `char` of either signedness. What it returns is `Numeral.number` of what the text says, and what it leaves in
`endptr` is `Numeral.endPlace` (`stringToLong_eq`).
-/

namespace OpenNE

/-! ### The call -/

/-- `(long)(~0UL >> 1)`, in a `long` of `w` bits. -/
def kLongMax (w : Nat) : Int := (2 ^ w - 1) / 2

/-- `~kLongMax`. -/
def kLongMin (w : Nat) : Int := -kLongMax w - 1

/-- A value as an `unsigned long`. -/
def toULong (w : Nat) (x : Int) : Int := x % 2 ^ w

/-- A value as a `long`. -/
def toLong (w : Nat) (x : Int) : Int := x.bmod (2 ^ w)

/-- A `char` as an `int`. -/
def charInt (signed : Bool) (b : UInt8) : Int32 := if signed then b.toInt8.toInt32 else b.toUInt32.toInt32

/-- What a character counts as a digit, if the inner `break` is not taken. -/
def scanDigit (signed : Bool) (b : UInt8) : Option Int32 :=
  let p := charInt signed b
  if 65 ≤ p then some (((p - 65) &&& ~~~((97 : Int32) ^^^ 65)) + 10)
  else if p ≤ 57 then some (p - 48)
  else none

/-- A round of `while (IsSpace(*p))`. -/
def skipSpace (acc : Access) (mem : Store) (p : Nat) : Exec (Nat ⊕ Nat) := do
  let b ← fetch acc Codec.u8 p mem
  if b = 32 then .ok (.inl (p + 1)) else .ok (.inr p)

/-- The sign: `is_neg`, and where the number starts. -/
def skipSign (acc : Access) (mem : Store) (p : Nat) : Exec (Bool × Nat) := do
  let b ← fetch acc Codec.u8 p mem
  .ok (b = 45, if b = 43 ∨ b = 45 then p + 1 else p)

/-- The prefix: `base`, `p` and `endp` behind it. -/
def skipPrefix (acc : Access) (mem : Store) (nptr : Nat) (base : Int) (p : Nat) : Exec (Int × Nat × Nat) := do
  let b ← fetch acc Codec.u8 p mem
  if b = 48 then do
    let x ← fetch acc Codec.u8 (p + 1) mem
    if base = 16 ∧ (x = 88 ∨ x = 120) then .ok (base, p + 2, p + 1)
    else if base = 2 ∧ (x = 66 ∨ x = 98) then .ok (base, p + 2, p + 1)
    else if base = 0 then
      if x = 88 ∨ x = 120 then .ok (16, p + 2, p + 1)
      else if x = 66 ∨ x = 98 then .ok (2, p + 2, p + 1)
      else .ok (8, p + 1, p + 1)
    else .ok (base, p + 1, p + 1)
  else .ok (if base = 0 then 10 else base, p, nptr)

/-- The variables of the digit loop. -/
structure Scan where
  p : Nat
  endp : Nat
  n : Int
  overflow : Bool
  deriving DecidableEq, Repr

/-- A round of the digit loop; `endptr` says whether the pointer of that name is given. -/
def scanRound (w : Nat) (signed : Bool) (acc : Access) (mem : Store) (base cutoff cutlim : Int) (endptr : Bool)
    (s : Scan) : Exec (Scan ⊕ Scan) := do
  let b ← fetch acc Codec.u8 s.p mem
  match scanDigit signed b with
  | none => .ok (.inr s)
  | some c =>
    if c.toInt < 0 ∨ base ≤ c.toInt then .ok (.inr s)
    else
      let s := { s with p := s.p + 1, endp := s.p + 1 }
      if s.overflow then if endptr then .ok (.inl s) else .ok (.inr s)
      else if cutoff < s.n ∨ s.n = cutoff ∧ cutlim < c.toInt then .ok (.inl { s with overflow := true })
      else .ok (.inl { s with n := toULong w (s.n * base + c.toInt) })

/-- `cutoff`. -/
def cutoffOf (w : Nat) (isNeg : Bool) (base : Int) : Int :=
  toULong w (if isNeg then -((kLongMin w).tdiv base) else (kLongMax w).tdiv base)

/-- `cutlim`. -/
def cutlimOf (w : Nat) (isNeg : Bool) (base : Int) : Int :=
  if isNeg then -((kLongMin w).tmod base) else (kLongMax w).tmod base

/-- What is returned behind the loop. -/
def scanResult (w : Nat) (isNeg : Bool) (s : Scan) : Int :=
  if s.overflow then if isNeg then kLongMin w else kLongMax w
  else toLong w (if isNeg then toULong w (-s.n) else s.n)

/-- From the digits on. -/
def readDigits (w : Nat) (signed : Bool) (acc : Access) (fuel : Nat) (endptr : Bool) (mem : Store) (isNeg : Bool)
    (base : Int) (p endp : Nat) : Exec (Int × Option Nat) := do
  let s ← loop (scanRound w signed acc mem base (cutoffOf w isNeg base) (cutlimOf w isNeg base) endptr) fuel
    ⟨p, endp, 0, false⟩
  .ok (scanResult w isNeg s, if endptr then some s.endp else none)

/-- From the prefix on. -/
def readNumber (w : Nat) (signed : Bool) (acc : Access) (fuel nptr : Nat) (endptr : Bool) (mem : Store) (isNeg : Bool)
    (base : Int) (p : Nat) : Exec (Int × Option Nat) := do
  let (base, p, endp) ← skipPrefix acc mem nptr base p
  readDigits w signed acc fuel endptr mem isNeg base p endp

/-- `StringToLong`: what it returns, and what it leaves in `*endptr` when that is given. -/
def stringToLong (w : Nat) (signed : Bool) (acc : Access) (fuel nptr : Nat) (endptr : Bool) (base : Int)
    (mem : Store) : Exec (Int × Option Nat) :=
  if base < 0 ∨ base = 1 ∨ 36 < base then .ok (0, none)
  else do
    let p ← loop (skipSpace acc mem) fuel nptr
    let (isNeg, p) ← skipSign acc mem p
    readNumber w signed acc fuel nptr endptr mem isNeg base p

/-! ### What the text says -/

/-- The value of a digit, 36 of any other character. -/
def digitValue (b : UInt8) : Nat :=
  if 48 ≤ b ∧ b ≤ 57 then b.toNat - 48
  else if 65 ≤ b ∧ b ≤ 90 then b.toNat - 55
  else if 97 ≤ b ∧ b ≤ 122 then b.toNat - 87
  else 36

/-- A number as it is written: its sign, its base, how many characters come before its digits, whether a prefix is
the last of them, and its digits. -/
structure Numeral where
  neg : Bool
  base : Nat
  lead : Nat
  prefixed : Bool
  digits : List UInt8
  deriving DecidableEq, Repr

/-- A signed value kept to what a `long` of `w` bits holds. -/
def clampLong (w : Nat) (neg : Bool) (v : Nat) : Int :=
  max (-2 ^ (w - 1)) (min (2 ^ (w - 1) - 1) (if neg then -v else v))

namespace Numeral

/-- The value of `digits` behind digits worth `v`. -/
def valueFrom (base : Nat) (v : Nat) (digits : List UInt8) : Nat :=
  digits.foldl (fun v b => v * base + digitValue b) v

def value (m : Numeral) : Nat := valueFrom m.base 0 m.digits

def number (w : Nat) (m : Numeral) : Int := clampLong w m.neg m.value

/-- Where reading ends: behind the last digit, behind the zero of a prefix without digits, or where it started. -/
def endPlace (m : Numeral) : Nat :=
  if m.digits ≠ [] then m.lead + m.digits.length
  else if m.prefixed then m.lead - 1
  else 0

/-- The longest run of digits of a base. -/
def run (base : Nat) (text : List UInt8) : List UInt8 := text.takeWhile fun b => digitValue b < base

/-- A `0x` before the digits. -/
def Hex (base : Nat) (text : List UInt8) : Prop :=
  (base = 0 ∨ base = 16) ∧ (text.take 2 = [48, 88] ∨ text.take 2 = [48, 120])

/-- A `0b` before the digits. -/
def Bin (base : Nat) (text : List UInt8) : Prop :=
  (base = 0 ∨ base = 2) ∧ (text.take 2 = [48, 66] ∨ text.take 2 = [48, 98])

instance (base : Nat) (text : List UInt8) : Decidable (Hex base text) := inferInstanceAs (Decidable (_ ∧ _))

instance (base : Nat) (text : List UInt8) : Decidable (Bin base text) := inferInstanceAs (Decidable (_ ∧ _))

/-- The number behind the sign: `lead` characters come before it. -/
def ofUnsigned (base : Nat) (neg : Bool) (lead : Nat) (text : List UInt8) : Numeral :=
  if Hex base text then ⟨neg, 16, lead + 2, true, run 16 (text.drop 2)⟩
  else if Bin base text then ⟨neg, 2, lead + 2, true, run 2 (text.drop 2)⟩
  else if base = 0 then
    if text.head? = some 48 then ⟨neg, 8, lead, false, run 8 text⟩ else ⟨neg, 10, lead, false, run 10 text⟩
  else ⟨neg, base, lead, false, run base text⟩

/-- The number behind the blanks. -/
def ofSigned (base lead : Nat) (text : List UInt8) : Numeral :=
  if text.head? = some 43 then ofUnsigned base false (lead + 1) text.tail
  else if text.head? = some 45 then ofUnsigned base true (lead + 1) text.tail
  else ofUnsigned base false lead text

/-- The number a text starts with. -/
def ofText (base : Nat) (text : List UInt8) : Numeral :=
  ofSigned base (text.takeWhile (· = 32)).length (text.dropWhile (· = 32))

end Numeral

example : (Numeral.ofText 0 [32, 45, 48, 120, 49, 102, 122]).number 64 = -31 := by decide

/-! ### Digits -/

/-- What `scanDigit` is to be, for one character. -/
def DigitRight (signed : Bool) (b : UInt8) : Prop :=
  (scanDigit signed b = none → digitValue b = 36) ∧
    ∀ c ∈ scanDigit signed b, c.toInt = digitValue b ∨ digitValue b = 36 ∧ (c.toInt < 0 ∨ 36 ≤ c.toInt)

-- the second part is about one value at most, not about every `Int32`
instance (signed : Bool) (b : UInt8) : Decidable (DigitRight signed b) :=
  have : Decidable (∀ c ∈ scanDigit signed b,
      c.toInt = digitValue b ∨ digitValue b = 36 ∧ (c.toInt < 0 ∨ 36 ≤ c.toInt)) := Option.decidableForallMem _
  inferInstanceAs (Decidable (_ ∧ _))

theorem digitRight_ofNat (signed : Bool) : ∀ n ∈ List.range 256, DigitRight signed (UInt8.ofNat n) := by
  cases signed <;> decide +kernel

theorem digitRight (signed : Bool) (b : UInt8) : DigitRight signed b := by
  have h := digitRight_ofNat signed b.toNat (List.mem_range.mpr b.toNat_lt)
  rwa [UInt8.ofNat_toNat] at h

/-! ### One digit -/

section Round

variable {w : Nat} {signed endptr : Bool} {acc : Access} {mem : Store} {base cutoff cutlim limit : Int} {s : Scan}
  {b : UInt8}

theorem scanRound_other (hbase : base ≤ 36) (hb : fetch acc Codec.u8 s.p mem = .ok b) (hdigit : base ≤ digitValue b) :
    scanRound w signed acc mem base cutoff cutlim endptr s = .ok (.inr s) := by
  rw [scanRound, hb, Exec.ok_bind]
  cases hc : scanDigit signed b with
  | none => rfl
  | some c =>
    refine if_pos ?_
    rcases (digitRight signed b).2 c hc with hvalue | ⟨-, hout⟩
    · exact .inr (hvalue ▸ hdigit)
    · exact hout.imp_right hbase.trans

/-- What is known of the loop when the digits so far are worth `v`, and `limit` is the largest value there is. -/
def ScanInv (limit : Int) (v : Nat) (s : Scan) : Prop :=
  s.overflow = false ∧ s.n = v ∧ (v : Int) ≤ limit ∨ s.overflow = true ∧ limit < v

/-- What a digit does. -/
def afterDigit (w : Nat) (base cutoff cutlim : Int) (b : UInt8) (s : Scan) : Scan :=
  if s.overflow then { s with p := s.p + 1, endp := s.p + 1 }
  else if cutoff < s.n ∨ s.n = cutoff ∧ cutlim < digitValue b then
    { s with p := s.p + 1, endp := s.p + 1, overflow := true }
  else { s with p := s.p + 1, endp := s.p + 1, n := toULong w (s.n * base + digitValue b) }

theorem scanRound_digit (hb : fetch acc Codec.u8 s.p mem = .ok b) (hbase : base ≤ 36)
    (hdigit : (digitValue b : Int) < base) :
    scanRound w signed acc mem base cutoff cutlim endptr s =
      if s.overflow = true ∧ endptr = false then .ok (.inr (afterDigit w base cutoff cutlim b s))
      else .ok (.inl (afterDigit w base cutoff cutlim b s)) := by
  rw [scanRound, hb, Exec.ok_bind]
  have hright := digitRight signed b
  cases hc : scanDigit signed b with
  | none =>
    have := hright.1 hc
    omega
  | some c =>
    have hvalue : c.toInt = digitValue b := (hright.2 c hc).resolve_right fun h => by omega
    have hin : ¬ ((digitValue b : Int) < 0 ∨ base ≤ digitValue b) := by omega
    simp only [hvalue, if_neg hin]
    rw [afterDigit]
    by_cases hover : s.overflow = true
    · rw [if_pos hover, if_pos hover]
      by_cases hend : endptr = true
      · have hgo : ¬ (s.overflow = true ∧ endptr = false) := fun h => by rw [h.2] at hend; cases hend
        rw [if_pos hend, if_neg hgo]
      · have hleave : s.overflow = true ∧ endptr = false := ⟨hover, Bool.not_eq_true _ ▸ hend⟩
        rw [if_neg hend, if_pos hleave]
    · have hgo : ¬ (s.overflow = true ∧ endptr = false) := fun h => hover h.1
      rw [if_neg hover, if_neg hover, if_neg hgo]
      split
      · rfl
      · rfl

theorem beyond_iff {n d : Int} (hbase : 0 < base) (hdigit : 0 ≤ d) (hlast : d < base) :
    limit < n * base + d ↔ limit / base < n ∨ n = limit / base ∧ limit % base < d := by
  have hsplit := Int.mul_ediv_add_emod limit base
  have hlow := Int.emod_nonneg limit (Int.ne_of_gt hbase)
  have hhigh := Int.emod_lt_of_pos limit hbase
  rcases Int.lt_trichotomy n (limit / base) with hless | rfl | hmore
  · have hscale : (n + 1) * base ≤ limit / base * base := Int.mul_le_mul_of_nonneg_right hless (Int.le_of_lt hbase)
    refine iff_of_false ?_ ?_
    · rw [Int.add_mul, Int.one_mul] at hscale
      rw [Int.mul_comm base] at hsplit
      omega
    · omega
  · rw [Int.mul_comm base] at hsplit
    constructor
    · intro h
      exact .inr ⟨rfl, by omega⟩
    · rintro (h | ⟨-, h⟩)
      · omega
      · omega
  · have hscale : (limit / base + 1) * base ≤ n * base := Int.mul_le_mul_of_nonneg_right hmore (Int.le_of_lt hbase)
    refine iff_of_true ?_ (.inl hmore)
    rw [Int.add_mul, Int.one_mul] at hscale
    rw [Int.mul_comm base] at hsplit
    omega

/-- A digit keeps what is known, with the value behind it. -/
theorem afterDigit_inv {v : Nat} (hbase : 2 ≤ base) (hlimit : limit < 2 ^ w) (hcut : cutoff = limit / base)
    (hlim : cutlim = limit % base) (hdigit : (digitValue b : Int) < base) (h : ScanInv limit v s) :
    ScanInv limit (v * base.toNat + digitValue b) (afterDigit w base cutoff cutlim b s) := by
  have hcast : ((v * base.toNat + digitValue b : Nat) : Int) = v * base + digitValue b := by
    rw [Nat.cast_add, Nat.cast_mul, Int.toNat_of_nonneg (by omega)]
  have hpos : (0 : Int) < base := by omega
  have hd : (0 : Int) ≤ digitValue b := Int.natCast_nonneg _
  have hbeyond : limit < v * base + digitValue b ↔ _ := beyond_iff hpos hd hdigit
  rcases h with ⟨hover, hn, hv⟩ | ⟨hover, hv⟩
  · have hgo : ¬ s.overflow = true := by rw [hover]; exact Bool.false_ne_true
    rw [afterDigit, if_neg hgo, hcut, hlim, hn]
    by_cases hout : limit < v * base + digitValue b
    · rw [if_pos (hbeyond.mp hout)]
      exact .inr ⟨rfl, by rw [hcast]; exact hout⟩
    · rw [if_neg fun h => hout (hbeyond.mpr h)]
      have hnonneg : 0 ≤ (v : Int) * base := Int.mul_nonneg (Int.natCast_nonneg v) (Int.le_of_lt hpos)
      refine .inl ⟨hover, ?_, by rw [hcast]; omega⟩
      show toULong w (v * base + digitValue b) = _
      rw [hcast, toULong, Int.emod_eq_of_lt (by omega) (by omega)]
  · rw [afterDigit, if_pos hover]
    refine .inr ⟨hover, ?_⟩
    have hscale : (v : Int) * 1 ≤ v * base := Int.mul_le_mul_of_nonneg_left (by omega) (Int.natCast_nonneg v)
    rw [hcast]
    omega

@[simp] theorem afterDigit_p : (afterDigit w base cutoff cutlim b s).p = s.p + 1 := by
  unfold afterDigit
  split
  · rfl
  · split <;> rfl

@[simp] theorem afterDigit_endp : (afterDigit w base cutoff cutlim b s).endp = s.p + 1 := by
  unfold afterDigit
  split
  · rfl
  · split <;> rfl

end Round

/-! ### The limits -/

section Limits

variable {w : Nat} {neg : Bool} {base : Nat}

/-- The largest value a sign goes with. -/
def limitOf (w : Nat) (neg : Bool) : Int := if neg then 2 ^ (w - 1) else 2 ^ (w - 1) - 1

theorem two_pow_pred (hw : 0 < w) : (2 : Int) ^ w = 2 * 2 ^ (w - 1) := by
  rw [← Int.pow_succ', Nat.sub_add_cancel hw]

theorem one_le_two_pow (n : Nat) : (1 : Int) ≤ 2 ^ n := by
  have : (0 : Int) < 2 ^ n := by positivity
  omega

theorem kLongMax_eq (hw : 0 < w) : kLongMax w = 2 ^ (w - 1) - 1 := by
  rw [kLongMax, two_pow_pred hw]
  omega

theorem kLongMin_eq (hw : 0 < w) : kLongMin w = -2 ^ (w - 1) := by
  rw [kLongMin, kLongMax_eq hw]
  omega

theorem limitOf_nonneg : 0 ≤ limitOf w neg := by
  have := one_le_two_pow (w - 1)
  unfold limitOf
  split <;> omega

theorem limitOf_lt (hw : 0 < w) : limitOf w neg < 2 ^ w := by
  have := one_le_two_pow (w - 1)
  rw [two_pow_pred hw]
  unfold limitOf
  split <;> omega

theorem cutoffOf_eq (hw : 0 < w) : cutoffOf w neg base = limitOf w neg / base := by
  have hquot : (if neg then -((kLongMin w).tdiv base) else (kLongMax w).tdiv base) = limitOf w neg / base := by
    cases neg with
    | false =>
      have hnonneg : 0 ≤ kLongMax w := by
        have := one_le_two_pow (w - 1)
        rw [kLongMax_eq hw]
        omega
      rw [if_neg Bool.false_ne_true, Int.tdiv_eq_ediv_of_nonneg hnonneg, kLongMax_eq hw]
      rfl
    | true =>
      have hnonneg : (0 : Int) ≤ 2 ^ (w - 1) := Int.le_trans (by decide) (one_le_two_pow (w - 1))
      rw [if_pos rfl, kLongMin_eq hw, Int.neg_tdiv, Int.neg_neg, Int.tdiv_eq_ediv_of_nonneg hnonneg]
      rfl
  have hle : limitOf w neg / base ≤ limitOf w neg := Int.ediv_le_self _ limitOf_nonneg
  have hlow : 0 ≤ limitOf w neg / base := Int.ediv_nonneg limitOf_nonneg (Int.natCast_nonneg base)
  rw [cutoffOf, hquot, toULong, Int.emod_eq_of_lt hlow (Int.lt_of_le_of_lt hle (limitOf_lt hw))]

theorem cutlimOf_eq (hw : 0 < w) : cutlimOf w neg base = limitOf w neg % base := by
  cases neg with
  | false =>
    have hnonneg : 0 ≤ kLongMax w := by
      have := one_le_two_pow (w - 1)
      rw [kLongMax_eq hw]
      omega
    rw [cutlimOf, if_neg Bool.false_ne_true, Int.tmod_eq_emod_of_nonneg hnonneg, kLongMax_eq hw]
    rfl
  | true =>
    have hnonneg : (0 : Int) ≤ 2 ^ (w - 1) := Int.le_trans (by decide) (one_le_two_pow (w - 1))
    rw [cutlimOf, if_pos rfl, kLongMin_eq hw, Int.neg_tmod, Int.neg_neg, Int.tmod_eq_emod_of_nonneg hnonneg]
    rfl

theorem toLong_eq (hw : 0 < w) {x : Int} (hlow : -2 ^ (w - 1) ≤ x) (hhigh : x < 2 ^ (w - 1)) : toLong w x = x := by
  have hhalf : ((2 ^ w : Nat) : Int) = 2 * 2 ^ (w - 1) := by
    rw [Nat.cast_pow, Nat.cast_ofNat, two_pow_pred hw]
  apply Int.bmod_eq_of_le
  · omega
  · omega

theorem toLong_toULong (x : Int) : toLong w (toULong w x) = toLong w x := by
  have hcast : (2 : Int) ^ w = ((2 ^ w : Nat) : Int) := by rw [Nat.cast_pow, Nat.cast_ofNat]
  rw [toLong, toULong, hcast, Int.emod_bmod, toLong]

theorem scanResult_eq (hw : 0 < w) {v : Nat} {s : Scan} (h : ScanInv (limitOf w neg) v s) :
    scanResult w neg s = clampLong w neg v := by
  have hpos := one_le_two_pow (w - 1)
  have hv0 : (0 : Int) ≤ v := Int.natCast_nonneg v
  rcases h with ⟨hover, hn, hv⟩ | ⟨hover, hv⟩
  · have hgo : ¬ s.overflow = true := by rw [hover]; exact Bool.false_ne_true
    rw [scanResult, if_neg hgo, hn, clampLong]
    cases neg with
    | false =>
      have hfit : (v : Int) ≤ 2 ^ (w - 1) - 1 := hv
      rw [if_neg Bool.false_ne_true, if_neg Bool.false_ne_true, toLong_eq hw (by omega) (by omega)]
      omega
    | true =>
      have hfit : (v : Int) ≤ 2 ^ (w - 1) := hv
      rw [if_pos rfl, if_pos rfl, toLong_toULong, toLong_eq hw (by omega) (by omega)]
      omega
  · rw [scanResult, if_pos hover, clampLong]
    cases neg with
    | false =>
      have hbeyond : (2 : Int) ^ (w - 1) - 1 < v := hv
      rw [if_neg Bool.false_ne_true, if_neg Bool.false_ne_true, kLongMax_eq hw]
      omega
    | true =>
      have hbeyond : (2 : Int) ^ (w - 1) < v := hv
      rw [if_pos rfl, if_pos rfl, kLongMin_eq hw]
      omega

end Limits

/-! ### The loops -/

theorem StringAt.fetch_rest {mem : Store} {a : Nat} {text : CString} {before rest : List UInt8}
    (h : StringAt mem a text) (htext : text.1 = before ++ rest) :
    OpenNE.fetch (stringOnly a text) Codec.u8 (a + before.length) mem = .ok (rest.headD 0) := by
  have hin : before.length ≤ text.length := by
    rw [CString.length, htext, List.length_append]
    omega
  rw [h.fetch hin, htext]
  cases rest <;> simp

namespace Numeral

theorem le_valueFrom {base : Nat} (hbase : 0 < base) (v : Nat) (digits : List UInt8) :
    v ≤ valueFrom base v digits := by
  induction digits generalizing v with
  | nil => exact Nat.le_refl v
  | cons b digits ih =>
    refine Nat.le_trans ?_ (ih (v * base + digitValue b))
    exact Nat.le_trans (Nat.le_mul_of_pos_right v hbase) (Nat.le_add_right _ _)

end Numeral

section Loops

variable {w : Nat} {signed endptr neg : Bool} {mem : Store} {nptr : Nat} {text : CString} {base : Nat}

theorem scan_leave (hmax : base ≤ 36) (ht : StringAt mem nptr text) {before rest : List UInt8} {s : Scan}
    (htext : text.1 = before ++ rest) (hp : s.p = nptr + before.length) (hother : base ≤ digitValue (rest.headD 0))
    (fuel : Nat) :
    loop (scanRound w signed (stringOnly nptr text) mem base (cutoffOf w neg base) (cutlimOf w neg base) endptr)
      (fuel + 1) s = .ok s := by
  have hb : fetch (stringOnly nptr text) Codec.u8 s.p mem = .ok (rest.headD 0) := by
    rw [hp]
    exact ht.fetch_rest htext
  exact loop_succ_leave (scanRound_other (Int.ofNat_le.mpr hmax) hb (Int.ofNat_le.mpr hother)) fuel

theorem scan_run (hw : 0 < w) (hbase : 2 ≤ base) (hmax : base ≤ 36) (ht : StringAt mem nptr text)
    (rest : List UInt8) : ∀ {before : List UInt8} {v : Nat} {s : Scan}, text.1 = before ++ rest →
      s.p = nptr + before.length → ScanInv (limitOf w neg) v s →
      ∃ out, loop (scanRound w signed (stringOnly nptr text) mem base (cutoffOf w neg base) (cutlimOf w neg base)
          endptr) (rest.length + 1) s = .ok out ∧
        ScanInv (limitOf w neg) (Numeral.valueFrom base v (Numeral.run base rest)) out ∧
        (endptr = true → out.endp =
          if Numeral.run base rest = [] then s.endp else s.p + (Numeral.run base rest).length) := by
  have hmax' : (base : Int) ≤ 36 := Int.ofNat_le.mpr hmax
  induction rest with
  | nil =>
    intro before v s htext hp hinv
    exact ⟨s, scan_leave hmax ht htext hp hmax 0, hinv, fun _ => rfl⟩
  | cons b rest ih =>
    intro before v s htext hp hinv
    by_cases hdigit : digitValue b < base
    · have hrun : Numeral.run base (b :: rest) = b :: Numeral.run base rest :=
        List.takeWhile_cons_of_pos (decide_eq_true hdigit)
      have hb : fetch (stringOnly nptr text) Codec.u8 s.p mem = .ok b := by
        rw [hp]
        exact ht.fetch_rest htext
      have hround : scanRound w signed (stringOnly nptr text) mem base (cutoffOf w neg base) (cutlimOf w neg base)
          endptr s = if s.overflow = true ∧ endptr = false then _ else _ :=
        scanRound_digit hb hmax' (Int.ofNat_lt.mpr hdigit)
      have hnext := afterDigit_inv (Int.ofNat_le.mpr hbase) (limitOf_lt hw) (@cutoffOf_eq w neg base hw)
        (cutlimOf_eq hw) (Int.ofNat_lt.mpr hdigit) hinv
      rw [Int.toNat_natCast] at hnext
      rw [hrun, if_neg (List.cons_ne_nil _ _), List.length_cons]
      by_cases hleave : s.overflow = true ∧ endptr = false
      · rw [if_pos hleave] at hround
        refine ⟨_, loop_succ_leave hround _, .inr ⟨?_, ?_⟩, fun hend => ?_⟩
        · rw [afterDigit, if_pos hleave.1]
          exact hleave.1
        · have hbeyond : limitOf w neg < v := by
            rcases hinv with ⟨hover, -⟩ | ⟨-, hv⟩
            · rw [hleave.1] at hover
              cases hover
            · exact hv
          have hgrows : v ≤ Numeral.valueFrom base v (b :: Numeral.run base rest) := Numeral.le_valueFrom (by omega) v _
          omega
        · rw [hleave.2] at hend
          cases hend
      · rw [if_neg hleave] at hround
        have hsplit : text.1 = (before ++ [b]) ++ rest := by rw [htext, List.append_assoc, List.singleton_append]
        have hplace : (afterDigit w base (cutoffOf w neg base) (cutlimOf w neg base) b s).p =
            nptr + (before ++ [b]).length := by
          rw [afterDigit_p, hp, List.length_append, List.length_singleton, Nat.add_assoc]
        obtain ⟨out, hout, hvalue, hend⟩ := ih hsplit hplace hnext
        refine ⟨out, (loop_succ_next hround _).trans hout, hvalue, fun h => ?_⟩
        rw [hend h, afterDigit_p, afterDigit_endp]
        by_cases hlast : Numeral.run base rest = []
        · rw [if_pos hlast, hlast, List.length_singleton]
        · rw [if_neg hlast, List.length_cons]
          omega
    · have hrun : Numeral.run base (b :: rest) = [] := by
        rw [Numeral.run, List.takeWhile_cons_of_neg (by simpa using hdigit)]
      rw [hrun]
      exact ⟨s, scan_leave hmax ht htext hp (Nat.le_of_not_lt hdigit) _, hinv, fun _ => rfl⟩

theorem readDigits_eq (hw : 0 < w) (hbase : 2 ≤ base) (hmax : base ≤ 36) (ht : StringAt mem nptr text)
    {before rest : List UInt8} (htext : text.1 = before ++ rest) (endp : Nat) {fuel : Nat}
    (hfuel : rest.length < fuel) :
    readDigits w signed (stringOnly nptr text) fuel endptr mem neg base (nptr + before.length) endp =
      .ok (clampLong w neg (Numeral.valueFrom base 0 (Numeral.run base rest)),
        if endptr then
          some (if Numeral.run base rest = [] then endp else nptr + before.length + (Numeral.run base rest).length)
        else none) := by
  have hstart : ScanInv (limitOf w neg) 0 ⟨nptr + before.length, endp, 0, false⟩ := .inl ⟨rfl, rfl, limitOf_nonneg⟩
  obtain ⟨out, hout, hvalue, hend⟩ :=
    @scan_run w signed endptr neg mem nptr text base hw hbase hmax ht rest before 0 _ htext rfl hstart
  rw [readDigits, loop_mono hfuel hout, Exec.ok_bind, scanResult_eq hw hvalue]
  cases endptr with
  | false => rfl
  | true => rw [if_pos rfl, if_pos rfl, hend rfl]

theorem skipSpace_run (ht : StringAt mem nptr text) {blanks rest : List UInt8} (htext : text.1 = blanks ++ rest)
    (hblanks : ∀ b ∈ blanks, b = 32) (hrest : rest.headD 0 ≠ 32) {fuel : Nat} (hfuel : blanks.length < fuel) :
    loop (skipSpace (stringOnly nptr text) mem) fuel nptr = .ok (nptr + blanks.length) := by
  have hin : blanks.length ≤ text.length := by
    rw [CString.length, htext, List.length_append]
    omega
  refine loop_mono hfuel (loop_of_rounds (s := fun k => nptr + k) (fun k hk => ?_) ?_)
  · have hchar : text.1.getD k 0 = 32 := by
      rw [htext, List.getD_append _ _ _ _ hk, List.getD_eq_getElem _ _ hk]
      exact hblanks _ (List.getElem_mem hk)
    rw [skipSpace, ht.fetch (Nat.le_of_lt (Nat.lt_of_lt_of_le hk hin)), Exec.ok_bind, hchar]
    rfl
  · rw [skipSpace, ht.fetch_rest htext, Exec.ok_bind, if_neg hrest]

theorem readDigits_numeral (hw : 0 < w) (ht : StringAt mem nptr text) {before rest : List UInt8}
    (htext : text.1 = before ++ rest) {m : Numeral} (hbase : 2 ≤ m.base) (hmax : m.base ≤ 36)
    (hvalue : m.value = Numeral.valueFrom m.base 0 (Numeral.run m.base rest)) {endp : Nat}
    (hend : nptr + m.endPlace =
      if Numeral.run m.base rest = [] then endp else nptr + before.length + (Numeral.run m.base rest).length)
    {fuel : Nat} (hfuel : rest.length < fuel) :
    readDigits w signed (stringOnly nptr text) fuel endptr mem m.neg m.base (nptr + before.length) endp =
      .ok (m.number w, if endptr then some (nptr + m.endPlace) else none) := by
  rw [readDigits_eq hw hbase hmax ht htext endp hfuel, Numeral.number, hvalue, hend]

theorem hex_iff {rest : List UInt8} : Numeral.Hex base (48 :: rest) ↔
    (base = 0 ∨ base = 16) ∧ (rest.headD 0 = 88 ∨ rest.headD 0 = 120) := by
  cases rest with
  | nil => simp [Numeral.Hex]
  | cons x rest => simp [Numeral.Hex]

theorem bin_iff {rest : List UInt8} : Numeral.Bin base (48 :: rest) ↔
    (base = 0 ∨ base = 2) ∧ (rest.headD 0 = 66 ∨ rest.headD 0 = 98) := by
  cases rest with
  | nil => simp [Numeral.Bin]
  | cons x rest => simp [Numeral.Bin]

theorem readDigits_prefixed (hw : 0 < w) (ht : StringAt mem nptr text) {before rest : List UInt8} {b x : UInt8}
    (htext : text.1 = before ++ b :: x :: rest) (hbase : 2 ≤ base) (hmax : base ≤ 36) {fuel : Nat}
    (hfuel : text.length < fuel) {m : Numeral}
    (hm : m = ⟨neg, base, before.length + 2, true, Numeral.run base rest⟩) :
    readDigits w signed (stringOnly nptr text) fuel endptr mem neg base (nptr + before.length + 2)
      (nptr + before.length + 1) = .ok (m.number w, if endptr then some (nptr + m.endPlace) else none) := by
  have hsplit : text.1 = (before ++ [b, x]) ++ rest := by rw [htext, List.append_assoc]; rfl
  have hlength : (before ++ [b, x]).length = before.length + 2 := List.length_append
  have hshort : rest.length < fuel := by
    rw [CString.length, hsplit, List.length_append] at hfuel
    omega
  subst hm
  rw [Nat.add_assoc, ← hlength]
  refine readDigits_numeral (m := ⟨neg, base, (before ++ [b, x]).length, true, Numeral.run base rest⟩) hw ht hsplit
    hbase hmax rfl ?_ hshort
  simp only [Numeral.endPlace, hlength]
  by_cases hnone : Numeral.run base rest = []
  · rw [if_pos hnone, if_neg fun h => h hnone, if_pos trivial]
    omega
  · rw [if_neg hnone, if_pos hnone]
    omega

theorem readDigits_zero (hw : 0 < w) (ht : StringAt mem nptr text) {before rest : List UInt8}
    (htext : text.1 = before ++ 48 :: rest) (hbase : 2 ≤ base) (hmax : base ≤ 36) {fuel : Nat}
    (hfuel : text.length < fuel) {m : Numeral}
    (hm : m = ⟨neg, base, before.length, false, Numeral.run base (48 :: rest)⟩) :
    readDigits w signed (stringOnly nptr text) fuel endptr mem neg base (nptr + before.length + 1)
      (nptr + before.length + 1) = .ok (m.number w, if endptr then some (nptr + m.endPlace) else none) := by
  have hsplit : text.1 = (before ++ [48]) ++ rest := by rw [htext, List.append_assoc]; rfl
  have hlength : (before ++ [48]).length = before.length + 1 := List.length_append
  have hshort : rest.length < fuel := by
    rw [CString.length, hsplit, List.length_append] at hfuel
    omega
  have hzero : digitValue 48 = 0 := rfl
  have hrun : Numeral.run base (48 :: rest) = 48 :: Numeral.run base rest :=
    List.takeWhile_cons_of_pos (decide_eq_true (by rw [hzero]; omega))
  subst hm
  rw [hrun, Nat.add_assoc, ← hlength]
  refine readDigits_numeral (m := ⟨neg, base, before.length, false, 48 :: Numeral.run base rest⟩) hw ht hsplit
    hbase hmax ?_ ?_ hshort
  · show Numeral.valueFrom base (0 * base + digitValue 48) (Numeral.run base rest) = _
    rw [hzero, Nat.zero_mul]
  · simp only [Numeral.endPlace, hlength, List.length_cons]
    rw [if_pos (List.cons_ne_nil _ _)]
    by_cases hnone : Numeral.run base rest = []
    · rw [if_pos hnone, hnone]
      rfl
    · rw [if_neg hnone]
      omega

theorem readDigits_plain (hw : 0 < w) (ht : StringAt mem nptr text) {before rest : List UInt8}
    (htext : text.1 = before ++ rest) (hbase : 2 ≤ base) (hmax : base ≤ 36) {fuel : Nat}
    (hfuel : text.length < fuel) {m : Numeral}
    (hm : m = ⟨neg, base, before.length, false, Numeral.run base rest⟩) :
    readDigits w signed (stringOnly nptr text) fuel endptr mem neg base (nptr + before.length) nptr =
      .ok (m.number w, if endptr then some (nptr + m.endPlace) else none) := by
  have hshort : rest.length < fuel := by
    rw [CString.length, htext, List.length_append] at hfuel
    omega
  subst hm
  refine readDigits_numeral (m := ⟨neg, base, before.length, false, Numeral.run base rest⟩) hw ht htext
    hbase hmax rfl ?_ hshort
  simp only [Numeral.endPlace]
  by_cases hnone : Numeral.run base rest = []
  · rw [if_pos hnone, if_neg fun h => h hnone, if_neg Bool.false_ne_true, Nat.add_zero]
  · rw [if_neg hnone, if_pos hnone, Nat.add_assoc]

theorem skipPrefix_zero (ht : StringAt mem nptr text) {before rest : List UInt8}
    (htext : text.1 = before ++ 48 :: rest) :
    skipPrefix (stringOnly nptr text) mem nptr base (nptr + before.length) = .ok
      (if Numeral.Hex base (48 :: rest) then (16, nptr + before.length + 2, nptr + before.length + 1)
      else if Numeral.Bin base (48 :: rest) then (2, nptr + before.length + 2, nptr + before.length + 1)
      else (((if base = 0 then 8 else base : Nat) : Int), nptr + before.length + 1, nptr + before.length + 1)) := by
  have hfirst := ht.fetch_rest htext
  have hsplit : text.1 = (before ++ [48]) ++ rest := by rw [htext, List.append_assoc]; rfl
  have hsecond := ht.fetch_rest hsplit
  rw [List.length_append, List.length_singleton, ← Nat.add_assoc] at hsecond
  rw [skipPrefix, hfirst, Exec.ok_bind, List.headD_cons, if_pos rfl, hsecond, Exec.ok_bind]
  have hcast : ∀ n : Nat, ((base : Int) = n) = (base = n) := fun n => propext Int.ofNat_inj
  have h16 := hcast 16
  have h2 := hcast 2
  have h0 := hcast 0
  simp only [Nat.cast_ofNat, Nat.cast_zero] at h16 h2 h0
  simp only [hex_iff, bin_iff, h16, h2, h0]
  by_cases hzero : base = 0
  · subst hzero
    simp only [(by decide : ¬ (0 = 16)), (by decide : ¬ (0 = 2)), false_and, if_false, true_or, true_and, if_true]
    split
    · rfl
    · split <;> rfl
  · simp only [hzero, false_or, if_false]
    by_cases hsixteen : base = 16
    · subst hsixteen
      simp only [true_and, (by decide : ¬ (16 = 2)), false_and, if_false]
      split <;> rfl
    · by_cases htwo : base = 2
      · subst htwo
        simp only [true_and, (by decide : ¬ (2 = 16)), false_and, if_false]
        split <;> rfl
      · simp only [hsixteen, htwo, false_and, if_false]

theorem skipPrefix_other (ht : StringAt mem nptr text) {before rest : List UInt8} (htext : text.1 = before ++ rest)
    (hother : rest.headD 0 ≠ 48) :
    skipPrefix (stringOnly nptr text) mem nptr base (nptr + before.length) = .ok
      (((if base = 0 then 10 else base : Nat) : Int), nptr + before.length, nptr) := by
  rw [skipPrefix, ht.fetch_rest htext, Exec.ok_bind, if_neg hother]
  by_cases hzero : base = 0
  · rw [if_pos hzero, if_pos (by rw [hzero]; rfl)]
    rfl
  · have hcast : ¬ (base : Int) = 0 := fun h => hzero (Int.ofNat_inj.mp h)
    rw [if_neg hzero, if_neg hcast]

theorem readNumber_eq (hw : 0 < w) (hbase : base = 0 ∨ 2 ≤ base ∧ base ≤ 36) (ht : StringAt mem nptr text)
    {before rest : List UInt8} (htext : text.1 = before ++ rest) {fuel : Nat} (hfuel : text.length < fuel) {m : Numeral}
    (hm : m = Numeral.ofUnsigned base neg before.length rest) :
    readNumber w signed (stringOnly nptr text) fuel nptr endptr mem neg base (nptr + before.length) =
      .ok (m.number w, if endptr then some (nptr + m.endPlace) else none) := by
  rw [readNumber]
  by_cases hzero : rest.headD 0 = 48
  · obtain ⟨rest, rfl⟩ : ∃ rest', rest = 48 :: rest' := by
      cases rest with
      | nil => exact absurd hzero (by decide)
      | cons b rest => exact ⟨rest, by rw [← hzero]; rfl⟩
    rw [skipPrefix_zero ht htext, Exec.ok_bind]
    by_cases hhex : Numeral.Hex base (48 :: rest)
    · obtain ⟨x, rest, rfl⟩ : ∃ x rest', rest = x :: rest' := by
        cases rest with
        | nil => exact absurd (hex_iff.mp hhex).2 (by decide)
        | cons x rest => exact ⟨x, rest, rfl⟩
      rw [if_pos hhex]
      rw [Numeral.ofUnsigned, if_pos hhex] at hm
      exact readDigits_prefixed hw ht htext (by decide) (by decide) hfuel hm
    · by_cases hbin : Numeral.Bin base (48 :: rest)
      · obtain ⟨x, rest, rfl⟩ : ∃ x rest', rest = x :: rest' := by
          cases rest with
          | nil => exact absurd (bin_iff.mp hbin).2 (by decide)
          | cons x rest => exact ⟨x, rest, rfl⟩
        rw [if_neg hhex, if_pos hbin]
        rw [Numeral.ofUnsigned, if_neg hhex, if_pos hbin] at hm
        exact readDigits_prefixed hw ht htext (by decide) (by decide) hfuel hm
      · rw [if_neg hhex, if_neg hbin]
        rw [Numeral.ofUnsigned, if_neg hhex, if_neg hbin] at hm
        by_cases hnone : base = 0
        · have hfirst : (48 :: rest : List UInt8).head? = some 48 := rfl
          rw [if_pos hnone, if_pos hfirst] at hm
          rw [if_pos hnone]
          exact readDigits_zero hw ht htext (by decide) (by decide) hfuel hm
        · have hrange := hbase.resolve_left hnone
          rw [if_neg hnone] at hm
          rw [if_neg hnone]
          exact readDigits_zero hw ht htext hrange.1 hrange.2 hfuel hm
  · have hplain : ¬ Numeral.Hex base rest ∧ ¬ Numeral.Bin base rest ∧ ¬ rest.head? = some 48 := by
      cases rest with
      | nil => simp [Numeral.Hex, Numeral.Bin]
      | cons b rest =>
        have hb : ¬ b = 48 := hzero
        simp [Numeral.Hex, Numeral.Bin, hb]
    rw [skipPrefix_other ht htext hzero, Exec.ok_bind]
    rw [Numeral.ofUnsigned, if_neg hplain.1, if_neg hplain.2.1, if_neg hplain.2.2] at hm
    by_cases hnone : base = 0
    · rw [if_pos hnone] at hm
      rw [if_pos hnone]
      exact readDigits_plain hw ht htext (by decide) (by decide) hfuel hm
    · have hrange := hbase.resolve_left hnone
      rw [if_neg hnone] at hm
      rw [if_neg hnone]
      exact readDigits_plain hw ht htext hrange.1 hrange.2 hfuel hm

theorem skipSign_eq (ht : StringAt mem nptr text) {before rest : List UInt8} (htext : text.1 = before ++ rest) :
    ∃ sign number, text.1 = (before ++ sign) ++ number ∧
      skipSign (stringOnly nptr text) mem (nptr + before.length) =
        .ok (decide (rest.headD 0 = 45), nptr + (before ++ sign).length) ∧
      Numeral.ofSigned base before.length rest =
        Numeral.ofUnsigned base (decide (rest.headD 0 = 45)) (before ++ sign).length number := by
  have hread := ht.fetch_rest htext
  cases rest with
  | nil =>
    refine ⟨[], [], by rw [htext]; simp, ?_, ?_⟩
    · rw [skipSign, hread]
      simp
    · simp [Numeral.ofSigned]
  | cons b rest =>
    rw [List.headD_cons] at hread ⊢
    by_cases hsign : b = 43 ∨ b = 45
    · refine ⟨[b], rest, by rw [htext, List.append_assoc]; rfl, ?_, ?_⟩
      · rw [skipSign, hread, Exec.ok_bind, if_pos hsign, List.length_append, List.length_singleton, Nat.add_assoc]
      · rw [List.length_append, List.length_singleton]
        rcases hsign with rfl | rfl
        · rfl
        · rfl
    · obtain ⟨hplus, hminus⟩ := not_or.mp hsign
      refine ⟨[], b :: rest, by rw [htext, List.append_nil], ?_, ?_⟩
      · rw [skipSign, hread, Exec.ok_bind, if_neg hsign, List.append_nil]
      · simp [Numeral.ofSigned, hplus, hminus]

end Loops

/-- `StringToLong` returns the number the text starts with, kept to the range of a `long`, and leaves the address
behind it, whatever the width of the `long` and the signedness of the characters. It reads nothing behind the text. -/
theorem stringToLong_eq (w : Nat) (hw : 0 < w) (signed endptr : Bool) (base : Nat)
    (hbase : base = 0 ∨ 2 ≤ base ∧ base ≤ 36) (mem : Store) (nptr : Nat) (text : CString)
    (ht : StringAt mem nptr text) (fuel : Nat) (hfuel : text.length < fuel) :
    stringToLong w signed (stringOnly nptr text) fuel nptr endptr base mem =
      .ok ((Numeral.ofText base text.1).number w,
        if endptr then some (nptr + (Numeral.ofText base text.1).endPlace) else none) := by
  have hvalid : ¬ ((base : Int) < 0 ∨ (base : Int) = 1 ∨ 36 < (base : Int)) := by omega
  have hsplit : text.1 = text.1.takeWhile (· = 32) ++ text.1.dropWhile (· = 32) := List.takeWhile_append_dropWhile.symm
  have hblanks : ∀ b ∈ text.1.takeWhile (· = 32), b = 32 := fun b hb => by simpa using List.mem_takeWhile_imp hb
  have hbody : (text.1.dropWhile (· = 32)).headD 0 ≠ 32 := by
    have hstop := List.head?_dropWhile_not (fun b => decide (b = 32)) text.1
    cases hrest : text.1.dropWhile (· = 32) with
    | nil => decide
    | cons b rest =>
      rw [hrest] at hstop
      simpa using hstop
  have hshort : (text.1.takeWhile (· = 32)).length < fuel :=
    Nat.lt_of_le_of_lt (List.takeWhile_prefix _).length_le hfuel
  obtain ⟨sign, number, hnumber, hskip, hm⟩ := @skipSign_eq mem nptr text base ht _ _ hsplit
  rw [stringToLong, if_neg hvalid, skipSpace_run ht hsplit hblanks hbody hshort, Exec.ok_bind, hskip, Exec.ok_bind]
  exact readNumber_eq hw hbase ht hnumber hfuel hm

/-- The text ` -0x8000000000000000z`. -/
def lowestText : CString :=
  ⟨[32, 45, 48, 120, 56, 48, 48, 48, 48, 48, 48, 48, 48, 48, 48, 48, 48, 48, 48, 48, 122], by decide⟩

/-- The lowest `long` of 64 bits, read from a base that its prefix gives, up to the `z`. -/
theorem stringToLong_lowest :
    stringToLong 64 true (stringOnly 16 lowestText) 32 16 true (0 : Nat) (Store.write (fun _ => 0) 16 lowestText.1) =
      .ok (-9223372036854775808, some 36) :=
  stringToLong_eq 64 (by decide) true true 0 (.inl rfl) _ 16 lowestText (by decide) 32 (by decide)

end OpenNE

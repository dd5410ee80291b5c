import OpenNE.Base.Printing
import OpenNE.Memory.ByteMoves

/-!
# Numbers on the panic screen (`src/Utils.cc`, `HalKernelPanic.cc`)

`rt_to_string` turns the number digit by digit with a power of ten that an `int` holds. That power is the number's own,
so that every number of more than ten digits overflows it (`rtToString_iff`).
-/

namespace OpenNE

/-! ### The calls -/

/-- `rt_to_char`. -/
def rtToChar (base : UInt64) (limit : Int32) : Exec UInt8 :=
  if limit = 0 then .error .fault
  else
    -- behind the digits stands the zero of the literal
    match (kNumbers ++ [0])[(base % limit.toInt64.toUInt64).toNat]? with
    | some c => .ok c
    | none => .error .fault

/-- The product of two `int`s is none. -/
def mulOverflows (x y : Int32) : Bool := (x * y).toInt != x.toInt * y.toInt

/-- The variables of the first loop of `rt_to_string`. -/
structure Counting where
  base : UInt64
  mult : Int32
  elems : Int
  overflow : Bool

/-- A round of it. -/
def countRound (s : Counting) : Exec (Counting ⊕ Counting) :=
  if 0 < s.base then
    .ok (.inl ⟨s.base / 10, s.mult * 10, s.elems + 1, s.overflow || mulOverflows s.mult 10⟩)
  else .ok (.inr s)

/-- The variables of the second. -/
structure Turning where
  finalNumber : UInt64
  elems : Int
  i : Nat
  mem : Store
  overflow : Bool

/-- A round of it, `mult` as the unsigned value that it becomes. -/
def turnRound (str : Nat) (mult : UInt64) (limit : Int32) (s : Turning) : Exec (Turning ⊕ Turning) :=
  if -1 < s.elems then
    if mult = 0 then .error .fault
    else do
      let finalNumber := s.finalNumber % mult * 10 + s.finalNumber / mult
      let wide := s.finalNumber.toNat % mult.toNat * 10 + s.finalNumber.toNat / mult.toNat
      let c ← rtToChar finalNumber limit
      .ok (.inl ⟨finalNumber, s.elems - 1, s.i + 1, s.mem.write (str + s.i) [c], s.overflow || 2 ^ 64 ≤ wide⟩)
  else .ok (.inr s)

/-- `rt_to_string` on AMD64: the variables at its end. -/
def rtToString (fuel str : Nat) (base : UInt64) (limit : Int32) (mem : Store) : Exec Turning := do
  let count ← loop countRound fuel ⟨base / 10, 1, 0, false⟩
  loop (turnRound str count.mult.toInt64.toUInt64 limit) fuel ⟨base, count.elems, 0, mem, count.overflow⟩

/-- `"cr2: "`. -/
def cr2Label : List UInt8 := [99, 114, 50, 58, 32]

/-- `message_cr2` of `ke_panic`. -/
def messageCr2 (fuel msg : Nat) (cr2 : UInt64) (mem : Store) : Exec Turning :=
  rtToString fuel (msg + cr2Label.length) cr2 10 ((rtSetMemory msg 0 128 mem).2.write msg (cr2Label ++ [0]))

/-! ### What they are for -/

/-- The digits are written from `str` on and nothing else, and nothing overflows. -/
def ConvertsRight (u : UInt64) (str : Nat) (mem : Store) : Prop :=
  ∃ fuel s, rtToString fuel str u 10 mem = .ok s ∧ s.overflow = false ∧
    s.mem = mem.write str (numeralText 10 u.toNat)

/-- The address is shown behind its label. -/
def ShowsAddress (cr2 : UInt64) (msg : Nat) (mem : Store) : Prop :=
  ∃ fuel s, messageCr2 fuel msg cr2 mem = .ok s ∧ s.overflow = false ∧
    s.mem.read msg (cr2Label.length + (numeralText 10 cr2.toNat).length + 1) =
      cr2Label ++ numeralText 10 cr2.toNat ++ [0]

/-! ### The power of ten -/

section Count

variable {u : UInt64}

/-- The variables after `k` rounds. -/
def counted (u : UInt64) (k : Nat) : Counting :=
  ⟨UInt64.ofNat (u.toNat / 10 ^ (k + 1)), Int32.ofNat (10 ^ k), k, decide (10 ≤ k)⟩

theorem mulOverflows_pow {k : Nat} (hk : k < 19) :
    (decide (10 ≤ k) || mulOverflows (Int32.ofNat (10 ^ k)) 10) = decide (10 ≤ k + 1) := by
  interval_cases k <;> decide

theorem countRound_next {k : Nat} (hk : 10 ^ (k + 1) ≤ u.toNat) :
    countRound (counted u k) = .ok (.inl (counted u (k + 1))) := by
  have hlt := u.toNat_lt
  have hpow : 10 ^ (k + 1) < 2 ^ 64 := Nat.lt_of_le_of_lt hk hlt
  have hround : k < 19 := by
    by_contra hge
    have : 10 ^ 20 ≤ 10 ^ (k + 1) := Nat.pow_le_pow_right (by decide) (by omega)
    omega
  have hquot : u.toNat / 10 ^ (k + 1) < 2 ^ 64 := Nat.lt_of_le_of_lt (Nat.div_le_self _ _) hlt
  have hpos : 0 < u.toNat / 10 ^ (k + 1) := Nat.div_pos hk (Nat.pow_pos (by decide))
  have hmore : 0 < UInt64.ofNat (u.toNat / 10 ^ (k + 1)) := by
    rw [UInt64.lt_iff_toNat_lt, UInt64.toNat_ofNat_of_lt' hquot]
    exact hpos
  have hbase : UInt64.ofNat (u.toNat / 10 ^ (k + 1)) / 10 = UInt64.ofNat (u.toNat / 10 ^ (k + 1 + 1)) := by
    rw [← UInt64.toNat_inj, UInt64.toNat_div, UInt64.toNat_ofNat_of_lt' hquot, Nat.pow_succ _ (k + 1),
      ← Nat.div_div_eq_div_mul, UInt64.toNat_ofNat_of_lt' (Nat.lt_of_le_of_lt (Nat.div_le_self _ _) hquot)]
    rfl
  have hmult : Int32.ofNat (10 ^ k) * 10 = Int32.ofNat (10 ^ (k + 1)) := by
    rw [Nat.pow_succ, Int32.ofNat_mul]
    rfl
  rw [countRound]
  simp only [counted, if_pos hmore, hbase, hmult, mulOverflows_pow hround]
  rfl

theorem countRound_leave {k : Nat} (hk : u.toNat < 10 ^ (k + 1)) :
    countRound (counted u k) = .ok (.inr (counted u k)) := by
  have hbase : (counted u k).base = 0 := by
    rw [counted, Nat.div_eq_of_lt hk]
    rfl
  rw [countRound, hbase, if_neg (by decide)]

theorem count_eq (u : UInt64) :
    loop countRound (Nat.log 10 u.toNat + 1) ⟨u / 10, 1, 0, false⟩ = .ok (counted u (Nat.log 10 u.toNat)) := by
  have hfirst : (⟨u / 10, 1, 0, false⟩ : Counting) = counted u 0 := by
    have hquot : UInt64.ofNat (u.toNat / 10 ^ 1) = u / 10 := by
      rw [← UInt64.toNat_inj, UInt64.toNat_div,
        UInt64.toNat_ofNat_of_lt' (Nat.lt_of_le_of_lt (Nat.div_le_self _ _) u.toNat_lt)]
      rfl
    rw [counted, Nat.zero_add, hquot]
    rfl
  rw [hfirst]
  refine loop_of_rounds (s := counted u) (fun k hk => countRound_next ?_) (countRound_leave ?_)
  · have hne : u.toNat ≠ 0 := by
      intro hzero
      rw [hzero, Nat.log_zero_right] at hk
      exact absurd hk (Nat.not_lt_zero k)
    exact Nat.pow_le_of_le_log hne hk
  · exact Nat.lt_pow_succ_log_self (by decide) _

end Count

/-! ### The digits -/

section Turn

variable {u : UInt64} {str d : Nat} {mem : Store}

/-- The variables after `i` digits of `d + 1`. -/
def turnedAt (u : UInt64) (str : Nat) (mem : Store) (d i : Nat) : Turning :=
  ⟨UInt64.ofNat (turned 10 (d + 1) u.toNat i), d - i, i, mem.write str ((numeralText 10 u.toNat).take i), false⟩

theorem rtToChar_ten (n : UInt64) : rtToChar n 10 = .ok (digitChar (n.toNat % 10)) := by
  have hlt : n.toNat % 10 < 10 := Nat.mod_lt _ (by decide)
  have hidx : (n % (10 : Int32).toInt64.toUInt64).toNat = n.toNat % 10 := by
    rw [UInt64.toNat_mod]
    rfl
  have hchar : (kNumbers ++ [0])[n.toNat % 10]? = some (digitChar (n.toNat % 10)) := by
    interval_cases n.toNat % 10 <;> rfl
  rw [rtToChar, if_neg (by decide), hidx, hchar]

theorem pow_succ_lt (hsmall : d < 10) : 10 ^ (d + 1) < 2 ^ 64 :=
  calc 10 ^ (d + 1) ≤ 10 ^ 10 := Nat.pow_le_pow_right (by decide) (by omega)
    _ < 2 ^ 64 := by decide

theorem toNat_power (hsmall : d < 10) : (UInt64.ofNat (10 ^ d)).toNat = 10 ^ d := by
  apply UInt64.toNat_ofNat_of_lt'
  exact Nat.lt_of_le_of_lt (Nat.pow_le_pow_right (by decide) (Nat.le_succ d)) (pow_succ_lt hsmall)

theorem toNat_turned {i : Nat} (hu : u.toNat < 10 ^ (d + 1)) (hsmall : d < 10) (hi : i ≤ d + 1) :
    (UInt64.ofNat (turned 10 (d + 1) u.toNat i)).toNat = turned 10 (d + 1) u.toNat i :=
  UInt64.toNat_ofNat_of_lt' (Nat.lt_trans (turned_lt (by decide) hu hi) (pow_succ_lt hsmall))

theorem write_digit {i : Nat} (hd : Nat.log 10 u.toNat = d) (hi : i ≤ d) :
    (mem.write str ((numeralText 10 u.toNat).take i)).write (str + i) [digitChar (u.toNat / 10 ^ (d - i) % 10)] =
      mem.write str ((numeralText 10 u.toNat).take (i + 1)) := by
  have hlen : ((numeralText 10 u.toNat).take i).length = i := by
    rw [List.length_take, length_numeralText (by decide), hd]
    omega
  have happend := Store.write_append mem str ((numeralText 10 u.toNat).take i)
    [digitChar (u.toNat / 10 ^ (d - i) % 10)]
  rw [hlen] at happend
  rw [happend, numeralText_take_succ (by decide) (by omega), hd]

theorem turnRound_next {i : Nat} (hd : Nat.log 10 u.toNat = d) (hsmall : d < 10) (hi : i ≤ d) :
    turnRound str (UInt64.ofNat (10 ^ d)) 10 (turnedAt u str mem d i) =
      .ok (.inl (turnedAt u str mem d (i + 1))) := by
  have hu : u.toNat < 10 ^ (d + 1) := hd ▸ Nat.lt_pow_succ_log_self (by decide) u.toNat
  have hturned := toNat_turned hu hsmall (Nat.le_succ_of_le hi)
  have hnext := toNat_turned hu hsmall (Nat.succ_le_succ hi)
  have hmult := toNat_power hsmall
  have hne : UInt64.ofNat (10 ^ d) ≠ 0 := by
    rw [ne_eq, ← UInt64.toNat_inj, hmult]
    exact (Nat.pow_pos (by decide)).ne'
  have hwide : turned 10 (d + 1) u.toNat i % 10 ^ d * 10 + turned 10 (d + 1) u.toNat i / 10 ^ d =
      turned 10 (d + 1) u.toNat (i + 1) := turned_succ (by decide) hu hi
  have hbound : turned 10 (d + 1) u.toNat (i + 1) < 2 ^ 64 :=
    Nat.lt_trans (turned_lt (by decide) hu (Nat.succ_le_succ hi)) (pow_succ_lt hsmall)
  have hfinal : UInt64.ofNat (turned 10 (d + 1) u.toNat i) % UInt64.ofNat (10 ^ d) * 10 +
      UInt64.ofNat (turned 10 (d + 1) u.toNat i) / UInt64.ofNat (10 ^ d) =
        UInt64.ofNat (turned 10 (d + 1) u.toNat (i + 1)) := by
    rw [← UInt64.toNat_inj, UInt64.toNat_add, UInt64.toNat_mul, UInt64.toNat_mod, UInt64.toNat_div,
      hturned, hmult, hnext, Nat.mod_add_mod]
    exact (congrArg (· % 2 ^ 64) hwide).trans (Nat.mod_eq_of_lt hbound)
  have hchar : rtToChar (UInt64.ofNat (turned 10 (d + 1) u.toNat (i + 1))) 10 =
      .ok (digitChar (u.toNat / 10 ^ (d - i) % 10)) := by
    rw [rtToChar_ten, hnext, turned_mod, Nat.add_sub_add_right]
  have hover : ¬ 2 ^ 64 ≤ turned 10 (d + 1) u.toNat i % 10 ^ d * 10 + turned 10 (d + 1) u.toNat i / 10 ^ d := by
    omega
  have helems : (d : Int) - i - 1 = d - (i + 1 : Nat) := by omega
  rw [turnRound, turnedAt, if_pos (by simp only; omega), if_neg hne]
  simp only [hfinal, hchar, Exec.ok_bind, hturned, hmult, write_digit hd hi, helems, decide_eq_false hover]
  rfl

theorem turn_eq (hd : Nat.log 10 u.toNat = d) (hsmall : d < 10) :
    loop (turnRound str (UInt64.ofNat (10 ^ d)) 10) (d + 2) ⟨u, d, 0, mem, false⟩ =
      .ok (turnedAt u str mem d (d + 1)) := by
  have hu : u.toNat < 10 ^ (d + 1) := hd ▸ Nat.lt_pow_succ_log_self (by decide) u.toNat
  have hfirst : (⟨u, d, 0, mem, false⟩ : Turning) = turnedAt u str mem d 0 := by
    rw [turnedAt, turned_zero hu, UInt64.ofNat_toNat, List.take_zero, Store.write_nil, Int.natCast_zero, Int.sub_zero]
  rw [hfirst]
  refine loop_of_rounds (s := turnedAt u str mem d) (fun i hi => turnRound_next hd hsmall (by omega)) ?_
  rw [turnRound, if_neg]
  rw [turnedAt]
  simp only
  omega

theorem turnRound_overflow {mult : UInt64} {limit : Int32} {s s' : Turning} (hs : s.overflow = true)
    (h : turnRound str mult limit s = .ok (.inl s')) : s'.overflow = true := by
  rw [turnRound] at h
  by_cases hmore : -1 < s.elems
  · rw [if_pos hmore] at h
    by_cases hzero : mult = 0
    · rw [if_pos hzero] at h
      cases h
    · rw [if_neg hzero] at h
      obtain ⟨c, -, hround⟩ := Exec.bind_eq_ok.mp h
      cases hround
      simp only [hs, Bool.true_or]
  · rw [if_neg hmore] at h
    cases h

theorem turnRound_leave {mult : UInt64} {limit : Int32} {s a : Turning}
    (h : turnRound str mult limit s = .ok (.inr a)) : a = s := by
  rw [turnRound] at h
  by_cases hmore : -1 < s.elems
  · rw [if_pos hmore] at h
    by_cases hzero : mult = 0
    · rw [if_pos hzero] at h
      cases h
    · rw [if_neg hzero] at h
      obtain ⟨c, -, hround⟩ := Exec.bind_eq_ok.mp h
      cases hround
  · rw [if_neg hmore] at h
    cases h
    rfl

end Turn

/-! ### Numbers of ten digits -/

theorem log_lt_ten_iff (u : UInt64) : Nat.log 10 u.toNat < 10 ↔ u.toNat < 10 ^ 10 :=
  ⟨Nat.lt_pow_of_log_lt (by decide), Nat.log_lt_of_lt_pow' (by decide)⟩

theorem mult_eq {d : Nat} (hd : d < 10) : (Int32.ofNat (10 ^ d)).toInt64.toUInt64 = UInt64.ofNat (10 ^ d) := by
  interval_cases d <;> rfl

theorem rtToString_small {u : UInt64} (hu : u.toNat < 10 ^ 10) (str : Nat) (mem : Store) :
    ∃ s, rtToString 11 str u 10 mem = .ok s ∧ s.overflow = false ∧
      s.mem = mem.write str (numeralText 10 u.toNat) := by
  have hlog := (log_lt_ten_iff u).mpr hu
  have hcount : loop countRound 11 ⟨u / 10, 1, 0, false⟩ = .ok (counted u (Nat.log 10 u.toNat)) :=
    loop_mono (by omega) (count_eq u)
  have hturn : loop (turnRound str (UInt64.ofNat (10 ^ Nat.log 10 u.toNat)) 10) 11
      ⟨u, Nat.log 10 u.toNat, 0, mem, false⟩ =
        .ok (turnedAt u str mem (Nat.log 10 u.toNat) (Nat.log 10 u.toNat + 1)) :=
    loop_mono (by omega) (turn_eq rfl hlog)
  refine ⟨turnedAt u str mem (Nat.log 10 u.toNat) (Nat.log 10 u.toNat + 1), ?_, rfl, ?_⟩
  · have hnone : decide (10 ≤ Nat.log 10 u.toNat) = false := decide_eq_false (by omega)
    rw [rtToString, hcount, Exec.ok_bind, counted, mult_eq hlog, hnone]
    exact hturn
  · rw [turnedAt, List.take_of_length_le]
    rw [length_numeralText (by decide)]

theorem rtToString_large {u : UInt64} (hu : ¬ u.toNat < 10 ^ 10) {fuel str : Nat} {mem : Store} {s : Turning}
    (h : rtToString fuel str u 10 mem = .ok s) : s.overflow = true := by
  have hlog : 10 ≤ Nat.log 10 u.toNat := Nat.le_of_not_lt fun hlt => hu ((log_lt_ten_iff u).mp hlt)
  rw [rtToString] at h
  obtain ⟨count, hcount, hturn⟩ := Exec.bind_eq_ok.mp h
  have hover : count.overflow = true := by
    rw [loop_unique hcount (count_eq u)]
    exact decide_eq_true hlog
  refine loop_invariant (fun s => s.overflow = true) (fun s => s.overflow = true) ?_ ?_ ?_ hturn
  · exact fun s s' hs hround => turnRound_overflow hs hround
  · exact fun s a hs hround => turnRound_leave hround ▸ hs
  · exact hover

theorem convertsRight_iff (u : UInt64) (str : Nat) (mem : Store) :
    ConvertsRight u str mem ↔ u.toNat < 10 ^ 10 := by
  constructor
  · rintro ⟨fuel, s, hcall, hnone, -⟩
    by_contra hu
    rw [rtToString_large hu hcall] at hnone
    cases hnone
  · intro hu
    obtain ⟨s, hcall⟩ := rtToString_small hu str mem
    exact ⟨11, s, hcall⟩

theorem read_message (msg : Nat) (mem : Store) {digits : List UInt8} (hpos : 0 < digits.length)
    (hlen : digits.length < 500) :
    (((rtSetMemory msg 0 128 mem).2.write msg (cr2Label ++ [0])).write (msg + cr2Label.length) digits).read msg
      (cr2Label.length + digits.length + 1) = cr2Label ++ digits ++ [0] := by
  have hlabel : cr2Label.length = 5 := rfl
  have hclear : (rtSetMemory msg 0 128 mem).2 (msg + (5 + digits.length)) = 0 := by
    have hzero : memset (0 : UInt8).toUInt32 msg 128 mem (msg + (5 + digits.length)) =
        if (5 + digits.length) % 4 = 0 then 0 else 0 := memset_apply mem (by omega)
    rw [ite_self] at hzero
    rw [rtSetMemory_eq]
    exact hzero
  rw [Store.read_add, Store.read_add, Store.read_write_same, Store.read_write_disjoint (by omega),
    ← Store.write_append, Store.read_write_disjoint (by rw [List.length_singleton]; omega), Store.read_write_same]
  congr 1
  refine Store.read_zeroed fun x hlow hhigh => ?_
  have hx : x = msg + (5 + digits.length) := by omega
  rw [Store.write_apply_outside (by omega), Store.write_apply_outside (by rw [List.length_singleton]; omega),
    Store.write_apply_outside (by omega), hx, hclear]

theorem showsAddress_iff (cr2 : UInt64) (msg : Nat) (mem : Store) :
    ShowsAddress cr2 msg mem ↔ cr2.toNat < 10 ^ 10 := by
  constructor
  · rintro ⟨fuel, s, hcall, hnone, -⟩
    by_contra hu
    rw [rtToString_large hu hcall] at hnone
    cases hnone
  · intro hu
    obtain ⟨s, hcall, hnone, hmem⟩ := rtToString_small hu (msg + cr2Label.length)
      ((rtSetMemory msg 0 128 mem).2.write msg (cr2Label ++ [0]))
    have hlen := length_numeralText (b := 10) (by decide) cr2.toNat
    have hlog := (log_lt_ten_iff cr2).mpr hu
    refine ⟨11, s, hcall, hnone, ?_⟩
    rw [hmem, read_message msg mem (by omega) (by omega)]

/-- The digits of a number are written, and nothing else, exactly when there are no more than ten. -/
theorem rtToString_iff (u : UInt64) (str : Nat) (mem : Store) :
    (ConvertsRight u str mem ↔ u.toNat < 10 ^ 10) ∧ (ShowsAddress u str mem ↔ u.toNat < 10 ^ 10) :=
  ⟨convertsRight_iff u str mem, showsAddress_iff u str mem⟩

/-- The first number of eleven digits starts with a seven. -/
theorem ten_billion_not_converted : ¬ ConvertsRight 10000000000 0 (fun _ => 0) ∧
    ¬ ShowsAddress 10000000000 0 (fun _ => 0) ∧
    (rtToString 12 0 10000000000 10 fun _ => 0).map (fun s => s.mem.read 0 11) =
      .ok [55, 48, 57, 49, 56, 54, 57, 53, 57, 57, 55] ∧
    numeralText 10 10000000000 = [49, 48, 48, 48, 48, 48, 48, 48, 48, 48, 48] := by
  refine ⟨fun h => ?_, fun h => ?_, by decide +kernel, by decide +kernel⟩
  · exact absurd ((convertsRight_iff _ _ _).mp h) (by decide)
  · exact absurd ((showsAddress_iff _ _ _).mp h) (by decide)

end OpenNE

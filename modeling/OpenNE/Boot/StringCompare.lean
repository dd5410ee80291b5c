import OpenNE.Base.CString
import OpenNE.Boot.BootSupport

/-!
# `strcmp` of the boot loader (`src/BootSupport.cc`)

`strcmp` returns how many characters the two strings have in common, as an `int`, and zero when they are equal or the
first is empty. So strings that differ at once compare equal, as do those that differ after any multiple of `2 ^ 32`
characters (`compares_iff`).
-/

namespace OpenNE

/-! ### The call -/

/-- A round of the loop of `strcmp`, `len` characters in. -/
def strcmpRound (left right : Access) (mem : Store) (whatToCheck whatToCheckRight len : Nat) :
    Exec (Nat ⊕ Int32) := do
  let c ← fetch left Codec.u8 (whatToCheck + len) mem
  let cRight ← fetch right Codec.u8 (whatToCheckRight + len) mem
  if c = cRight then
    if c = 0 then .ok (.inr 0) else .ok (.inl (len + 1))
  else .ok (.inr (Int32.ofNat len))

/-- `strcmp`, of the strings at two addresses. -/
def strcmpOf (left right : Access) (fuel whatToCheck whatToCheckRight : Nat) (mem : Store) : Exec Int32 :=
  if whatToCheck = 0 then .ok 0
  else do
    let c ← fetch left Codec.u8 whatToCheck mem
    if c = 0 then .ok 0 else loop (strcmpRound left right mem whatToCheck whatToCheckRight) fuel 0

/-! ### What it is for -/

/-- The string `s`, with its zero, lies at `a`. -/
def StringAt (mem : Store) (a : Nat) (s : CString) : Prop := mem.read a (s.length + 1) = s.1 ++ [0]

instance (mem : Store) (a : Nat) (s : CString) : Decidable (StringAt mem a s) := inferInstanceAs (Decidable (_ = _))

/-- Where the string `s` lies at `a` when it does, and no more than that. -/
def stringOnly (a : Nat) (s : CString) : Access := .within ⟨a, s.length + 1⟩

/-- What comparing the strings `left` at `p` and `right` at `q` is meant to do: the call ends without reading behind
either, with zero if and only if they are equal, and so the other way round. -/
structure Compares (mem : Store) (p q : Nat) (left right : CString) : Prop where
  zero_iff : ∃ fuel r, strcmpOf (stringOnly p left) (stringOnly q right) fuel p q mem = .ok r ∧
    (r = 0 ↔ left = right)
  symmetric : ∃ fuel r r', strcmpOf (stringOnly p left) (stringOnly q right) fuel p q mem = .ok r ∧
    strcmpOf (stringOnly q right) (stringOnly p left) fuel q p mem = .ok r' ∧ (r = 0 ↔ r' = 0)

/-! ### What two strings have in common -/

/-- How many characters two strings start with in common. -/
def commonLength : List UInt8 → List UInt8 → Nat
  | a :: as, b :: bs => if a = b then commonLength as bs + 1 else 0
  | _, _ => 0

theorem commonLength_comm (as bs : List UInt8) : commonLength as bs = commonLength bs as := by
  induction as generalizing bs with
  | nil => cases bs <;> rfl
  | cons a as ih =>
    cases bs with
    | nil => rfl
    | cons b bs => simp only [commonLength, ih bs, eq_comm (a := a)]

theorem commonLength_self (as : List UInt8) : commonLength as as = as.length := by
  induction as with
  | nil => rfl
  | cons a as ih => rw [commonLength, if_pos rfl, ih, List.length_cons]

theorem commonLength_le (as bs : List UInt8) : commonLength as bs ≤ as.length := by
  induction as generalizing bs with
  | nil => cases bs <;> exact Nat.le_refl 0
  | cons a as ih =>
    cases bs with
    | nil => exact Nat.zero_le _
    | cons b bs =>
      rw [commonLength]
      split
      · exact Nat.succ_le_succ (ih bs)
      · exact Nat.zero_le _

theorem commonLength_le_right (as bs : List UInt8) : commonLength as bs ≤ bs.length := by
  rw [commonLength_comm]
  exact commonLength_le bs as

theorem getD_common {as bs : List UInt8} {k : Nat} (hk : k < commonLength as bs) :
    as.getD k 0 = bs.getD k 0 := by
  induction as generalizing bs k with
  | nil => cases bs <;> exact absurd hk (Nat.not_lt_zero k)
  | cons a as ih =>
    cases bs with
    | nil => exact absurd hk (Nat.not_lt_zero k)
    | cons b bs =>
      rw [commonLength] at hk
      by_cases hab : a = b
      · rw [if_pos hab] at hk
        cases k with
        | zero => exact hab
        | succ k => exact ih (Nat.lt_of_succ_lt_succ hk)
      · rw [if_neg hab] at hk
        exact absurd hk (Nat.not_lt_zero k)

theorem getD_first_difference {as bs : List UInt8} (has : (0 : UInt8) ∉ as) (hbs : (0 : UInt8) ∉ bs) (hne : as ≠ bs) :
    as.getD (commonLength as bs) 0 ≠ bs.getD (commonLength as bs) 0 := by
  induction as generalizing bs with
  | nil =>
    cases bs with
    | nil => exact absurd rfl hne
    | cons b bs => exact fun h => hbs (List.mem_cons.mpr (.inl h))
  | cons a as ih =>
    cases bs with
    | nil => exact fun h => has (List.mem_cons.mpr (.inl h.symm))
    | cons b bs =>
      rw [commonLength]
      by_cases hab : a = b
      · rw [if_pos hab]
        exact ih (fun h => has (List.mem_cons_of_mem _ h)) (fun h => hbs (List.mem_cons_of_mem _ h))
          fun h => hne (by rw [hab, h])
      · rw [if_neg hab]
        exact hab

/-! ### What the call returns -/

/-- What `strcmp` returns, of any two strings. -/
def strcmpValue (left right : CString) : Int32 :=
  if left.1 = [] ∨ left = right then 0 else Int32.ofNat (commonLength left.1 right.1)

section Compare

variable {mem : Store} {p q : Nat} {left right : CString}

theorem StringAt.apply {s : CString} {a k : Nat} (h : StringAt mem a s) (hk : k ≤ s.length) :
    mem (a + k) = s.1.getD k 0 := by
  have hchar := congrArg (fun bs => bs.getD k 0) h
  have hin : k < s.length + 1 := Nat.lt_succ_of_le hk
  have hread : (mem.read a (s.length + 1)).getD k 0 = mem (a + k) := by
    simp [Store.read, List.getD_eq_getElem?_getD, hin]
  have hlast : (s.1 ++ [0]).getD k 0 = s.1.getD k 0 := by
    simp only [List.getD_eq_getElem?_getD, List.getElem?_append]
    split
    · rfl
    · rw [List.getElem?_eq_none (by omega : s.1.length ≤ k)]
      cases hrest : k - s.1.length with
      | zero => rfl
      | succ n => rfl
  rw [← hread, hchar, hlast]

theorem StringAt.fetch {s : CString} {a k : Nat} (h : StringAt mem a s) (hk : k ≤ s.length) :
    fetch (stringOnly a s) Codec.u8 (a + k) mem = .ok (s.1.getD k 0) := by
  have hin : (Span.mk a (s.length + 1)).Holds (a + k) Codec.u8.size := by
    simp only [Span.Holds, show Codec.u8.size = 1 from rfl]
    omega
  rw [OpenNE.fetch, stringOnly, Access.mayRead, if_pos (decide_eq_true hin), get_u8, h.apply hk]

theorem StringAt.apply_length {s : CString} {a : Nat} (h : StringAt mem a s) : mem (a + s.length) = 0 :=
  (h.apply (Nat.le_refl _)).trans (List.getD_eq_default _ _ (Nat.le_refl _))

theorem StringAt.fetch_length {s : CString} {a : Nat} (h : StringAt mem a s) :
    OpenNE.fetch (stringOnly a s) Codec.u8 (a + s.length) mem = .ok 0 :=
  (h.fetch (Nat.le_refl _)).trans (congrArg Except.ok (List.getD_eq_default _ _ (Nat.le_refl _)))

theorem getD_pos_ne_zero {s : CString} {k : Nat} (hk : k < s.length) : s.1.getD k 0 ≠ 0 := by
  rw [List.getD_eq_getElem _ _ hk]
  intro hzero
  have hmem := List.getElem_mem hk
  rw [hzero] at hmem
  exact s.2 hmem

theorem StringAt.length_le {s t : CString} {a : Nat} (hs : StringAt mem a s) (ht : StringAt mem a t) :
    s.length ≤ t.length := by
  by_contra hlong
  have hend := ht.apply_length
  rw [hs.apply (by omega)] at hend
  exact getD_pos_ne_zero (by omega) hend

theorem StringAt.unique {s t : CString} {a : Nat} (hs : StringAt mem a s) (ht : StringAt mem a t) : s = t := by
  have hlen : s.length = t.length := Nat.le_antisymm (hs.length_le ht) (ht.length_le hs)
  rw [StringAt] at hs ht
  rw [hlen, ht] at hs
  exact Subtype.ext (List.append_cancel_right hs).symm

theorem stringAt_write (mem : Store) (a : Nat) (s : CString) : StringAt (mem.write a (s.1 ++ [0])) a s := by
  have hread := @Store.read_write_same mem a (s.1 ++ [0])
  rwa [List.length_append] at hread

theorem strcmpRound_common (hl : StringAt mem p left) (hr : StringAt mem q right) {k : Nat}
    (hk : k < commonLength left.1 right.1) :
    strcmpRound (stringOnly p left) (stringOnly q right) mem p q k = .ok (.inl (k + 1)) := by
  have hleft : k < left.length := Nat.lt_of_lt_of_le hk (commonLength_le _ _)
  have hright : k < right.length := Nat.lt_of_lt_of_le hk (commonLength_le_right _ _)
  rw [strcmpRound, hl.fetch (Nat.le_of_lt hleft), hr.fetch (Nat.le_of_lt hright)]
  simp only [Exec.ok_bind]
  rw [if_pos (getD_common hk), if_neg (getD_pos_ne_zero hleft)]

theorem strcmpRound_last (hl : StringAt mem p left) (hr : StringAt mem q right) :
    strcmpRound (stringOnly p left) (stringOnly q right) mem p q (commonLength left.1 right.1) =
      .ok (.inr (if left = right then 0 else Int32.ofNat (commonLength left.1 right.1))) := by
  rw [strcmpRound, hl.fetch (commonLength_le _ _), hr.fetch (commonLength_le_right _ _)]
  simp only [Exec.ok_bind]
  by_cases hsame : left = right
  · subst hsame
    rw [if_pos rfl, commonLength_self, List.getD_eq_default _ _ (Nat.le_refl _), if_pos rfl, if_pos rfl]
  · rw [if_neg (getD_first_difference left.2 right.2 fun h => hsame (Subtype.ext h)), if_neg hsame]

theorem strcmpOf_eq (hp : p ≠ 0) (hl : StringAt mem p left) (hr : StringAt mem q right) :
    strcmpOf (stringOnly p left) (stringOnly q right) (commonLength left.1 right.1 + 1) p q mem =
      .ok (strcmpValue left right) := by
  have hfirst : fetch (stringOnly p left) Codec.u8 p mem = .ok (left.1.getD 0 0) := hl.fetch (Nat.zero_le _)
  rw [strcmpOf, if_neg hp, hfirst, Exec.ok_bind, strcmpValue]
  by_cases hempty : left.1 = []
  · have hreturn : left.1 = [] ∨ left = right := .inl hempty
    rw [if_pos hreturn, hempty]
    rfl
  · rw [if_neg (getD_pos_ne_zero (List.length_pos_iff.mpr hempty)),
      loop_of_rounds (s := fun k => k) (fun k hk => strcmpRound_common hl hr hk) (strcmpRound_last hl hr)]
    by_cases hsame : left = right
    · rw [if_pos hsame, if_pos (.inr hsame)]
    · rw [if_neg hsame, if_neg (not_or.mpr ⟨hempty, hsame⟩)]

theorem strcmpOf_unique {accL accR : Access} {fuel fuel' : Nat} {r r' : Int32}
    (h : strcmpOf accL accR fuel p q mem = .ok r) (h' : strcmpOf accL accR fuel' p q mem = .ok r') : r = r' := by
  rw [strcmpOf] at h h'
  by_cases hnull : p = 0
  · rw [if_pos hnull] at h h'
    exact Except.ok.inj (h.symm.trans h')
  · rw [if_neg hnull] at h h'
    obtain ⟨c, hc, h⟩ := Exec.bind_eq_ok.mp h
    rw [hc, Exec.ok_bind] at h'
    by_cases hempty : c = 0
    · rw [if_pos hempty] at h h'
      exact Except.ok.inj (h.symm.trans h')
    · rw [if_neg hempty] at h h'
      exact loop_unique h h'

theorem int32_ofNat_eq_zero_iff (n : Nat) : Int32.ofNat n = 0 ↔ 2 ^ 32 ∣ n := by
  rw [← Int32.toBitVec_inj, Int32.toBitVec_ofNat', Nat.dvd_iff_mod_eq_zero, ← BitVec.toNat_inj, BitVec.toNat_ofNat]
  rfl

theorem strcmpValue_eq_zero_iff :
    strcmpValue left right = 0 ↔ left = right ∨ 2 ^ 32 ∣ commonLength left.1 right.1 := by
  rw [strcmpValue]
  by_cases hempty : left.1 = []
  · have hnone : commonLength left.1 right.1 = 0 := Nat.le_zero.mp (hempty ▸ commonLength_le left.1 right.1)
    rw [if_pos (.inl hempty), hnone]
    exact iff_of_true rfl (.inr (Nat.dvd_zero _))
  · by_cases hsame : left = right
    · rw [if_pos (.inr hsame)]
      exact iff_of_true rfl (.inl hsame)
    · rw [if_neg (not_or.mpr ⟨hempty, hsame⟩), int32_ofNat_eq_zero_iff]
      exact ⟨.inr, fun h => h.resolve_left hsame⟩

theorem strcmpValue_symm : strcmpValue left right = 0 ↔ strcmpValue right left = 0 := by
  rw [strcmpValue_eq_zero_iff, strcmpValue_eq_zero_iff, eq_comm, commonLength_comm]

end Compare

/-- Two strings compare as they should exactly when they are equal or have a length in common that an `int` does not
take for zero. -/
theorem compares_iff (mem : Store) (p q : Nat) (left right : CString) (hp : p ≠ 0) (hq : q ≠ 0)
    (hl : StringAt mem p left) (hr : StringAt mem q right) :
    Compares mem p q left right ↔ left = right ∨ ¬ 2 ^ 32 ∣ commonLength left.1 right.1 := by
  have hcall := strcmpOf_eq hp hl hr
  have hback := strcmpOf_eq hq hr hl
  rw [commonLength_comm] at hback
  constructor
  · rintro ⟨⟨fuel, r, hreturn, hzero⟩, -⟩
    have hvalue : r = strcmpValue left right := strcmpOf_unique hreturn hcall
    by_cases hsame : left = right
    · exact .inl hsame
    · refine .inr fun hmultiple => hsame (hzero.mp ?_)
      rw [hvalue]
      exact strcmpValue_eq_zero_iff.mpr (.inr hmultiple)
  · intro h
    refine ⟨⟨_, _, hcall, ?_⟩, ⟨_, _, _, hcall, hback, strcmpValue_symm⟩⟩
    rw [strcmpValue_eq_zero_iff]
    constructor
    · rintro (hsame | hmultiple)
      · exact hsame
      · exact h.resolve_right (not_not.mpr hmultiple)
    · exact .inl

/-! ### Section names -/

def textSect : CString := ⟨[46, 116, 101, 120, 116], by decide⟩

def dataSect : CString := ⟨[46, 100, 97, 116, 97], by decide⟩

def codeSect : CString := ⟨[67, 79, 68, 69], by decide⟩

/-- The names `.text`, `.data` and `CODE`, at 16, 32 and 48. -/
def namesMem : Store := 
  ((Store.write (fun _ => 0) 16 textSect.1).write 32 dataSect.1).write 48 codeSect.1

/-- `.data` is told from `.text`: they have their first character in common. -/
theorem compares_text_data : Compares namesMem 16 32 textSect dataSect :=
  (compares_iff namesMem 16 32 textSect dataSect (by decide) (by decide) (by decide) (by decide)).mpr
    (.inr (by decide))

/-- `CODE` is taken for `.text`. -/
theorem text_code_compare_equal : StringAt namesMem 16 textSect ∧ StringAt namesMem 48 codeSect ∧
    strcmpOf (stringOnly 16 textSect) (stringOnly 48 codeSect) 1 16 48 namesMem = .ok 0 ∧ textSect ≠ codeSect ∧
    ¬ Compares namesMem 16 48 textSect codeSect := by
  have htext : StringAt namesMem 16 textSect := by decide
  have hcode : StringAt namesMem 48 codeSect := by decide
  have hcall : strcmpOf (stringOnly 16 textSect) (stringOnly 48 codeSect) 1 16 48 namesMem = .ok 0 :=
    strcmpOf_eq (by decide) htext hcode
  have hdiffer : textSect ≠ codeSect := by decide
  refine ⟨htext, hcode, hcall, hdiffer, ?_⟩
  rintro ⟨⟨fuel, r, hreturn, hzero⟩, -⟩
  exact hdiffer (hzero.mp (strcmpOf_unique hreturn hcall))

end OpenNE

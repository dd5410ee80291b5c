import OpenNE.Boot.StringCompare

/-!
# Scanning a string (`src/Utils.cc`)

The bounded `rt_string_len` and `rt_string_has_char` advance before they test for the end: an empty string is read
behind its zero. And the bounded length compares with its bound before it counts, so that a string of one character
more than the bound is counted whole.
-/

namespace OpenNE

/-! ### The calls -/

/-- A round of the bounded `rt_string_len`. -/
def lenMaxRound (acc : Access) (mem : Store) (str max len : Nat) : Exec (Nat ⊕ Nat) :=
  if len > max then .ok (.inr max)
  else do
    let len := len + 1
    let c ← fetch acc Codec.u8 (str + len) mem
    if c ≠ 0 then .ok (.inl len) else .ok (.inr len)

/-- `rt_string_len`, with a bound. -/
def rtStringLenMax (acc : Access) (fuel str max : Nat) (mem : Store) : Exec Nat :=
  loop (lenMaxRound acc mem str max) fuel 0

/-- A round of `rt_string_has_char`. -/
def hasCharRound (acc : Access) (mem : Store) (chr : UInt8) (str : Nat) : Exec (Nat ⊕ Option Nat) := do
  let c ← fetch acc Codec.u8 str mem
  if c ≠ chr then do
    let str := str + 1
    let c ← fetch acc Codec.u8 str mem
    if c = 0 then .ok (.inr none) else .ok (.inl str)
  else .ok (.inr (some str))

/-- `rt_string_has_char`. -/
def rtStringHasChar (acc : Access) (fuel str : Nat) (chr : UInt8) (mem : Store) : Exec (Option Nat) :=
  loop (hasCharRound acc mem chr) fuel str

/-! ### What they are for -/

/-- The smaller of the bound and the length is returned, and nothing behind the string is read. -/
def LenMaxRight (mem : Store) (a : Nat) (s : CString) (max : Nat) : Prop :=
  ∃ fuel, rtStringLenMax (stringOnly a s) fuel a max mem = .ok (min max s.length)

/-- The place of the first `chr` is returned, or null when there is none, and nothing behind the string is read. -/
def HasCharRight (mem : Store) (a : Nat) (s : CString) (chr : UInt8) : Prop :=
  ∃ fuel, rtStringHasChar (stringOnly a s) fuel a chr mem = .ok (if chr ∈ s.1 then some (a + s.1.idxOf chr) else none)

/-! ### Lengths -/

section Scan

variable {mem : Store} {a max k fuel : Nat} {s : CString} {chr : UInt8}

theorem lenMaxRound_next (h : StringAt mem a s) (hmax : k ≤ max) (hk : k + 1 < s.length) :
    lenMaxRound (stringOnly a s) mem a max k = .ok (.inl (k + 1)) := by
  rw [lenMaxRound, if_neg (Nat.not_lt.mpr hmax)]
  simp only [h.fetch (Nat.le_of_lt hk), Exec.ok_bind, if_pos (getD_pos_ne_zero hk)]

theorem lenMaxRound_last (h : StringAt mem a s) (hmax : k ≤ max) (hk : k + 1 = s.length) :
    lenMaxRound (stringOnly a s) mem a max k = .ok (.inr s.length) := by
  rw [lenMaxRound, if_neg (Nat.not_lt.mpr hmax), hk]
  simp only [h.fetch_length, Exec.ok_bind, ne_eq, not_true_eq_false, if_false]

theorem rtStringLenMax_eq (h : StringAt mem a s) (hne : 0 < s.length) :
    ∃ fuel, rtStringLenMax (stringOnly a s) fuel a max mem = .ok (if s.length ≤ max + 1 then s.length else max) := by
  by_cases hshort : s.length ≤ max + 1
  · rw [if_pos hshort]
    refine ⟨s.length - 1 + 1, loop_of_rounds (s := fun k => k) (fun k hk => ?_) ?_⟩
    · exact lenMaxRound_next h (by omega) (by omega)
    · exact lenMaxRound_last h (by omega) (by omega)
  · rw [if_neg hshort]
    refine ⟨max + 1 + 1, loop_of_rounds (s := fun k => k) (fun k hk => ?_) ?_⟩
    · exact lenMaxRound_next h (by omega) (by omega)
    · rw [lenMaxRound, if_pos (Nat.lt_succ_self max)]

theorem fetch_behind (hempty : s.1 = []) : fetch (stringOnly a s) Codec.u8 (a + 1) mem = .error .fault := by
  have hout : ¬ (Access.within ⟨a, s.length + 1⟩).mayRead (a + 1) Codec.u8.size = true := by
    rw [Access.mayRead, decide_eq_true_eq, Span.Holds, CString.length, hempty, List.length_nil]
    simp only [show Codec.u8.size = 1 from rfl]
    omega
  rw [fetch, stringOnly, if_neg hout]

theorem lenMaxRight_iff (h : StringAt mem a s) : LenMaxRight mem a s max ↔ s.1 ≠ [] ∧ s.length ≠ max + 1 := by
  constructor
  · rintro ⟨fuel, hcall⟩
    have hne : s.1 ≠ [] := by
      intro hempty
      have hround : lenMaxRound (stringOnly a s) mem a max 0 = .error .fault := by
        rw [lenMaxRound, if_neg (Nat.not_lt_zero max)]
        simp only [Nat.zero_add, fetch_behind hempty, Exec.error_bind]
      cases fuel with
      | zero => cases hcall
      | succ fuel =>
        rw [rtStringLenMax, loop_succ_error hround] at hcall
        cases hcall
    refine ⟨hne, fun hlong => ?_⟩
    obtain ⟨fuel', hlen⟩ := @rtStringLenMax_eq mem a max s h (List.length_pos_iff.mpr hne)
    have hsame := loop_unique hcall hlen
    rw [if_pos (Nat.le_of_eq hlong)] at hsame
    omega
  · rintro ⟨hne, hlong⟩
    obtain ⟨fuel, hlen⟩ := @rtStringLenMax_eq mem a max s h (List.length_pos_iff.mpr hne)
    refine ⟨fuel, hlen.trans (congrArg Except.ok ?_)⟩
    split_ifs <;> omega

/-! ### Characters -/

theorem hasCharRound_next (h : StringAt mem a s) (hk : k + 1 < s.length) (hother : s.1.getD k 0 ≠ chr) :
    hasCharRound (stringOnly a s) mem chr (a + k) = .ok (.inl (a + (k + 1))) := by
  have hchar : fetch (stringOnly a s) Codec.u8 (a + k + 1) mem = .ok (s.1.getD (k + 1) 0) :=
    h.fetch (Nat.le_of_lt hk)
  rw [hasCharRound, h.fetch (by omega)]
  simp only [Exec.ok_bind, if_pos hother, hchar, if_neg (getD_pos_ne_zero hk)]
  rfl

theorem hasCharRound_last (h : StringAt mem a s) (hk : k + 1 = s.length) (hother : s.1.getD k 0 ≠ chr) :
    hasCharRound (stringOnly a s) mem chr (a + k) = .ok (.inr none) := by
  have hzero : fetch (stringOnly a s) Codec.u8 (a + k + 1) mem = .ok 0 := by
    rw [Nat.add_assoc, hk, h.fetch_length]
  rw [hasCharRound, h.fetch (by omega)]
  simp only [Exec.ok_bind, if_pos hother, hzero, if_true]

theorem hasCharRound_found (h : StringAt mem a s) (hk : k ≤ s.length) (hfound : s.1.getD k 0 = chr) :
    hasCharRound (stringOnly a s) mem chr (a + k) = .ok (.inr (some (a + k))) := by
  rw [hasCharRound, h.fetch hk]
  simp only [Exec.ok_bind, hfound, ne_eq, not_true_eq_false, if_false]

theorem getD_ne_of_lt_idxOf (hk : k < s.1.idxOf chr) (hin : k < s.1.length) : s.1.getD k 0 ≠ chr := by
  have hfalse : (s.1[k] == chr) = false := List.not_of_lt_findIdx hk
  rw [List.getD_eq_getElem _ _ hin]
  exact beq_eq_false_iff_ne.mp hfalse

theorem rtStringHasChar_eq (h : StringAt mem a s) (hne : 0 < s.length) :
    ∃ fuel, rtStringHasChar (stringOnly a s) fuel a chr mem =
      .ok (if chr ∈ s.1 then some (a + s.1.idxOf chr) else none) := by
  by_cases hmem : chr ∈ s.1
  · have hlt : s.1.idxOf chr < s.length := List.idxOf_lt_length_of_mem hmem
    rw [if_pos hmem]
    refine ⟨_, loop_of_rounds (s := fun k => a + k) (n := s.1.idxOf chr) (fun k hk => ?_) ?_⟩
    · exact hasCharRound_next h (by omega) (getD_ne_of_lt_idxOf hk (Nat.lt_trans hk hlt))
    · refine hasCharRound_found h (Nat.le_of_lt hlt) ?_
      rw [List.getD_eq_getElem _ _ hlt, List.getElem_idxOf hlt]
  · have hother : ∀ k < s.length, s.1.getD k 0 ≠ chr := by
      intro k hk hsame
      rw [List.getD_eq_getElem _ _ hk] at hsame
      exact hmem (hsame ▸ List.getElem_mem hk)
    rw [if_neg hmem]
    refine ⟨s.length - 1 + 1, loop_of_rounds (s := fun k => a + k) (fun k hk => ?_) ?_⟩
    · exact hasCharRound_next h (by omega) (hother k (by omega))
    · exact hasCharRound_last h (by omega) (hother _ (by omega))

theorem hasCharRight_iff (h : StringAt mem a s) : HasCharRight mem a s chr ↔ s.1 ≠ [] := by
  constructor
  · rintro ⟨fuel, hcall⟩ hempty
    have hlen : s.length = 0 := List.length_eq_zero_iff.mpr hempty
    rw [if_neg (by rw [hempty]; exact List.not_mem_nil)] at hcall
    have hzero : s.1.getD 0 0 = 0 := List.getD_eq_default _ _ (Nat.le_of_eq hlen)
    cases fuel with
    | zero => cases hcall
    | succ fuel =>
      by_cases hend : chr = 0
      · have hround := hasCharRound_found h (Nat.zero_le _) (hzero.trans hend.symm)
        rw [Nat.add_zero] at hround
        rw [rtStringHasChar, loop_succ_leave hround] at hcall
        cases hcall
      · have hround : hasCharRound (stringOnly a s) mem chr a = .error .fault := by
          have hfirst : fetch (stringOnly a s) Codec.u8 a mem = .ok 0 := (h.fetch (Nat.zero_le _)).trans (by rw [hzero])
          rw [hasCharRound, hfirst]
          simp only [Exec.ok_bind, if_pos (Ne.symm hend), fetch_behind hempty, Exec.error_bind]
        rw [rtStringHasChar, loop_succ_error hround] at hcall
        cases hcall
  · intro hne
    exact rtStringHasChar_eq h (List.length_pos_iff.mpr hne)

end Scan

/-- The bounded length is right of a string that is not empty and not one character longer than the bound, and the
search for a character of a string that is not empty. -/
theorem scanning_iff (mem : Store) (a : Nat) (s : CString) (h : StringAt mem a s) :
    (∀ max, LenMaxRight mem a s max ↔ s.1 ≠ [] ∧ s.length ≠ max + 1) ∧ ∀ chr, HasCharRight mem a s chr ↔ s.1 ≠ [] :=
  ⟨fun _ => lenMaxRight_iff h, fun _ => hasCharRight_iff h⟩

/-- The letter `a`, at 16. -/
theorem scanning_a : LenMaxRight (Store.write (fun _ => 0) 16 [97]) 16 letterA 255 ∧
    HasCharRight (Store.write (fun _ => 0) 16 [97]) 16 letterA 98 := by
  obtain ⟨hlen, hchar⟩ := scanning_iff (Store.write (fun _ => 0) 16 [97]) 16 letterA (by decide)
  exact ⟨(hlen 255).mpr (by decide), (hchar 98).mpr (by decide)⟩

/-- The empty string, whose first byte is read on; and the letter `a`, longer than a bound of zero. -/
theorem empty_read_behind : ¬ HasCharRight (fun _ => 0) 16 ⟨[], List.not_mem_nil⟩ 97 ∧
    ¬ LenMaxRight (fun _ => 0) 16 ⟨[], List.not_mem_nil⟩ 255 ∧
    ¬ LenMaxRight (Store.write (fun _ => 0) 16 [97]) 16 letterA 0 := by
  refine ⟨fun h => ?_, fun h => ?_, fun h => ?_⟩
  · exact (hasCharRight_iff (by decide)).mp h rfl
  · exact ((lenMaxRight_iff (by decide)).mp h).1 rfl
  · exact ((lenMaxRight_iff (by decide)).mp h).2 rfl

end OpenNE

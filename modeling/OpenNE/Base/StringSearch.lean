import OpenNE.Boot.StringCompare

/-!
# A string in another (`src/Utils.cc`)

`rt_string_in_string` compares the needle at every character of the haystack, reading on behind its end. Nothing read
there decides: where the needle reaches over the end, it differs from the terminating zero (`occursAt_iff`).
-/

namespace OpenNE

/-! ### The calls -/

/-- A round of the loop of `rt_string_len`. -/
def lenRound (mem : Store) (ptr cnt : Nat) : Exec (Nat ⊕ Nat) :=
  if mem (ptr + cnt) ≠ 0 then .ok (.inl (cnt + 1)) else .ok (.inr cnt)

/-- `rt_string_len`. -/
def rtStringLen (fuel ptr : Nat) (mem : Store) : Exec Nat := loop (lenRound mem ptr) fuel 0

/-- `rt_string_cmp`, of the characters at two addresses. -/
def rtStringCmpAt (mem : Store) (src cmp size : Nat) : Int32 :=
  (List.range size).foldl
    (fun counter index => if mem (src + index) ≠ mem (cmp + index) then counter + 1 else counter) 0

/-- A round of the loop of `rt_string_in_string`; both lengths are taken anew. -/
def searchRound (fuel : Nat) (mem : Store) (input needle i : Nat) : Exec (Nat ⊕ Option Nat) := do
  let len ← rtStringLen fuel input mem
  if i < len then do
    let size ← rtStringLen fuel needle mem
    if rtStringCmpAt mem (input + i) needle size = 0 then .ok (.inr (some (input + i))) else .ok (.inl (i + 1))
  else .ok (.inr none)

/-- `rt_string_in_string`. -/
def rtStringInString (fuel input needle : Nat) (mem : Store) : Exec (Option Nat) :=
  loop (searchRound fuel mem input needle) fuel 0

/-! ### What it is for -/

/-- The needle stands at the position `i` of the haystack. -/
def OccursAt (haystack needle : CString) (i : Nat) : Prop := needle.1 <+: haystack.1.drop i

instance (haystack needle : CString) (i : Nat) : Decidable (OccursAt haystack needle i) :=
  inferInstanceAs (Decidable (_ <+: _))

/-- The leftmost position, as the address where it lies when the haystack lies at `a`. -/
structure Leftmost (haystack needle : CString) (a : Nat) (r : Option Nat) : Prop where
  found : ∀ p, r = some p ↔
    ∃ i, p = a + i ∧ OccursAt haystack needle i ∧ ∀ j < i, ¬ OccursAt haystack needle j
  null : r = none ↔ ∀ i, ¬ OccursAt haystack needle i

/-! ### Lengths -/

section Search

variable {mem : Store} {a b i fuel : Nat} {haystack needle s : CString}

theorem rtStringLen_eq (h : StringAt mem a s) (hfuel : s.length < fuel) : rtStringLen fuel a mem = .ok s.length := by
  have hnext : ∀ k < s.length, lenRound mem a k = .ok (.inl (k + 1)) := by
    intro k hk
    rw [lenRound, h.apply (Nat.le_of_lt hk), if_pos (getD_pos_ne_zero hk)]
  have hleave : lenRound mem a s.length = .ok (.inr s.length) := by
    rw [lenRound, if_neg (not_not.mpr h.apply_length)]
  exact loop_mono hfuel (loop_of_rounds (s := fun k => k) hnext hleave)

theorem rtStringLen_unique {len : Nat} (h : StringAt mem a s) (hlen : rtStringLen fuel a mem = .ok len) :
    len = s.length :=
  loop_unique hlen (rtStringLen_eq h (Nat.lt_succ_self _))

/-! ### Comparisons -/

theorem rtStringCmpAt_eq (mem : Store) (src cmp size : Nat) : rtStringCmpAt mem src cmp size =
    Int32.ofNat ((List.range size).countP fun index => mem (src + index) ≠ mem (cmp + index)) := by
  induction size with
  | zero => rfl
  | succ size ih =>
    rw [rtStringCmpAt] at ih
    rw [rtStringCmpAt, List.range_succ, List.foldl_append, ih, List.countP_append, List.foldl_cons, List.foldl_nil,
      List.countP_singleton]
    by_cases hdiffer : mem (src + size) ≠ mem (cmp + size)
    · rw [if_pos hdiffer, if_pos (decide_eq_true hdiffer), Int32.ofNat_add]
      rfl
    · rw [if_neg hdiffer, if_neg (by simpa using hdiffer), Nat.add_zero]

theorem rtStringCmpAt_eq_zero {src cmp size : Nat} (hsize : size < 2 ^ 31) :
    rtStringCmpAt mem src cmp size = 0 ↔ ∀ k < size, mem (src + k) = mem (cmp + k) := by
  have hle : (List.range size).countP (fun k => mem (src + k) ≠ mem (cmp + k)) ≤ size := by
    simpa using List.countP_le_length (l := List.range size) (p := fun k => mem (src + k) ≠ mem (cmp + k))
  rw [rtStringCmpAt_eq, int32_ofNat_eq_zero_iff]
  constructor
  · intro hdvd k hk
    have hnone := Nat.eq_zero_of_dvd_of_lt hdvd (by omega)
    by_contra hdiffer
    exact absurd (List.countP_eq_zero.mp hnone k (List.mem_range.mpr hk)) (by simpa using hdiffer)
  · intro hsame
    have hnone : (List.range size).countP (fun k => mem (src + k) ≠ mem (cmp + k)) = 0 := by
      rw [List.countP_eq_zero]
      intro k hk
      simpa using hsame k (List.mem_range.mp hk)
    rw [hnone]
    exact Nat.dvd_zero _

theorem occursAt_iff (hin : StringAt mem a haystack) (hneedle : StringAt mem b needle) (hi : i ≤ haystack.length) :
    OccursAt haystack needle i ↔ ∀ k < needle.length, mem (a + i + k) = mem (b + k) := by
  rw [OccursAt, List.prefix_iff_getElem?]
  constructor
  · intro hoccurs k hk
    have hchar := hoccurs k hk
    rw [List.getElem?_drop] at hchar
    obtain ⟨hlt, -⟩ := List.getElem?_eq_some_iff.mp hchar
    rw [Nat.add_assoc, hin.apply (Nat.le_of_lt hlt), hneedle.apply (Nat.le_of_lt hk),
      List.getD_eq_getElem?_getD, hchar, List.getD_eq_getElem _ _ hk]
    rfl
  · intro hsame
    have hend : i + needle.length ≤ haystack.length := by
      by_contra hover
      have hlast : haystack.length - i < needle.length := by omega
      have hzero : mem (a + i + (haystack.length - i)) = 0 := by
        rw [Nat.add_assoc, Nat.add_sub_cancel' hi, hin.apply_length]
      rw [hsame _ hlast, hneedle.apply (Nat.le_of_lt hlast)] at hzero
      exact getD_pos_ne_zero hlast hzero
    intro k hk
    have hlt : i + k < haystack.1.length := Nat.lt_of_lt_of_le (Nat.add_lt_add_left hk i) hend
    have hchar := hsame k hk
    rw [Nat.add_assoc, hin.apply (Nat.le_of_lt hlt), hneedle.apply (Nat.le_of_lt hk),
      List.getD_eq_getElem _ _ hlt, List.getD_eq_getElem _ _ hk] at hchar
    rw [List.getElem?_drop, List.getElem?_eq_getElem hlt, hchar]

/-! ### Rounds -/

theorem searchRound_eq (hin : StringAt mem a haystack) (hneedle : StringAt mem b needle)
    (hfuel : haystack.length < fuel) (hfuel' : needle.length < fuel) (hsize : needle.length < 2 ^ 31)
    (hi : i < haystack.length) : searchRound fuel mem a b i =
      .ok (if OccursAt haystack needle i then .inr (some (a + i)) else .inl (i + 1)) := by
  have hcmp : rtStringCmpAt mem (a + i) b needle.length = 0 ↔ OccursAt haystack needle i := by
    rw [rtStringCmpAt_eq_zero hsize, occursAt_iff hin hneedle (Nat.le_of_lt hi)]
  rw [searchRound, rtStringLen_eq hin hfuel, Exec.ok_bind, if_pos hi, rtStringLen_eq hneedle hfuel', Exec.ok_bind]
  by_cases hoccurs : OccursAt haystack needle i
  · rw [if_pos (hcmp.mpr hoccurs), if_pos hoccurs]
  · rw [if_neg fun hzero => hoccurs (hcmp.mp hzero), if_neg hoccurs]

theorem searchRound_end (hin : StringAt mem a haystack) (hfuel : haystack.length < fuel) :
    searchRound fuel mem a b haystack.length = .ok (.inr none) := by
  rw [searchRound, rtStringLen_eq hin hfuel, Exec.ok_bind, if_neg (Nat.lt_irrefl _)]

/-- What the search comes to. -/
def searchResult (haystack needle : CString) : Option Nat :=
  (List.range haystack.length).find? fun i => OccursAt haystack needle i

theorem rtStringInString_eq (hin : StringAt mem a haystack) (hneedle : StringAt mem b needle)
    (hfuel : haystack.length < fuel) (hfuel' : needle.length < fuel) (hsize : needle.length < 2 ^ 31) :
    rtStringInString fuel a b mem = .ok ((searchResult haystack needle).map (a + ·)) := by
  have hround := fun i hi => searchRound_eq (i := i) hin hneedle hfuel hfuel' hsize hi
  rcases hresult : searchResult haystack needle with _ | n
  · have hnone := List.find?_range_eq_none.mp hresult
    have hnext : ∀ k < haystack.length, searchRound fuel mem a b k = .ok (.inl (k + 1)) := by
      intro k hk
      rw [hround k hk, if_neg (by simpa using hnone k hk)]
    exact loop_mono hfuel (loop_of_rounds (s := fun k => k) hnext (searchRound_end hin hfuel))
  · obtain ⟨hoccurs, hn, hfirst⟩ := List.find?_range_eq_some.mp hresult
    have hlt : n < haystack.length := List.mem_range.mp hn
    have hnext : ∀ k < n, searchRound fuel mem a b k = .ok (.inl (k + 1)) := by
      intro k hk
      rw [hround k (Nat.lt_trans hk hlt), if_neg (by simpa using hfirst k hk)]
    have hleave : searchRound fuel mem a b n = .ok (.inr (some (a + n))) := by
      rw [hround n hlt, if_pos (by simpa using hoccurs)]
    exact loop_mono (Nat.lt_trans hlt hfuel) (loop_of_rounds (s := fun k => k) hnext hleave)

theorem OccursAt.lt (hne : needle.1 ≠ []) (h : OccursAt haystack needle i) : i < haystack.length := by
  have hlen := h.length_le
  have hpos := List.length_pos_iff.mpr hne
  rw [List.length_drop] at hlen
  rw [CString.length]
  omega

theorem leftmost_searchResult (hne : needle.1 ≠ []) (a : Nat) :
    Leftmost haystack needle a ((searchResult haystack needle).map (a + ·)) := by
  constructor
  · intro p
    rw [Option.map_eq_some_iff]
    refine exists_congr fun i => ?_
    rw [searchResult, List.find?_range_eq_some]
    constructor
    · rintro ⟨⟨hoccurs, -, hfirst⟩, rfl⟩
      exact ⟨rfl, by simpa using hoccurs, fun j hj => by simpa using hfirst j hj⟩
    · rintro ⟨rfl, hoccurs, hfirst⟩
      have hlt := hoccurs.lt hne
      exact ⟨⟨by simpa using hoccurs, List.mem_range.mpr hlt, fun j hj => by simpa using hfirst j hj⟩, rfl⟩
  · rw [Option.map_eq_none_iff, searchResult, List.find?_range_eq_none]
    constructor
    · intro hnone i hoccurs
      exact absurd hoccurs (by simpa using hnone i (hoccurs.lt hne))
    · intro hnone i _
      simpa using hnone i

end Search

/-- Whatever stands behind the two strings, the search ends with the leftmost position at which the needle occurs. -/
theorem rtStringInString_leftmost (haystack needle : CString) (a b : Nat) (hne : needle.1 ≠ [])
    (hsize : needle.length < 2 ^ 31) : ∃ r, Leftmost haystack needle a r ∧
      ∀ mem, StringAt mem a haystack → StringAt mem b needle →
        ∃ enough, ∀ fuel, enough ≤ fuel → rtStringInString fuel a b mem = .ok r := by
  refine ⟨_, leftmost_searchResult hne a, fun mem hin hneedle => ?_⟩
  refine ⟨max haystack.length needle.length + 1, fun fuel hfuel => ?_⟩
  exact rtStringInString_eq hin hneedle (by omega) (by omega) hsize

/-- The string `.data` at 32 and the string `a` at 16, and nothing but that character everywhere else. -/
def searchMem : Store := (Store.write (fun _ => 97) 16 (letterA.1 ++ [0])).write 32 (dataSect.1 ++ [0])

/-- The first `a` of `.data` is its third character. -/
theorem rtStringInString_data : ∃ enough, ∀ fuel, enough ≤ fuel →
    rtStringInString fuel 32 16 searchMem = .ok (some 34) := by
  obtain ⟨r, hleft, hrun⟩ := rtStringInString_leftmost dataSect letterA 32 16 (by decide) (by decide)
  have hr : r = some 34 := (hleft.found 34).mpr ⟨2, rfl, by decide, by decide⟩
  rw [← hr]
  exact hrun searchMem (by decide) (by decide)

end OpenNE

import OpenNE.NeFS.CatalogRun

/-!
# The buffer `parent_name` (`src/FS/OpenNeFS.cc`)

`CreateCatalog` and `FindCatalog` cut the name of the parent out in a buffer of `kNeFSNodeNameLen` characters.
Every index they use is checked here. Both blank the last two characters before they look for the separator, so
the separator in front of a last component of one character is lost; and neither looks at the length of the
path (`parent_right_iff`). `parentName` is what both compute (`findParentName_eq`, `createParentName_eq`).
-/

namespace OpenNE

/-! ### The two copies of the scan -/

/-- `buf[i]`. -/
def charAt (buf : List UInt8) (i : UInt64) : Exec UInt8 :=
  match buf[i.toNat]? with
  | some c => .ok c
  | none => .error .fault

/-- `buf[i] = c`. -/
def setChar (buf : List UInt8) (i : UInt64) (c : UInt8) : Exec (List UInt8) :=
  if i.toNat < buf.length then .ok (buf.set i.toNat c) else .error .fault

/-- The loop that copies the characters of `name` to the buffer, from the index `i` on. -/
def fillName (i : UInt64) : List UInt8 → List UInt8 → Exec (List UInt8)
  | [], buf => .ok buf
  | c :: name, buf => do fillName (i + 1) name (← setChar buf i c)

/-- One round of the loop that looks for the separator, on the index and the buffer. -/
def separatorRound (s : UInt64 × List UInt8) : Exec (UInt64 × List UInt8 ⊕ List UInt8) := do
  if (← charAt s.2 s.1) = kNeFSSeparator then .ok (.inr s.2)
  else .ok (.inl (s.1 - 1, ← setChar s.2 s.1 0))

/-- The parent name that is left of the path in the buffer. The loop has no more rounds than the buffer has
characters: it leaves or its index wraps. -/
def cutParent (buf : List UInt8) : Exec CString := do
  let index := UInt64.ofNat (← cString buf).length
  let buf ← setChar buf (index - 1) 0
  let buf ← setChar buf (index - 1 - 1) 0
  cString (← loop separatorRound (kNeFSNodeNameLen + 1) (index - 1 - 1, buf))

/-- `Char parent_name[kNeFSNodeNameLen] = {0}`. -/
def parentBuffer : List UInt8 := List.replicate kNeFSNodeNameLen 0

/-- The parent name as `CreateCatalog` computes it; it refuses a path that leaves the buffer empty. -/
def createParentName (name : CString) : Exec (Option CString) := do
  let buf ← fillName 0 name.1 parentBuffer
  if (← charAt buf 0) = 0 then .ok none
  else .ok (some (← cutParent (← fillName 0 name.1 buf)))

/-- The parent name as `FindCatalog` computes it. -/
def findParentName (name : CString) : Exec (Option CString) := do
  .ok (some (← cutParent (← fillName 0 name.1 parentBuffer)))

/-! ### What the buffer holds -/

theorem setChar_ok {buf : List UInt8} {i : UInt64} {c : UInt8} (h : i.toNat < buf.length) :
    setChar buf i c = .ok (buf.set i.toNat c) := if_pos h

theorem setChar_fault {buf : List UInt8} {i : UInt64} {c : UInt8} (h : buf.length ≤ i.toNat) :
    setChar buf i c = .error .fault := if_neg (Nat.not_lt.mpr h)

theorem setChar_append (front buf : List UInt8) (old c : UInt8) (h : front.length < 2 ^ 64) :
    setChar (front ++ old :: buf) (UInt64.ofNat front.length) c = .ok (front ++ c :: buf) := by
  have hi : (UInt64.ofNat front.length).toNat = front.length := UInt64.toNat_ofNat_of_lt' h
  rw [setChar_ok (by simp [hi]), hi, List.set_append_right _ _ (Nat.le_refl _), Nat.sub_self, List.set_cons_zero]

theorem charAt_append (front buf : List UInt8) (c : UInt8) (h : front.length < 2 ^ 64) :
    charAt (front ++ c :: buf) (UInt64.ofNat front.length) = .ok c := by
  have hi : (UInt64.ofNat front.length).toNat = front.length := UInt64.toNat_ofNat_of_lt' h
  simp [charAt, hi]

theorem fillName_append (rest : List UInt8) : ∀ front old : List UInt8, front.length + old.length < 2 ^ 64 →
    fillName (UInt64.ofNat front.length) rest (front ++ old) =
      if rest.length ≤ old.length then .ok (front ++ rest ++ old.drop rest.length) else .error .fault := by
  induction rest with
  | nil =>
    intro front old _
    simp [fillName]
  | cons c rest ih =>
    intro front old hlt
    cases old with
    | nil =>
      have hi : (UInt64.ofNat front.length).toNat = front.length := UInt64.toNat_ofNat_of_lt' hlt
      rw [fillName, setChar_fault (by simp [hi])]
      simp
    | cons o old =>
      rw [List.length_cons] at hlt
      have hnext := ih (front ++ [c]) old (by simp; omega)
      rw [List.length_append, List.length_singleton, UInt64.ofNat_add] at hnext
      rw [fillName, setChar_append front old o c (by omega), Exec.ok_bind, ← List.singleton_append, ← List.append_assoc]
      simp only [List.length_cons, Nat.add_le_add_iff_right, List.drop_succ_cons]
      rw [show UInt64.ofNat front.length + 1 = UInt64.ofNat front.length + UInt64.ofNat 1 from rfl, hnext]
      simp

/-- The buffer with `name` in it and zeros behind. -/
def holding (name : List UInt8) : List UInt8 := name ++ List.replicate (kNeFSNodeNameLen - name.length) 0

theorem holding_length {name : List UInt8} (h : name.length ≤ kNeFSNodeNameLen) :
    (holding name).length = kNeFSNodeNameLen := by
  rw [holding, List.length_append, List.length_replicate]
  omega

theorem fillName_parentBuffer (name : List UInt8) : fillName 0 name parentBuffer =
    if name.length ≤ kNeFSNodeNameLen then .ok (holding name) else .error .fault := by
  have h := fillName_append name [] parentBuffer (by rw [parentBuffer, List.length_replicate]; decide)
  simpa [parentBuffer, holding] using h

theorem fillName_holding {name : List UInt8} (h : name.length ≤ kNeFSNodeNameLen) :
    fillName 0 name (holding name) = .ok (holding name) := by
  have hlen := holding_length h
  have hcopy := fillName_append name [] (holding name) (by simp [hlen, kNeFSNodeNameLen])
  rw [if_pos (by rwa [hlen])] at hcopy
  simpa [holding] using hcopy

section Indices

variable {name : List UInt8} {k : Nat}

theorem holding_take (hk : k < name.length) :
    holding (name.take (k + 1)) =
      name.take k ++ name[k] :: List.replicate (kNeFSNodeNameLen - (k + 1)) 0 := by
  rw [holding, List.length_take_of_le (by omega), List.take_succ_eq_append_getElem hk, List.append_assoc]
  rfl

theorem ofNat_succ_sub_one (k : Nat) : UInt64.ofNat (k + 1) - 1 = UInt64.ofNat k := by
  rw [UInt64.ofNat_add]
  exact UInt64.add_sub_cancel _ _

theorem charAt_holding (hlen : name.length ≤ kNeFSNodeNameLen) (hk : k < name.length) :
    charAt (holding (name.take (k + 1))) (UInt64.ofNat k) = .ok name[k] := by
  have hfront : (name.take k).length = k := List.length_take_of_le (by omega)
  have hsmall : name.length ≤ 256 := hlen
  have hchar := charAt_append (name.take k) (List.replicate (kNeFSNodeNameLen - (k + 1)) 0) name[k] (by omega)
  rwa [hfront, ← holding_take hk] at hchar

theorem setChar_holding (hlen : name.length ≤ kNeFSNodeNameLen) (hk : k < name.length) :
    setChar (holding (name.take (k + 1))) (UInt64.ofNat k) 0 = .ok (holding (name.take k)) := by
  have hfront : (name.take k).length = k := List.length_take_of_le (by omega)
  have hsmall : name.length ≤ 256 := hlen
  have hrest : kNeFSNodeNameLen - k = kNeFSNodeNameLen - (k + 1) + 1 := by
    show 256 - k = 256 - (k + 1) + 1
    omega
  have hblank := setChar_append (name.take k) (List.replicate (kNeFSNodeNameLen - (k + 1)) 0) name[k] 0 (by omega)
  rw [hfront, ← holding_take hk] at hblank
  rw [hblank, holding, hfront, hrest, List.replicate_succ]

theorem charAt_wrapped {buf : List UInt8} (h : buf.length = kNeFSNodeNameLen) :
    charAt buf (UInt64.ofNat 0 - 1) = .error .fault := by
  have hnone : buf[(UInt64.ofNat 0 - 1).toNat]? = none := List.getElem?_eq_none (by rw [h]; decide)
  rw [charAt, hnone]

theorem setChar_wrapped {buf : List UInt8} {c : UInt8} (h : buf.length = kNeFSNodeNameLen) :
    setChar buf (UInt64.ofNat 0 - 1) c = .error .fault := setChar_fault (by rw [h]; decide)

end Indices

theorem cString_holding (name : CString) (h : name.length < kNeFSNodeNameLen) :
    cString (holding name.1) = .ok name := by
  obtain ⟨n, hn⟩ : ∃ n, kNeFSNodeNameLen - name.1.length = n + 1 := ⟨kNeFSNodeNameLen - name.1.length - 1, by
    unfold CString.length at h
    omega⟩
  rw [holding, hn, List.replicate_succ]
  exact cString_terminated

theorem cString_holding_full {name : CString} (h : name.length = kNeFSNodeNameLen) :
    cString (holding name.1) = .error .fault := by
  unfold CString.length at h
  rw [holding, h, Nat.sub_self, List.replicate_zero, List.append_nil, cString, if_neg name.2]

/-! ### The search for the separator -/

theorem separatorRound_holding {name : List UInt8} {k : Nat} (hlen : name.length ≤ kNeFSNodeNameLen)
    (hk : k < name.length) : separatorRound (UInt64.ofNat k, holding (name.take (k + 1))) =
      if name[k] = kNeFSSeparator then .ok (.inr (holding (name.take (k + 1))))
      else .ok (.inl (UInt64.ofNat k - 1, holding (name.take k))) := by
  rw [separatorRound, charAt_holding hlen hk, Exec.ok_bind, setChar_holding hlen hk]
  rfl

theorem separatorLoop_eq {name : List UInt8} (hlen : name.length ≤ kNeFSNodeNameLen) {k : Nat}
    (hk : k ≤ name.length) : ∀ {fuel : Nat}, k < fuel →
    loop separatorRound fuel (UInt64.ofNat k - 1, holding (name.take k)) =
      match lastSeparator name k with
      | some i => .ok (holding (name.take (i + 1)))
      | none => .error .fault := by
  induction k with
  | zero =>
    intro fuel hfuel
    obtain ⟨fuel, rfl⟩ : ∃ n, fuel = n + 1 := ⟨fuel - 1, by omega⟩
    have hround : separatorRound (UInt64.ofNat 0 - 1, holding (name.take 0)) = .error .fault := by
      rw [separatorRound, charAt_wrapped (holding_length (Nat.zero_le _)), Exec.error_bind]
    rw [loop_succ_error hround]
    rfl
  | succ k ih =>
    intro fuel hfuel
    obtain ⟨fuel, rfl⟩ : ∃ n, fuel = n + 1 := ⟨fuel - 1, by omega⟩
    have hround := separatorRound_holding hlen hk
    have hat : name[k]? = some name[k] := List.getElem?_eq_getElem hk
    rw [ofNat_succ_sub_one]
    unfold lastSeparator
    by_cases hsep : name[k] = kNeFSSeparator
    · rw [if_pos hsep] at hround
      rw [loop_succ_leave hround, if_pos (by rw [hat, hsep])]
    · rw [if_neg hsep] at hround
      rw [loop_succ_next hround, if_neg (by rw [hat]; simpa using hsep)]
      exact ih (by omega) (by omega)

theorem separatorRound_blank {name : List UInt8} {k : Nat} (hlen : name.length ≤ kNeFSNodeNameLen)
    (hk : k < name.length) : separatorRound (UInt64.ofNat k, holding (name.take k)) =
      .ok (.inl (UInt64.ofNat k - 1, holding (name.take k))) := by
  have hfront : (name.take k).length = k := List.length_take_of_le hk.le
  have hsmall : k < 2 ^ 64 := Nat.lt_of_lt_of_le hk (Nat.le_trans hlen (by decide))
  obtain ⟨n, hn⟩ : ∃ n, kNeFSNodeNameLen - k = n + 1 := ⟨kNeFSNodeNameLen - k - 1, by omega⟩
  have hblank : holding (name.take k) = name.take k ++ 0 :: List.replicate n 0 := by
    rw [holding, hfront, hn, List.replicate_succ]
  have hchar := charAt_append (name.take k) (List.replicate n 0) 0 (by rwa [hfront])
  have hset := setChar_append (name.take k) (List.replicate n 0) 0 0 (by rwa [hfront])
  rw [hfront, ← hblank] at hchar hset
  rw [separatorRound, hchar, Exec.ok_bind, hset]
  rfl

theorem cutParent_holding {name : CString} (hlen : name.length < kNeFSNodeNameLen) :
    cutParent (holding name.1) = parentName name := by
  have hle : name.1.length ≤ kNeFSNodeNameLen := hlen.le
  unfold cutParent parentName
  rw [cString_holding name hlen, Exec.ok_bind, if_neg (Nat.not_le.mpr hlen)]
  dsimp only
  cases hn : name.length with
  | zero =>
    rw [setChar_wrapped (holding_length hle)]
    rfl
  | succ n =>
    have hfirst := setChar_holding (k := n) hle (by rw [← CString.length]; omega)
    rw [List.take_of_length_le (by rw [← CString.length]; omega)] at hfirst
    rw [ofNat_succ_sub_one, hfirst, Exec.ok_bind]
    cases n with
    | zero =>
      rw [setChar_wrapped (holding_length (Nat.zero_le _))]
      rfl
    | succ m =>
      have hm : m < name.1.length := by
        rw [← CString.length]
        omega
      rw [ofNat_succ_sub_one, setChar_holding hle hm, Exec.ok_bind, loop_succ_next (separatorRound_blank hle hm),
        separatorLoop_eq hle hm.le (Nat.lt_of_lt_of_le hm hle)]
      show _ = match lastSeparator name.1 m with
        | some i => _
        | none => _
      cases hfound : lastSeparator name.1 m with
      | none => rfl
      | some i =>
        have hi : i < name.1.length := Nat.lt_trans (lastSeparator_some hfound).1 hm
        refine cString_holding ⟨name.1.take (i + 1), _⟩ ?_
        show (name.1.take (i + 1)).length < _
        rw [List.length_take]
        exact Nat.lt_of_le_of_lt (Nat.min_le_right _ _) hlen

theorem parentName_long {name : CString} (h : kNeFSNodeNameLen ≤ name.length) : parentName name = .error .fault :=
  if_pos h

theorem findParentName_eq (name : CString) : findParentName name = (parentName name).map some := by
  unfold findParentName
  rw [fillName_parentBuffer]
  rcases Nat.lt_trichotomy name.length kNeFSNodeNameLen with hlt | heq | hgt
  · rw [if_pos (by exact hlt.le), Exec.ok_bind, cutParent_holding hlt]
    rcases parentName name with e | parent <;> rfl
  · rw [if_pos (by exact heq.le), Exec.ok_bind, cutParent, cString_holding_full heq, parentName_long heq.ge]
    rfl
  · rw [if_neg (by exact Nat.not_le.mpr hgt), parentName_long hgt.le]
    rfl

theorem createParentName_eq {name : CString} (hname : name.1 ≠ []) :
    createParentName name = (parentName name).map some := by
  rw [← findParentName_eq]
  unfold createParentName findParentName
  rw [fillName_parentBuffer]
  by_cases hle : name.1.length ≤ kNeFSNodeNameLen
  · obtain ⟨c, rest, hcons⟩ := List.exists_cons_of_ne_nil hname
    have hc : c ≠ 0 := by
      rintro rfl
      exact name.2 (by simp [hcons])
    have hfirst : charAt (holding name.1) 0 = .ok c := by
      rw [hcons]
      rfl
    rw [if_pos hle, Exec.ok_bind, hfirst, Exec.ok_bind, if_neg hc, fillName_holding hle, Exec.ok_bind]
  · rw [if_neg hle]
    rfl

/-! ### Paths -/

/-- The path of the base `b` in the directory `d`. -/
def pathOf (d b : CString) (slash : Bool) : CString :=
  ⟨d.1 ++ b.1 ++ if slash then [kNeFSSeparator] else [], by
    have hsep : (0 : UInt8) ≠ kNeFSSeparator := by decide
    cases slash <;> simp [d.2, b.2, hsep]⟩

/-- The computation stays inside of the buffer, gives the directory of a path that fits and refuses another. -/
def ParentRight (compute : CString → Exec (Option CString)) (d path : CString) : Prop :=
  compute path = .ok (if path.length < kNeFSNodeNameLen then some d else none)

/-- The paths both computations are right about. -/
def ParentCut (d b : CString) (slash : Bool) : Prop :=
  (pathOf d b slash).length < kNeFSNodeNameLen ∧ (slash = true ∨ 2 ≤ b.length)

theorem lastSeparator_eq_some {l : List UInt8} {n i : Nat} (hi : i < n) (hsep : l[i]? = some kNeFSSeparator)
    (hlast : ∀ j, i < j → j < n → l[j]? ≠ some kNeFSSeparator) : lastSeparator l n = some i := by
  induction n with
  | zero => omega
  | succ n ih =>
    unfold lastSeparator
    rcases Nat.lt_or_eq_of_le (Nat.le_of_lt_succ hi) with hlt | rfl
    · rw [if_neg (hlast n hlt (Nat.lt_succ_self n))]
      exact ih hlt fun j hij hj => hlast j hij (by omega)
    · exact if_pos hsep

section Paths

variable {d b : CString} {slash : Bool}

theorem pathOf_length : (pathOf d b slash).length = d.length + b.length + if slash then 1 else 0 := by
  cases slash <;> simp [pathOf, CString.length, Nat.add_assoc]

theorem lastSeparator_pathOf (hd : d.1.getLast? = some kNeFSSeparator) (hfree : kNeFSSeparator ∉ b.1) {n : Nat}
    (hfirst : d.length ≤ n) (hlast : n ≤ d.length + b.length) :
    lastSeparator (pathOf d b slash).1 n = some (d.length - 1) := by
  have hpos : 0 < d.length := by
    rw [CString.length, List.length_pos_iff]
    intro hnil
    rw [hnil] at hd
    cases hd
  have hassoc : (pathOf d b slash).1 = d.1 ++ (b.1 ++ if slash then [kNeFSSeparator] else []) := List.append_assoc ..
  rw [hassoc]
  apply lastSeparator_eq_some (by omega)
  · rw [List.getElem?_append_left (by rw [← CString.length]; omega), ← hd, List.getLast?_eq_getElem?]
    rfl
  · intro j hj hjn hsep
    have hbase : j - d.1.length < b.1.length := by
      unfold CString.length at *
      omega
    rw [List.getElem?_append_right (by unfold CString.length at *; omega), List.getElem?_append_left hbase] at hsep
    exact hfree (List.mem_of_getElem? hsep)

theorem parentName_pathOf (hd : d.1.getLast? = some kNeFSSeparator) (hfree : kNeFSSeparator ∉ b.1) (hb : b.1 ≠ [])
    (hcut : ParentCut d b slash) : parentName (pathOf d b slash) = .ok d := by
  have hone : 0 < b.length := List.length_pos_iff.mpr hb
  have hfound : lastSeparator (pathOf d b slash).1 ((pathOf d b slash).length - 2) = some (d.length - 1) := by
    apply lastSeparator_pathOf hd hfree
    · rw [pathOf_length]
      rcases hcut.2 with rfl | htwo
      · simp only [if_true]
        omega
      · omega
    · rw [pathOf_length]
      split <;> omega
  have hpos : d.1.length - 1 + 1 = d.1.length := by
    have hne : d.1 ≠ [] := by
      intro hnil
      rw [hnil] at hd
      cases hd
    have hlen := List.length_pos_iff.mpr hne
    omega
  unfold parentName
  rw [if_neg (Nat.not_le.mpr hcut.1)]
  simp only [hfound]
  congr 1
  apply Subtype.ext
  show (d.1 ++ b.1 ++ _).take (d.1.length - 1 + 1) = d.1
  rw [hpos, List.append_assoc, List.take_left]

theorem parentName_pathOf_short (hlen : b.length = 1) : parentName (pathOf d b false) ≠ .ok d := by
  intro h
  unfold parentName at h
  split at h
  · cases h
  · split at h
    · rename_i i hfound
      have hi := (lastSeparator_some hfound).1
      have hd := congrArg List.length (congrArg Subtype.val (Except.ok.inj h))
      rw [pathOf_length] at hi
      rw [List.length_take] at hd
      simp only [Bool.false_eq_true, if_false] at hi
      unfold CString.length at *
      omega
    · cases h

theorem parentName_right_iff (slash : Bool) (hd : d.1.getLast? = some kNeFSSeparator) (hb : b.1 ≠ [])
    (hfree : kNeFSSeparator ∉ b.1) :
    ParentRight (fun path => (parentName path).map some) d (pathOf d b slash) ↔ ParentCut d b slash := by
  unfold ParentRight
  by_cases hfits : (pathOf d b slash).length < kNeFSNodeNameLen
  · rw [if_pos hfits]
    constructor
    · intro h
      obtain ⟨parent, hparent, heq⟩ := Exec.exists_of_map h
      refine ⟨hfits, ?_⟩
      by_contra hshort
      obtain ⟨hslash, hlen⟩ := not_or.mp hshort
      have hone : 0 < b.length := List.length_pos_iff.mpr hb
      rw [Bool.not_eq_true] at hslash
      rw [hslash, Option.some.inj heq] at hparent
      exact parentName_pathOf_short (by omega) hparent
    · intro hcut
      dsimp only
      rw [parentName_pathOf hd hfree hb hcut]
      rfl
  · rw [if_neg hfits]
    refine iff_of_false ?_ fun hcut => hfits hcut.1
    dsimp only
    rw [parentName_long (Nat.not_lt.mp hfits)]
    intro h
    cases h

end Paths

/-- Both computations are right exactly about the paths that fit and have two characters or more behind the
directory, the slash at the end included. -/
theorem parent_right_iff (d b : CString) (slash : Bool) (hd : d.1.getLast? = some kNeFSSeparator) (hb : b.1 ≠ [])
    (hfree : kNeFSSeparator ∉ b.1) :
    (ParentRight createParentName d (pathOf d b slash) ↔ ParentCut d b slash) ∧
      (ParentRight findParentName d (pathOf d b slash) ↔ ParentCut d b slash) := by
  have hne : (pathOf d b slash).1 ≠ [] := by
    intro hnil
    exact hb (List.append_eq_nil_iff.mp (List.append_eq_nil_iff.mp hnil).1).2
  have hright := parentName_right_iff slash hd hb hfree
  unfold ParentRight at hright ⊢
  rw [createParentName_eq hne, findParentName_eq]
  exact ⟨hright, hright⟩

/-- The directory `/e/`. -/
def dirName : CString := ⟨[47, 101, 47], by decide⟩

/-- The base `ef`. -/
def baseName : CString := ⟨[101, 102], by decide⟩

theorem parent_right_iff_two : ParentCut dirName baseName false ∧
    (ParentRight createParentName dirName (pathOf dirName baseName false) ↔ ParentCut dirName baseName false) ∧
    (ParentRight findParentName dirName (pathOf dirName baseName false) ↔ ParentCut dirName baseName false) :=
  ⟨⟨by decide, by decide⟩, parent_right_iff dirName baseName false (by decide) (by decide) (by decide)⟩

theorem createParentName_one : createParentName (pathOf dirName letterA false) = .ok (some kNeFSRoot) := by
  rw [createParentName_eq (by decide)]
  rfl

/-- Neither is that of `/e/a` right, nor that of `/a`, which is looked for in front of the buffer, nor that of
any path of 256 characters, which is read behind it. -/
theorem parent_not_right :
    ¬ParentRight createParentName dirName (pathOf dirName letterA false) ∧
    ¬ParentRight createParentName kNeFSRoot (pathOf kNeFSRoot letterA false) ∧
    ∀ d path : CString, path.length = 256 → ¬ParentRight findParentName d path := by
  refine ⟨?_, ?_, ?_⟩
  · intro h
    have hroot := createParentName_one.symm.trans h
    rw [if_pos (by decide)] at hroot
    exact absurd (Option.some.inj (Except.ok.inj hroot)) (by decide)
  · intro h
    unfold ParentRight at h
    rw [createParentName_eq (by decide)] at h
    cases h
  · intro d path hlen h
    unfold ParentRight at h
    rw [findParentName_eq, parentName_long (by rw [hlen]; decide)] at h
    cases h

end OpenNE

import OpenNE.Base.Codec
import OpenNE.Base.KStringRun

/-!
# Equality and inequality (`src/KString.cc`, `src/Network/IPAddr.cc`)

Each `operator!=` is its `operator==` with one comparison the other way round, so that it asks for a difference at
every index, and says no of two lengths as well. And what a string is compared with has to have as many characters as
the string has bytes, whatever was appended to it (`equality_iff`).
-/

namespace OpenNE

/-! ### The operators -/

/-- A loop over `n` indices that returns false at the first of which `refuted` holds, and true behind them. -/
def unrefuted (n : Nat) (refuted : Nat → Bool) : Bool := (List.range n).all fun index => !refuted index

namespace KString

/-- `fData[index]`. -/
def byte (s : KString) (index : Nat) : UInt8 := s.fData.getD index 0

/-- `operator==`. -/
def equals (s rhs : KString) : Bool :=
  if rhs.fDataSz ≠ s.fDataSz then false else unrefuted s.fDataSz fun index => rhs.byte index != s.byte index

/-- `operator==`, of a C string. -/
def equalsChars (s : KString) (rhs : CString) : Bool :=
  if rhs.length ≠ s.fDataSz then false else unrefuted rhs.length fun index => rhs.1.getD index 0 != s.byte index

/-- `operator!=`. -/
def differs (s rhs : KString) : Bool :=
  if rhs.fDataSz ≠ s.fDataSz then false else unrefuted rhs.fDataSz fun index => rhs.byte index == s.byte index

/-- `operator!=`, of a C string. -/
def differsChars (s : KString) (rhs : CString) : Bool :=
  if rhs.length ≠ s.fDataSz then false else unrefuted rhs.length fun index => rhs.1.getD index 0 == s.byte index

end KString

/-- `fAddr[index]`. -/
def addressByte {n : Nat} (fAddr : Bytes n) (index : Nat) : UInt8 := fAddr.1.getD index 0

structure RawIPAddress where
  fAddr : Bytes 4

/-- `RawIPAddress::operator==`. -/
def RawIPAddress.equals (ip ipv4 : RawIPAddress) : Bool :=
  unrefuted 4 fun index => addressByte ipv4.fAddr index != addressByte ip.fAddr index

/-- `RawIPAddress::operator!=`. -/
def RawIPAddress.differs (ip ipv4 : RawIPAddress) : Bool :=
  unrefuted 4 fun index => addressByte ipv4.fAddr index == addressByte ip.fAddr index

structure RawIPAddress6 where
  fAddr : Bytes 8

/-- `RawIPAddress6::operator==`. -/
def RawIPAddress6.equals (ip ipv6 : RawIPAddress6) : Bool :=
  unrefuted 8 fun index => addressByte ipv6.fAddr index != addressByte ip.fAddr index

/-- `RawIPAddress6::operator!=`. -/
def RawIPAddress6.differs (ip ipv6 : RawIPAddress6) : Bool :=
  unrefuted 8 fun index => addressByte ipv6.fAddr index == addressByte ip.fAddr index

/-! ### What they are for -/

/-- Of two answers one is the other's negation. -/
def Complementary (equal different : Bool) : Prop := different = !equal

instance (equal different : Bool) : Decidable (Complementary equal different) := inferInstanceAs (Decidable (_ = _))

/-- A string equals the C string that is its content, and no other. -/
def EqualsContent (s : KString) (rhs : CString) : Prop := s.equalsChars rhs = true ↔ rhs.1 = s.text

/-- There are bytes to compare, and all of them are the same or none is. -/
def SameOrApart (n : Nat) (x y : Nat → UInt8) : Prop := 0 < n ∧ ((∀ i < n, x i = y i) ∨ ∀ i < n, x i ≠ y i)

/-- What a piece adds to a string of `cap` bytes. -/
def Piece.taken (cap : Nat) : Piece → List UInt8
  | chars rhs => rhs.1
  | string rhs => if cap < rhs.text.length then [] else rhs.text

/-! ### Complements -/

theorem unrefuted_ne {n : Nat} {x y : Nat → UInt8} : unrefuted n (fun i => x i != y i) = true ↔ ∀ i < n, x i = y i := by
  simp [unrefuted]

theorem unrefuted_eq {n : Nat} {x y : Nat → UInt8} : unrefuted n (fun i => x i == y i) = true ↔ ∀ i < n, x i ≠ y i := by
  simp [unrefuted]

theorem complementary_iff {n : Nat} {x y : Nat → UInt8} :
    Complementary (unrefuted n fun i => x i != y i) (unrefuted n fun i => x i == y i) ↔ SameOrApart n x y := by
  have hboth : Complementary (unrefuted n fun i => x i != y i) (unrefuted n fun i => x i == y i) ↔
      ((∀ i < n, x i ≠ y i) ↔ ¬ ∀ i < n, x i = y i) := by
    rw [← unrefuted_ne, ← unrefuted_eq, Complementary]
    cases unrefuted n (fun i => x i != y i) <;> cases unrefuted n (fun i => x i == y i) <;> decide
  rw [hboth, SameOrApart]
  constructor
  · intro h
    have hpos : 0 < n := by
      by_contra hzero
      have hnone : ∀ i, ¬ i < n := fun i => by omega
      exact h.mp (fun i hi => absurd hi (hnone i)) fun i hi => absurd hi (hnone i)
    refine ⟨hpos, ?_⟩
    by_cases hsame : ∀ i < n, x i = y i
    · exact .inl hsame
    · exact .inr (h.mpr hsame)
  · rintro ⟨hpos, hsame | hapart⟩
    · exact iff_of_false (fun h => h 0 hpos (hsame 0 hpos)) (not_not.mpr hsame)
    · exact iff_of_true hapart fun h => hapart 0 hpos (h 0 hpos)

theorem complementary_lengths_iff {m n : Nat} {x y : Nat → UInt8} :
    Complementary (if m ≠ n then false else unrefuted m fun i => x i != y i)
        (if m ≠ n then false else unrefuted m fun i => x i == y i) ↔ m = n ∧ SameOrApart m x y := by
  by_cases hlen : m = n
  · rw [if_neg (not_not.mpr hlen), if_neg (not_not.mpr hlen), complementary_iff]
    exact (and_iff_right hlen).symm
  · rw [if_pos hlen, if_pos hlen]
    exact iff_of_false (by decide) fun h => hlen h.1

theorem KString.complementary_iff {s rhs : KString} : Complementary (s.equals rhs) (s.differs rhs) ↔
    rhs.fDataSz = s.fDataSz ∧ SameOrApart rhs.fDataSz rhs.byte s.byte := by
  have hequals : s.equals rhs =
      if rhs.fDataSz ≠ s.fDataSz then false else unrefuted rhs.fDataSz fun i => rhs.byte i != s.byte i := by
    rw [equals]
    split_ifs with hlen
    · rfl
    · rw [not_not.mp hlen]
  rw [hequals, differs]
  exact complementary_lengths_iff

/-! ### Strings built up -/

section Built

variable {data : CString} {appended : List UInt8} {s s' : KString} {piece : Piece} {log log' : List BufferWrite}

/-- A string that was constructed of `data`, with `appended` behind it and, as long as that is nothing, a zero. -/
structure Built (data : CString) (appended : List UInt8) (s : KString) : Prop where
  size : s.fDataSz = data.length
  cursor : s.fCur = (data.1 ++ appended).length
  bytes : ∃ rest, s.fData = data.1 ++ appended ++ rest ∧ (appended = [] → rest.head? = some 0)

theorem built_construct {debug : Bool} {fresh : Option (List UInt8)}
    (h : (StringBuilder.construct debug fresh (some data) log).1 = .ok (some s)) : Built data [] s := by
  obtain ⟨hne, rest, log', happend⟩ := StringBuilder.construct_ok h
  have hpos : 0 < data.length := List.length_pos_iff.mpr hne
  rw [KString.append_ok happend]
  refine ⟨rfl, ?_, (List.replicate (4 * data.length) 0 ++ rest).drop data.length, ?_, fun _ => ?_⟩
  · rw [List.append_nil]
    exact Nat.zero_add _
  · simp only [List.take_zero, List.nil_append, List.append_nil, Nat.zero_add]
  · rw [List.drop_append_of_le_length (by rw [List.length_replicate]; omega), List.drop_replicate]
    obtain ⟨k, hk⟩ : ∃ k, 4 * data.length - data.length = k + 1 := ⟨3 * data.length - 1, by omega⟩
    rw [hk]
    rfl

theorem Built.append (h : Built data appended s) {rhs : CString} (hcall : (s.append rhs log).1 = .ok s') :
    Built data (appended ++ rhs.1) s' := by
  obtain ⟨rest, hbytes, hzero⟩ := h.bytes
  rw [KString.append_ok hcall]
  refine ⟨h.size, ?_, rest.drop rhs.length, ?_, ?_⟩
  · rw [← List.append_assoc, List.length_append, ← h.cursor]
    rfl
  · dsimp only
    rw [h.cursor, hbytes, List.take_left, ← List.drop_drop, List.drop_left, List.append_assoc data.1]
  · intro hnone
    obtain ⟨hbefore, hrhs⟩ := List.append_eq_nil_iff.mp hnone
    rw [CString.length, hrhs]
    exact hzero hbefore

theorem Built.appendPiece (h : Built data appended s) (hcall : (s.appendPiece piece log).1 = .ok s') :
    Built data (appended ++ piece.taken data.length) s' := by
  cases piece with
  | chars rhs => exact h.append hcall
  | string rhs =>
    obtain ⟨content, hcontent, hcall⟩ := Call.lift_bind_eq_ok.mp hcall
    have htext : content.1 = rhs.text := by
      rw [KString.cData, cString] at hcontent
      split_ifs at hcontent
      exact congrArg Subtype.val (Except.ok.inj hcontent).symm
    rw [Piece.taken, ← htext, ← h.size]
    rw [CString.length] at hcall
    split_ifs at hcall ⊢
    · cases hcall
      rw [List.append_nil]
      exact h
    · exact h.append hcall

theorem Built.appendAll {pieces : List Piece} (h : Built data appended s)
    (hcall : (KString.appendAll pieces s log).1 = .ok s') :
    Built data (appended ++ pieces.flatMap (Piece.taken data.length)) s' := by
  induction pieces generalizing appended s log with
  | nil =>
    cases hcall
    rw [List.flatMap_nil, List.append_nil]
    exact h
  | cons piece pieces ih =>
    obtain ⟨next, log', hpiece, hcall⟩ := Call.bind_eq_ok.mp hcall
    have hnext := ih (h.appendPiece (congrArg Prod.fst hpiece)) hcall
    rwa [List.append_assoc, ← List.flatMap_cons] at hnext

theorem built_run {debug : Bool} {fresh : Option (List UInt8)} {pieces : List Piece}
    (h : (StringBuilder.run debug fresh data pieces log).1 = .ok (some s)) :
    Built data (pieces.flatMap (Piece.taken data.length)) s := by
  obtain ⟨view, log', hconstruct, h⟩ := Call.bind_eq_ok.mp h
  rcases view with - | view
  · cases h
  · obtain ⟨s', log'', happend, h⟩ := Call.bind_eq_ok.mp h
    cases h
    exact (built_construct (congrArg Prod.fst hconstruct)).appendAll (congrArg Prod.fst happend)

theorem zero_not_mem_taken (cap : Nat) (piece : Piece) : (0 : UInt8) ∉ piece.taken cap := by
  cases piece with
  | chars rhs => exact rhs.2
  | string rhs =>
    have htext : (0 : UInt8) ∉ rhs.text := fun hmem => absurd (List.mem_takeWhile_imp hmem) (by decide)
    rw [Piece.taken]
    split_ifs
    · exact List.not_mem_nil
    · exact htext

theorem Built.text_eq (h : Built data appended s) (hchars : (0 : UInt8) ∉ appended) :
    ∃ behind, s.text = data.1 ++ (appended ++ behind) ∧ (appended = [] → behind = []) := by
  obtain ⟨rest, hbytes, hzero⟩ := h.bytes
  have hpass : ∀ c ∈ data.1 ++ appended, (c != 0) = true := by
    intro c hc
    rcases List.mem_append.mp hc with hdata | happended
    · exact bne_iff_ne.mpr fun heq => data.2 (heq ▸ hdata)
    · exact bne_iff_ne.mpr fun heq => hchars (heq ▸ happended)
  refine ⟨rest.takeWhile (· != 0), ?_, fun hnone => ?_⟩
  · rw [KString.text, hbytes, List.takeWhile_append_of_pos hpass, List.append_assoc]
  · obtain ⟨tail, rfl⟩ := List.head?_eq_some_iff.mp (hzero hnone)
    rfl

theorem Built.equalsChars_iff (h : Built data appended s) (rhs : CString) : s.equalsChars rhs = true ↔ rhs = data := by
  obtain ⟨rest, hbytes, -⟩ := h.bytes
  have hbyte : ∀ i < data.length, s.byte i = data.1.getD i 0 := by
    intro i hi
    rw [KString.byte, hbytes, List.append_assoc, List.getD_append _ _ _ _ hi]
  rw [KString.equalsChars, h.size]
  by_cases hlen : rhs.length = data.length
  · rw [if_neg (not_not.mpr hlen), unrefuted_ne]
    constructor
    · intro hsame
      apply Subtype.ext
      apply List.ext_getElem hlen
      intro i hi hi'
      have hchar := hsame i hi
      rwa [hbyte i hi', List.getD_eq_getElem _ _ hi, List.getD_eq_getElem _ _ hi'] at hchar
    · rintro rfl i hi
      exact (hbyte i hi).symm
  · rw [if_pos hlen]
    exact iff_of_false Bool.false_ne_true fun hsame => hlen (congrArg CString.length hsame)

theorem Built.equalsContent_iff (h : Built data appended s) (hchars : (0 : UInt8) ∉ appended) (rhs : CString) :
    EqualsContent s rhs ↔ appended = [] ∨ rhs ≠ data ∧ rhs.1 ≠ s.text := by
  obtain ⟨behind, htext, hnone⟩ := h.text_eq hchars
  have hcontent : data.1 = s.text ↔ appended = [] := by
    rw [htext, List.self_eq_append_right, List.append_eq_nil_iff]
    exact ⟨And.left, fun hnil => ⟨hnil, hnone hnil⟩⟩
  rw [EqualsContent, h.equalsChars_iff]
  constructor
  · intro hright
    by_cases hdata : rhs = data
    · have hsame := hright.mp hdata
      rw [hdata] at hsame
      exact .inl (hcontent.mp hsame)
    · exact .inr ⟨hdata, fun hsame => hdata (hright.mpr hsame)⟩
  · rintro (hnil | ⟨hdata, hother⟩)
    · rw [← hcontent.mpr hnil]
      exact Subtype.ext_iff
    · exact iff_of_false hdata hother

end Built

/-! ### All of them -/

/-- The text `ab`. -/
def textAB : CString := ⟨letterA.1 ++ letterB.1, fun h => (List.mem_append.mp h).elim letterA.2 letterB.2⟩

/-- The text `aa`. -/
def textAA : CString := ⟨letterA.1 ++ letterA.1, fun h => (List.mem_append.mp h).elim letterA.2 letterA.2⟩

/-- When the two operators are each other's negation, and when a string that was built up compares as its content. -/
theorem equality_iff (s rhs : KString) (chars : CString) (ip ipv4 : RawIPAddress) (ip6 ipv6 : RawIPAddress6)
    (debug : Bool) (fresh : Option (List UInt8)) (data : CString) (pieces : List Piece) :
    (Complementary (s.equals rhs) (s.differs rhs) ↔
      rhs.fDataSz = s.fDataSz ∧ SameOrApart rhs.fDataSz rhs.byte s.byte) ∧
    (Complementary (s.equalsChars chars) (s.differsChars chars) ↔
      chars.length = s.fDataSz ∧ SameOrApart chars.length (chars.1.getD · 0) s.byte) ∧
    (Complementary (ip.equals ipv4) (ip.differs ipv4) ↔
      SameOrApart 4 (addressByte ipv4.fAddr) (addressByte ip.fAddr)) ∧
    (Complementary (ip6.equals ipv6) (ip6.differs ipv6) ↔
      SameOrApart 8 (addressByte ipv6.fAddr) (addressByte ip6.fAddr)) ∧
    ((StringBuilder.run debug fresh data pieces []).1 = .ok (some s) →
      (EqualsContent s chars ↔
        (∀ piece ∈ pieces, piece.taken data.length = []) ∨ chars ≠ data ∧ chars.1 ≠ s.text)) := by
  refine ⟨KString.complementary_iff, complementary_lengths_iff, complementary_iff, complementary_iff, fun hrun => ?_⟩
  have hchars : (0 : UInt8) ∉ pieces.flatMap (Piece.taken data.length) := by
    intro hmem
    obtain ⟨piece, -, hpiece⟩ := List.mem_flatMap.mp hmem
    exact zero_not_mem_taken _ piece hpiece
  rw [(built_run hrun).equalsContent_iff hchars, List.flatMap_eq_nil_iff]

/-- The text `ab`, with nothing appended. -/
theorem equality_ab : ∃ s, (StringBuilder.run true (some (List.replicate 64 7)) textAB [] []).1 = .ok (some s) ∧
    EqualsContent s textAB := by
  refine ⟨_, rfl, ?_⟩
  obtain ⟨-, -, -, -, hcontent⟩ := equality_iff _ ⟨[], 0, 0⟩ textAB ⟨Bytes.zeros 4⟩ ⟨Bytes.zeros 4⟩ ⟨Bytes.zeros 8⟩
    ⟨Bytes.zeros 8⟩ true (some (List.replicate 64 7)) textAB []
  exact (hcontent rfl).mpr (.inl fun _ hmem => nomatch hmem)

/-- `ab` and `aa` share a character, `ab` and `a` are of two lengths, and two addresses share three bytes. And behind
`ab` there is a `b` that is not compared. -/
theorem equality_wrong :
    (∃ s rhs, (StringBuilder.run true (some (List.replicate 64 7)) textAB [] []).1 = .ok (some s) ∧
      (StringBuilder.run true (some (List.replicate 64 7)) textAA [] []).1 = .ok (some rhs) ∧
      ¬ Complementary (s.equals rhs) (s.differs rhs)) ∧
    (∃ s, (StringBuilder.run true (some (List.replicate 64 7)) textAB [] []).1 = .ok (some s) ∧
      ¬ Complementary (s.equalsChars letterA) (s.differsChars letterA)) ∧
    ¬ Complementary (RawIPAddress.equals ⟨[10, 0, 0, 1], rfl⟩ ⟨[10, 0, 0, 2], rfl⟩)
      (RawIPAddress.differs ⟨[10, 0, 0, 1], rfl⟩ ⟨[10, 0, 0, 2], rfl⟩) ∧
    ∃ s, (StringBuilder.run true (some (List.replicate 64 7)) textAB [.chars letterB] []).1 = .ok (some s) ∧
      s.text = [97, 98, 98] ∧ ¬ EqualsContent s textAB := by
  refine ⟨⟨_, _, rfl, rfl, by decide⟩, ⟨_, rfl, by decide⟩, by decide, _, rfl, rfl, fun h => ?_⟩
  exact absurd (h.mp rfl) (by decide)

end OpenNE

import OpenNE.Base.KString

/-!
# Strings built up (`src/KString.cc`)

`StringBuilder::Construct` makes a string with as many bytes as it has characters, so that it is full before anything
is appended, and a string of one character fails the runtime check. Its constructor has written behind the buffer
before that: no sequence of appends keeps inside (`stringKept_never`).
-/

namespace OpenNE

/-! ### Pieces -/

/-- The characters before the first zero. -/
def KString.text (s : KString) : List UInt8 := s.fData.takeWhile (· != 0)

/-- What is appended. -/
inductive Piece where
  | chars (rhs : CString)
  | string (rhs : KString)

def Piece.text : Piece → List UInt8
  | chars rhs => rhs.1
  | string rhs => rhs.text

namespace KString

/-- `operator+=` of a `KString`. -/
def appendString (s rhs : KString) : Writing KString := do
  let content ← Call.lift rhs.cData
  if s.fDataSz < content.length then return s else s.append content

/-- `operator+=`. -/
def appendPiece (s : KString) : Piece → Writing KString
  | .chars rhs => s.append rhs
  | .string rhs => s.appendString rhs

/-- One after the other. -/
def appendAll : List Piece → KString → Writing KString
  | [], s => pure s
  | piece :: pieces, s => do
    let s ← s.appendPiece piece
    appendAll pieces s

end KString

/-- A string constructed, and what is appended to it. -/
def StringBuilder.run (debug : Bool) (fresh : Option (List UInt8)) (data : CString) (pieces : List Piece) :
    Writing (Option KString) := do
  match ← StringBuilder.construct debug fresh (some data) with
  | none => return none
  | some view => return some (← KString.appendAll pieces view)

/-! ### What it is for -/

/-- A text of at most `cap` bytes, the zero included: pieces that do not fit are left out. -/
def accepted (cap : Nat) : List UInt8 → List Piece → List UInt8
  | content, [] => content
  | content, piece :: pieces =>
    accepted cap (if content.length + piece.text.length < cap then content ++ piece.text else content) pieces

/-- No byte is written behind a buffer, no check fails, and the content is what was accepted. -/
structure StringKept (debug : Bool) (fresh : Option (List UInt8)) (data : CString) (pieces : List Piece) : Prop where
  inBounds : ∀ w ∈ (StringBuilder.run debug fresh data pieces []).2, w.InBounds
  content : ∃ s, (StringBuilder.run debug fresh data pieces []).1 = .ok (some s) ∧
    s.cData.map Subtype.val = .ok (accepted s.fDataSz data.1 pieces)

/-! ### Appends -/

theorem KString.keeps_appendPiece (piece : Piece) (s : KString) :
    Call.Keeps Overran (fun _ => True) (s.appendPiece piece) := by
  cases piece with
  | chars rhs => exact keeps_append rhs s
  | string rhs =>
    apply Call.Keeps.seq (.lift _)
    intro content
    split_ifs
    · exact .pure trivial
    · exact keeps_append content s

theorem KString.keeps_appendAll (pieces : List Piece) (s : KString) :
    Call.Keeps Overran (fun _ => True) (appendAll pieces s) := by
  induction pieces generalizing s with
  | nil => exact .pure trivial
  | cons piece pieces ih =>
    apply Call.Keeps.seq (keeps_appendPiece piece s)
    intro s'
    exact ih s'

theorem KString.new_ok {debug : Bool} {fresh : Option (List UInt8)} {sz : Nat} {log : List BufferWrite} {s : KString}
    (h : (KString.new debug fresh sz log).1 = .ok s) : ∃ rest, s = ⟨List.replicate (4 * sz) 0 ++ rest, sz, 0⟩ := by
  unfold KString.new at h
  obtain ⟨-, -, h⟩ := Call.lift_bind_eq_ok.mp h
  obtain ⟨-, -, h⟩ := Call.lift_bind_eq_ok.mp h
  obtain ⟨bytes, -, h⟩ := Call.lift_bind_eq_ok.mp h
  obtain ⟨-, log', -, h⟩ := Call.bind_eq_ok.mp h
  split_ifs at h
  · cases h
  · cases h
    exact ⟨_, rfl⟩

theorem KString.append_ok {rhs : CString} {log : List BufferWrite} {s s' : KString}
    (h : (s.append rhs log).1 = .ok s') : s' = { s with
      fData := s.fData.take s.fCur ++ rhs.1 ++ s.fData.drop (s.fCur + rhs.length)
      fCur := s.fCur + rhs.length } := by
  unfold KString.append at h
  obtain ⟨-, log', -, h⟩ := Call.bind_eq_ok.mp h
  split_ifs at h
  · cases h
  · cases h
    rfl

theorem StringBuilder.construct_ok {debug : Bool} {fresh : Option (List UInt8)} {data : CString}
    {log : List BufferWrite} {s : KString}
    (h : (StringBuilder.construct debug fresh (some data) log).1 = .ok (some s)) :
    data.1 ≠ [] ∧ ∃ rest log',
      (KString.append data ⟨List.replicate (4 * data.length) 0 ++ rest, data.length, 0⟩ log').1 = .ok s := by
  unfold StringBuilder.construct at h
  dsimp only at h
  by_cases hne : data.1 = []
  · rw [if_pos hne] at h
    cases h
  · rw [if_neg hne] at h
    obtain ⟨view, log', hnew, h⟩ := Call.bind_eq_ok.mp h
    obtain ⟨s', log'', happend, h⟩ := Call.bind_eq_ok.mp h
    cases h
    obtain ⟨rest, rfl⟩ := KString.new_ok (congrArg Prod.fst hnew)
    exact ⟨hne, rest, log', congrArg Prod.fst happend⟩

/-- No string is built up inside of its buffer: the check fails, or the zeroing of the buffer goes beyond it. -/
theorem stringKept_never (debug : Bool) (fresh : Option (List UInt8)) (data : CString) (hne : data.1 ≠ [])
    (pieces : List Piece) : ¬ StringKept debug fresh data pieces := by
  intro h
  obtain ⟨s, hrun, -⟩ := h.content
  obtain ⟨view, log, hconstruct, -⟩ := Call.bind_eq_ok.mp hrun
  have hret := congrArg Prod.fst hconstruct
  cases fresh with
  | none => exact StringBuilder.construct_null hne [] view hret
  | some bytes =>
    by_cases hpass : mustPass debug (1 < data.length) = .ok ()
    · have hover : Overran (StringBuilder.run debug (some bytes) data pieces []).2 := by
        apply Call.Keeps.after (StringBuilder.construct_overruns_of_pass hne hpass [])
        rintro (- | view)
        · exact .pure trivial
        · apply Call.Keeps.seq (KString.keeps_appendAll pieces view)
          intro _
          exact .pure trivial
      obtain ⟨w, hw, hout⟩ := hover
      exact hout (h.inBounds w hw)
    · unfold StringBuilder.construct KString.new at hret
      dsimp only at hret
      rw [if_neg hne] at hret
      obtain ⟨_, _, hnew, -⟩ := Call.bind_eq_ok.mp hret
      obtain ⟨_, hcheck, -⟩ := Call.lift_bind_eq_ok.mp (congrArg Prod.fst hnew)
      exact hpass hcheck

/-- The text `ab`, and nothing appended. -/
theorem stringKept_never_ab : ¬ StringKept true (some (List.replicate 64 7)) ⟨[97, 98], by decide⟩ [] :=
  stringKept_never true (some (List.replicate 64 7)) ⟨[97, 98], by decide⟩ (by decide) []

/-- Two bytes are allocated and eight are zeroed; a text of one character fails the check. -/
theorem string_not_kept :
    ⟨2, 8⟩ ∈ (StringBuilder.run true (some (List.replicate 64 7)) ⟨[97, 98], by decide⟩ [] []).2 ∧
    ¬ StringKept true (some (List.replicate 64 7)) ⟨[97, 98], by decide⟩ [] ∧
    (StringBuilder.run true (some (List.replicate 64 7)) letterA [] []).1 = .error .panic := by
  have hzeroing : ⟨2, 8⟩ ∈ (StringBuilder.run true (some (List.replicate 64 7)) ⟨[97, 98], by decide⟩ [] []).2 := by
    decide
  exact ⟨hzeroing, fun h => absurd (h.inBounds _ hzeroing) (by decide), rfl⟩

end OpenNE

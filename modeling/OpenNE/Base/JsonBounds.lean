import OpenNE.Base.Json

/-!
# How far the reader writes (`NewKit/Json.h`)

The constructors of the two strings write four times the size of their buffers, so that only a text that is refused
leaves the bytes behind them alone. `JsonStreamReader::In` itself compares neither cursor with the size of its buffer.
Each of them counts the characters that are read in a key or in a value, the one behind included, and the zero at the
end goes behind the values: so how far the reader writes is read off the text (`jsonIn_inBounds_iff`).
-/

namespace OpenNE

/-! ### The text -/

/-- Whether the scan is in a value behind `c`. -/
def valueBehind (startVal endVal : UInt8) (inValue : Bool) (c : UInt8) : Bool :=
  if inValue then ¬ (c = endVal ∨ c = 44) else startVal ≠ 91 ∧ c = 58

/-- The characters read in keys, each with the colon behind it. -/
def keyText (startVal endVal : UInt8) : Bool → List UInt8 → List UInt8
  | _, [] => []
  | inValue, c :: cs =>
    (if inValue = false ∧ startVal ≠ 91 then [c] else []) ++
      keyText startVal endVal (valueBehind startVal endVal inValue c) cs

/-- The characters read in values, each with the one that ends it. -/
def valueText (startVal endVal : UInt8) : Bool → List UInt8 → List UInt8
  | _, [] => []
  | inValue, c :: cs =>
    (if inValue then [c] else []) ++ valueText startVal endVal (valueBehind startVal endVal inValue c) cs

/-- A part of an object or of an array; a text that is neither has none. -/
def jsonPart (part : UInt8 → UInt8 → Bool → List UInt8 → List UInt8) (text : CString) : List UInt8 :=
  if text.1.headD 0 = 123 then part 123 125 false ((text.1.drop 1).filter looked)
  else if text.1.headD 0 = 91 then part 91 93 true ((text.1.drop 1).filter looked)
  else []

/-! ### Rounds -/

section Bounds

variable {source : Span} {startVal endVal c : UInt8} {s s' : JsonScan}

theorem mayWrite_within {i : Nat} :
    (Access.within source).mayWrite ⟨0, kMaxJsonPath⟩ i 1 = true ↔ i < kMaxJsonPath := by
  rw [Access.mayWrite, decide_eq_true_eq, Span.Holds]
  simp only
  omega

theorem putChar_fits {i : Nat} (hi : i < kMaxJsonPath) (data : Store) :
    putChar (.within source) i c data = .ok (Function.update data i c) :=
  if_pos (mayWrite_within.mpr hi)

theorem lt_of_putChar {i : Nat} {data data' : Store} (h : putChar (.within source) i c data = .ok data') :
    i < kMaxJsonPath := by
  by_contra hover
  rw [putChar, if_neg (fun hin => hover (mayWrite_within.mp hin))] at h
  cases h

/-- The cursors behind a character. -/
structure JsonScan.Steps (startVal endVal c : UInt8) (s s' : JsonScan) : Prop where
  probeValue : s'.probeValue = valueBehind startVal endVal s.probeValue c
  keyLen : s'.keyLen = s.keyLen + (if s.probeValue = false ∧ startVal ≠ 91 then [c] else []).length
  valueLen : s'.valueLen = s.valueLen + (if s.probeValue then [c] else []).length

theorem round_steps (hlook : looked c = true) (h : s.round (.within source) startVal endVal c = .ok s') :
    s.Steps startVal endVal c s' ∧ (s.keyLen ≤ kMaxJsonPath → s'.keyLen ≤ kMaxJsonPath) := by
  rw [JsonScan.round, if_neg (not_break hlook)] at h
  by_cases hvalue : s.probeValue = true
  · rw [if_pos hvalue] at h
    by_cases hend : c = endVal ∨ c = 44
    · rw [if_pos hend] at h
      cases h
      exact ⟨⟨by simp [valueBehind, hvalue, hend], by simp [hvalue], by simp [hvalue]⟩, id⟩
    · rw [if_neg hend] at h
      obtain ⟨data, -, h⟩ := Exec.bind_eq_ok.mp h
      cases h
      exact ⟨⟨by simp [valueBehind, hvalue, not_or.mp hend], by simp [hvalue], by simp [hvalue]⟩, id⟩
  · rw [if_neg hvalue] at h
    by_cases harray : startVal = 91
    · rw [if_pos harray] at h
      cases h
      exact ⟨⟨by simp [valueBehind, hvalue, harray], by simp [harray], by simp [hvalue]⟩, id⟩
    · rw [if_neg harray] at h
      by_cases hcolon : c = 58
      · rw [if_pos hcolon] at h
        obtain ⟨data, hput, h⟩ := Exec.bind_eq_ok.mp h
        cases h
        exact ⟨⟨by simp [valueBehind, hvalue, harray, hcolon], by simp [hvalue, harray], by simp [hvalue]⟩,
          fun _ => lt_of_putChar hput⟩
      · rw [if_neg hcolon] at h
        obtain ⟨data, hput, h⟩ := Exec.bind_eq_ok.mp h
        cases h
        exact ⟨⟨by simp [valueBehind, hvalue, hcolon], by simp [hvalue, harray], by simp [hvalue]⟩,
          fun _ => lt_of_putChar hput⟩

theorem round_fits (hlook : looked c = true) (hkey : s.probeValue = false ∧ startVal ≠ 91 → s.keyLen < kMaxJsonPath)
    (hvalue : s.probeValue = true → s.valueLen < kMaxJsonPath) :
    ∃ s', s.round (.within source) startVal endVal c = .ok s' := by
  rw [JsonScan.round, if_neg (not_break hlook)]
  by_cases hprobe : s.probeValue = true
  · rw [if_pos hprobe]
    by_cases hend : c = endVal ∨ c = 44
    · exact ⟨_, if_pos hend⟩
    · rw [if_neg hend, putChar_fits (hvalue hprobe)]
      exact ⟨_, rfl⟩
  · rw [if_neg hprobe]
    by_cases harray : startVal = 91
    · exact ⟨_, if_pos harray⟩
    · have hroom := hkey ⟨Bool.not_eq_true _ ▸ hprobe, harray⟩
      rw [if_neg harray]
      by_cases hcolon : c = 58
      · rw [if_pos hcolon, putChar_fits hroom]
        exact ⟨_, rfl⟩
      · rw [if_neg hcolon, putChar_fits hroom]
        exact ⟨_, rfl⟩

/-! ### Runs -/

theorem run_steps {text : List UInt8} (hlook : ∀ c ∈ text, looked c = true)
    (h : text.foldlM (JsonScan.round (.within source) startVal endVal) s = .ok s') (hkey : s.keyLen ≤ kMaxJsonPath) :
    s'.keyLen = s.keyLen + (keyText startVal endVal s.probeValue text).length ∧
      s'.valueLen = s.valueLen + (valueText startVal endVal s.probeValue text).length ∧ s'.keyLen ≤ kMaxJsonPath := by
  induction text generalizing s with
  | nil =>
    cases h
    exact ⟨rfl, rfl, hkey⟩
  | cons c text ih =>
    rw [List.foldlM_cons] at h
    obtain ⟨next, hround, h⟩ := Exec.bind_eq_ok.mp h
    obtain ⟨hsteps, hroom⟩ := round_steps (hlook c List.mem_cons_self) hround
    obtain ⟨hkeys, hvalues, hlast⟩ := ih (fun x hx => hlook x (List.mem_cons_of_mem c hx)) h (hroom hkey)
    rw [hsteps.probeValue, hsteps.keyLen] at hkeys
    rw [hsteps.probeValue, hsteps.valueLen] at hvalues
    rw [keyText, valueText, List.length_append, List.length_append, ← Nat.add_assoc, ← Nat.add_assoc]
    exact ⟨hkeys, hvalues, hlast⟩

theorem run_fits {text : List UInt8} (hlook : ∀ c ∈ text, looked c = true)
    (hkeys : s.keyLen + (keyText startVal endVal s.probeValue text).length ≤ kMaxJsonPath)
    (hvalues : s.valueLen + (valueText startVal endVal s.probeValue text).length ≤ kMaxJsonPath) :
    ∃ s', text.foldlM (JsonScan.round (.within source) startVal endVal) s = .ok s' := by
  induction text generalizing s with
  | nil => exact ⟨s, rfl⟩
  | cons c text ih =>
    rw [keyText, List.length_append, ← Nat.add_assoc] at hkeys
    rw [valueText, List.length_append, ← Nat.add_assoc] at hvalues
    have hkey : s.probeValue = false ∧ startVal ≠ 91 → s.keyLen < kMaxJsonPath := by
      intro hin
      rw [if_pos hin, List.length_singleton] at hkeys
      omega
    have hvalue : s.probeValue = true → s.valueLen < kMaxJsonPath := by
      intro hin
      rw [if_pos hin, List.length_singleton] at hvalues
      omega
    obtain ⟨next, hround⟩ := @round_fits source startVal endVal c s (hlook c List.mem_cons_self) hkey hvalue
    obtain ⟨hsteps, -⟩ := round_steps (hlook c List.mem_cons_self) hround
    rw [List.foldlM_cons, hround, Exec.ok_bind]
    apply ih fun x hx => hlook x (List.mem_cons_of_mem c hx)
    · rw [hsteps.probeValue, hsteps.keyLen]
      exact hkeys
    · rw [hsteps.probeValue, hsteps.valueLen]
      exact hvalues

theorem jsonScan_within_iff {inValue : Bool} {text : CString} {start : JSON} :
    (∃ type, jsonScan (.within source) startVal endVal inValue start text = .ok type) ↔
      (keyText startVal endVal inValue ((text.1.drop 1).filter looked)).length ≤ kMaxJsonPath ∧
        (valueText startVal endVal inValue ((text.1.drop 1).filter looked)).length < kMaxJsonPath := by
  have hlook : ∀ c ∈ (text.1.drop 1).filter looked, looked c = true := fun c hc => (List.mem_filter.mp hc).2
  rw [jsonScan, foldlM_looked]
  constructor
  · rintro ⟨type, h⟩
    obtain ⟨last, hrun, h⟩ := Exec.bind_eq_ok.mp h
    obtain ⟨data, hput, -⟩ := Exec.bind_eq_ok.mp h
    obtain ⟨hkeys, hvalues, hroom⟩ := run_steps hlook hrun (Nat.zero_le _)
    have hlast := lt_of_putChar hput
    simp only [Nat.zero_add] at hkeys hvalues
    exact ⟨hkeys ▸ hroom, hvalues ▸ hlast⟩
  · rintro ⟨hkeys, hvalues⟩
    obtain ⟨last, hrun⟩ := @run_fits source startVal endVal ⟨inValue, 0, 0, start⟩ _ hlook
      (by rw [Nat.zero_add]; exact hkeys) (by rw [Nat.zero_add]; exact Nat.le_of_lt hvalues)
    obtain ⟨-, hlast, -⟩ := run_steps hlook hrun (Nat.zero_le _)
    simp only [Nat.zero_add] at hlast
    rw [hrun, Exec.ok_bind, putChar_fits (hlast ▸ hvalues)]
    exact ⟨_, rfl⟩

theorem valueText_plain {text : List UInt8} (h : ∀ c ∈ text, ¬ (c = endVal ∨ c = 44)) :
    valueText startVal endVal true text = text := by
  induction text with
  | nil => rfl
  | cons c text ih =>
    have hbehind : valueBehind startVal endVal true c = true := decide_eq_true (h c List.mem_cons_self)
    rw [valueText, hbehind, ih fun x hx => h x (List.mem_cons_of_mem c hx)]
    rfl

end Bounds

theorem zeroBuffer_within (source : Span) : zeroBuffer (.within source) = .error .fault := by
  have hlong : ¬ (⟨0, kMaxJsonPath⟩ : Span).Holds 0 (4 * kMaxJsonPath) := by
    rw [Span.Holds, kMaxJsonPath]
    dsimp only
    omega
  rw [zeroBuffer, if_neg]
  rw [Access.mayWrite, decide_eq_true_eq]
  exact hlong

/-- A reading writes inside of its buffers exactly where the text is refused. What it writes itself, once its strings
are there, stays inside exactly where what is read in keys fits in the one and what is read in values, with a byte to
spare, in the other. -/
theorem jsonIn_inBounds_iff (text : CString) (source : Span) :
    ((∃ type, jsonIn (.within source) text = .ok type) ↔ Refused text) ∧
      (¬ Refused text → ∀ start, ((∃ type, jsonFill (.within source) start text = .ok type) ↔
        (jsonPart keyText text).length ≤ kMaxJsonPath ∧ (jsonPart valueText text).length < kMaxJsonPath)) := by
  constructor
  · rw [jsonIn]
    by_cases hrefused : Refused text
    · rw [if_pos hrefused]
      exact iff_of_true ⟨_, rfl⟩ hrefused
    · rw [if_neg hrefused, JSON.new, zeroBuffer_within]
      refine iff_of_false ?_ hrefused
      rintro ⟨type, h⟩
      cases h
  · intro htaken start
    rw [jsonFill, jsonPart, jsonPart]
    by_cases hobject : text.1.headD 0 = 123
    · rw [if_neg (not_not.mpr hobject), if_pos hobject, if_pos hobject]
      exact jsonScan_within_iff
    · have harray : text.1.headD 0 = 91 := by
        by_contra hother
        exact htaken ⟨hobject, hother⟩
      rw [if_pos hobject, if_neg hobject, if_neg hobject, if_pos harray, if_pos harray]
      exact jsonScan_within_iff

/-! ### A long array -/

/-- A bracket, and as many letters as the buffer has bytes. -/
def longArray : CString := ⟨91 :: List.replicate 4096 97, by
  rw [List.mem_cons, not_or]
  exact ⟨by decide, fun h => absurd (List.eq_of_mem_replicate h) (by decide)⟩⟩

/-- The buffers are overrun before the first character is read, and the zero behind the value is written behind its
buffer. -/
theorem longArray_overruns : (¬ ∃ source type, jsonIn (.within source) longArray = .ok type) ∧
    ¬ ∃ source type, jsonFill (.within source) JSON.zeroed longArray = .ok type := by
  constructor
  · rintro ⟨source, type, h⟩
    have htaken : ¬ Refused longArray := by decide
    rw [jsonIn, if_neg htaken, JSON.new, zeroBuffer_within] at h
    cases h
  · rintro ⟨source, h⟩
    have hletters : ∀ c ∈ List.replicate 4096 (97 : UInt8), c = 97 := fun c hc => List.eq_of_mem_replicate hc
    have hlooked : (List.replicate 4096 (97 : UInt8)).filter looked = List.replicate 4096 97 :=
      List.filter_eq_self.mpr fun c hc => by rw [hletters c hc]; rfl
    have hscan : ∃ type, jsonScan (.within source) 91 93 true JSON.zeroed longArray = .ok type := h
    have hroom := (jsonScan_within_iff.mp hscan).2
    have hbody : longArray.1.drop 1 = List.replicate 4096 97 := rfl
    rw [hbody, hlooked, valueText_plain fun c hc => by rw [hletters c hc]; decide, List.length_replicate] at hroom
    exact absurd hroom (by decide)

end OpenNE

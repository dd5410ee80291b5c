import OpenNE.Base.Call
import OpenNE.Boot.StringCompare

/-!
# Reading a line from the serial port (`HALKit/AMD64/HalDebugOutput.cc`)

`ke_io_read` of a debug build. Its filter has only one threshold, since what is below one of three characters is below
the highest of them, and its list of exceptions lets everything through, since no byte is all of six characters at
once: the bytes below `a` are dropped and the others are stored (`isDropped_eq`).
-/

namespace OpenNE

inductive CommStatus where
  | kStateInvalid | kStateReady | kStateTransmit
  deriving DecidableEq

def kPort : UInt16 := 0x3F8

/-- The port and the memory: what was written to the registers, what the port answers to the loopback test, the bytes
it receives, and how many of them were taken. -/
structure SerialPort where
  kState : CommStatus
  written : List (UInt16 × UInt8)
  echo : UInt8
  received : Nat → UInt8
  taken : Nat
  mem : Store

namespace SerialPort

/-- `rt_out8`. -/
def rtOut8 (port : UInt16) (value : UInt8) : Call SerialPort Unit :=
  Call.modify fun s => { s with written := s.written ++ [(port, value)] }

/-- `rt_in8`, of the bytes received. -/
def rtIn8 : Call SerialPort UInt8 := fun s => (.ok (s.received s.taken), { s with taken := s.taken + 1 })

/-- `rt_out8` of each. -/
def outAll (values : List (UInt16 × UInt8)) : Call SerialPort Unit :=
  Call.all (fun value => rtOut8 value.1 value.2) values

/-- What `hal_serial_init` writes before its test. -/
def setup : List (UInt16 × UInt8) :=
  [(kPort + 1, 0x00), (kPort + 3, 0x80), (kPort + 0, 0x03), (kPort + 1, 0x00), (kPort + 3, 0x03), (kPort + 2, 0xC7),
    (kPort + 4, 0x0B), (kPort + 4, 0x1E), (kPort + 0, 0xAE)]

/-- `hal_serial_init`. -/
def halSerialInit : Call SerialPort Bool := fun s =>
  if s.kState = .kStateReady ∨ s.kState = .kStateTransmit then (.ok true, s)
  else
    let (_, s) := outAll setup s
    if s.echo ≠ 0xAE then (.error .panic, s)
    else
      let s := { s with kState := .kStateReady }
      let (_, s) := rtOut8 (kPort + 4) 0x0F s
      (.ok true, s)

/-- The filter. -/
def isDropped (c : UInt8) : Bool :=
  (c < 48 || c < 65 || c < 97) && (c ≠ 64 || c ≠ 33 || c ≠ 63 || c ≠ 46 || c ≠ 47 || c ≠ 58)

/-- `((char*)bytes)[index] = c`. -/
def put (bytes index : Nat) (c : UInt8) : Call SerialPort Unit :=
  Call.modify fun s => { s with mem := s.mem.write (bytes + index) [c] }

/-- A round of the loop. -/
def readRound (bytes index : Nat) : Call SerialPort (Nat ⊕ Nat) := do
  let c ← rtIn8
  if c = 0x0D then return .inr index
  else if isDropped c then return .inl index
  else do
    put bytes index c
    return .inl (index + 1)

/-- `ke_io_read`. -/
def keIoRead (fuel bytes : Nat) : Call SerialPort Unit := do
  let _ ← halSerialInit
  let state ← Call.gets kState
  if bytes = 0 ∨ state ≠ .kStateReady then return ()
  else do
    Call.modify fun s => { s with kState := .kStateTransmit }
    let index ← Call.rounds (readRound bytes) fuel 0
    put bytes index 0
    Call.modify fun s => { s with kState := .kStateReady }

/-! ### What it is for -/

/-- A letter, a digit, or one of six others. -/
def isWanted (c : UInt8) : Bool :=
  (48 ≤ c && c ≤ 57) || (65 ≤ c && c ≤ 90) || (97 ≤ c && c ≤ 122) || c ∈ ([64, 33, 63, 46, 47, 58] : List UInt8)

/-- The port is not in use, and answers the test if it has yet to be tested. -/
def Idle (s : SerialPort) : Prop :=
  s.kState ≠ .kStateTransmit ∧ (s.kState = .kStateInvalid → s.echo = 0xAE)

/-- The port receives `line`, and then a carriage return. -/
def Receives (s : SerialPort) (line : List UInt8) : Prop :=
  13 ∉ line ∧ (∀ i < line.length, s.received (s.taken + i) = line.getD i 0) ∧ s.received (s.taken + line.length) = 13

/-- What is wanted of a line. -/
def wantedOf (line : List UInt8) : CString :=
  ⟨line.filter isWanted, fun h => absurd (List.mem_filter.mp h).2 (by decide)⟩

/-- With enough rounds the call returns, and what is wanted of the line is stored. -/
def ReadsRight (s : SerialPort) (bytes : Nat) (line : List UInt8) : Prop :=
  ∃ budget, ∀ fuel, budget ≤ fuel →
    ∃ s', keIoRead fuel bytes s = (.ok (), s') ∧ StringAt s'.mem bytes (wantedOf line)

/-! ### The filter -/

section Filter

variable {c : UInt8}

theorem isDropped_eq (c : UInt8) : isDropped c = decide (c < 97) := by
  have hhigh : (c < 48 || c < 65 || c < 97) = decide (c < 97) := by
    rw [← Bool.decide_or, ← Bool.decide_or, decide_eq_decide]
    simp only [UInt8.lt_iff_toNat_lt, UInt8.reduceToNat]
    omega
  have hany : (c ≠ 64 || c ≠ 33 || c ≠ 63 || c ≠ 46 || c ≠ 47 || c ≠ 58) = true := by
    by_cases h : c = 64
    · subst h
      rfl
    · rw [decide_eq_true h]
      rfl
  rw [isDropped, hhigh, hany, Bool.and_true]

theorem isWanted_high (h : ¬ c < 97) : isWanted c = true ↔ 97 ≤ c ∧ c ≤ 122 := by
  simp only [isWanted, Bool.or_eq_true, Bool.and_eq_true, decide_eq_true_eq, List.mem_cons, List.not_mem_nil,
    or_false, ← UInt8.toNat_inj, UInt8.le_iff_toNat_le, UInt8.lt_iff_toNat_lt, UInt8.reduceToNat] at h ⊢
  omega

theorem isWanted_iff : isWanted c = !isDropped c ↔ 97 ≤ c ∧ c ≤ 122 ∨ c < 97 ∧ isWanted c = false := by
  rw [isDropped_eq]
  by_cases hlow : c < 97
  · have hno : ¬ (97 ≤ c ∧ c ≤ 122) := fun h => absurd hlow (UInt8.not_lt.mpr h.1)
    rw [decide_eq_true hlow, or_iff_right hno, and_iff_right hlow, Bool.not_true]
  · rw [decide_eq_false hlow, Bool.not_false, isWanted_high hlow, or_iff_left fun h => hlow h.1]

end Filter

/-! ### The loop -/

section Loop

variable {s : SerialPort} {bytes index : Nat} {c : UInt8} {line : List UInt8}

theorem readRound_stop (h : s.received s.taken = 13) :
    readRound bytes index s = (.ok (.inr index), { s with taken := s.taken + 1 }) := by
  show (if s.received s.taken = 0x0D then (pure (.inr index) : Call SerialPort (Nat ⊕ Nat)) else _) _ = _
  rw [if_pos h]
  rfl

theorem readRound_drop (h : s.received s.taken = c) (hc : c ≠ 13) (hdrop : isDropped c = true) :
    readRound bytes index s = (.ok (.inl index), { s with taken := s.taken + 1 }) := by
  show (if s.received s.taken = 0x0D then (pure (.inr index) : Call SerialPort (Nat ⊕ Nat))
    else if isDropped (s.received s.taken) then pure (.inl index) else _) _ = _
  rw [h, if_neg hc, if_pos hdrop]
  rfl

theorem readRound_put (h : s.received s.taken = c) (hc : c ≠ 13) (hkeep : isDropped c = false) :
    readRound bytes index s =
      (.ok (.inl (index + 1)), { s with taken := s.taken + 1, mem := s.mem.write (bytes + index) [c] }) := by
  show (if s.received s.taken = 0x0D then (pure (.inr index) : Call SerialPort (Nat ⊕ Nat))
    else if isDropped (s.received s.taken) then pure (.inl index) else _) _ = _
  rw [h, if_neg hc, if_neg (by rw [hkeep]; exact Bool.false_ne_true)]
  rfl

theorem Receives.cons (h : s.Receives (c :: line)) :
    s.received s.taken = c ∧ c ≠ 13 ∧ ∀ mem, Receives { s with taken := s.taken + 1, mem := mem } line := by
  obtain ⟨hline, hbytes, hlast⟩ := h
  rw [List.mem_cons, not_or] at hline
  have hnext : ∀ i, s.taken + 1 + i = s.taken + (i + 1) := fun i => by omega
  refine ⟨hbytes 0 (Nat.succ_pos _), Ne.symm hline.1, fun mem => ⟨hline.2, fun i hi => ?_, ?_⟩⟩
  · show s.received (s.taken + 1 + i) = _
    rw [hnext, hbytes (i + 1) (Nat.succ_lt_succ hi)]
    rfl
  · show s.received (s.taken + 1 + line.length) = 13
    rw [hnext]
    exact hlast

theorem rounds_stores (h : s.Receives line) :
    Call.rounds (readRound bytes) (line.length + 1) index s =
      (.ok (index + (line.filter fun c => !isDropped c).length),
        { s with
          taken := s.taken + line.length + 1
          mem := s.mem.write (bytes + index) (line.filter fun c => !isDropped c) }) := by
  induction line generalizing s index with
  | nil =>
    rw [Call.rounds_leave (readRound_stop h.2.2), List.filter_nil, Store.write_nil]
    rfl
  | cons c line ih =>
    obtain ⟨hc, hne, hrest⟩ := h.cons
    cases hdrop : isDropped c with
    | true =>
      rw [Call.rounds_next (readRound_drop hc hne hdrop), List.length_cons, ih (hrest s.mem),
        List.filter_cons_of_neg (by simp [hdrop])]
      simp only [Nat.add_assoc, Nat.add_comm 1]
    | false =>
      rw [Call.rounds_next (readRound_put hc hne hdrop), List.length_cons, ih (hrest _),
        List.filter_cons_of_pos (by simp [hdrop]), List.length_cons]
      have happend := Store.write_append s.mem (bytes + index) [c] (line.filter fun c => !isDropped c)
      rw [List.length_singleton, List.singleton_append] at happend
      simp only [Nat.add_assoc, Nat.add_comm 1] at happend ⊢
      rw [happend]

end Loop

/-! ### The line -/

section Line

variable {s : SerialPort} {bytes : Nat} {line : List UInt8}

theorem outAll_eq (values : List (UInt16 × UInt8)) (s : SerialPort) :
    outAll values s = (.ok (), { s with written := s.written ++ values }) := by
  induction values generalizing s with
  | nil =>
    rw [List.append_nil]
    rfl
  | cons value values ih =>
    have hfirst : rtOut8 value.1 value.2 s = (.ok (), { s with written := s.written ++ [value] }) := rfl
    rw [outAll, Call.all, Call.bind_of_ok hfirst]
    rw [outAll] at ih
    rw [ih, List.append_assoc]
    rfl

theorem halSerialInit_idle (h : s.Idle) :
    ∃ written, halSerialInit s = (.ok true, { s with kState := .kStateReady, written := written }) := by
  obtain ⟨hfree, hecho⟩ := h
  rw [halSerialInit]
  by_cases hready : s.kState = .kStateReady
  · exact ⟨s.written, by rw [if_pos (.inl hready), ← hready]⟩
  · have hinvalid : s.kState = .kStateInvalid := by
      cases hstate : s.kState with
      | kStateInvalid => rfl
      | kStateReady => exact absurd hstate hready
      | kStateTransmit => exact absurd hstate hfree
    rw [if_neg (by rw [not_or]; exact ⟨hready, hfree⟩), outAll_eq]
    simp only [hecho hinvalid, ne_eq, not_true_eq_false, if_false]
    exact ⟨_, rfl⟩

theorem keIoRead_eq (hbytes : bytes ≠ 0) (hidle : s.Idle) : ∃ written, ∀ fuel, keIoRead fuel bytes s =
    (Call.rounds (readRound bytes) fuel 0 >>= fun index =>
      put bytes index 0 >>= fun _ => Call.modify fun s => { s with kState := .kStateReady })
        { s with kState := .kStateTransmit, written := written } := by
  obtain ⟨written, hinit⟩ := halSerialInit_idle hidle
  refine ⟨written, fun fuel => ?_⟩
  rw [keIoRead, Call.bind_of_ok hinit, Call.gets_bind, if_neg (by simp [hbytes]), Call.modify_bind]

theorem keIoRead_stores (hbytes : bytes ≠ 0) (hidle : s.Idle) (hline : s.Receives line) {fuel : Nat}
    (hfuel : line.length < fuel) : ∃ s', keIoRead fuel bytes s = (.ok (), s') ∧
      s'.mem = s.mem.write bytes (line.filter (fun c => !isDropped c) ++ [0]) := by
  obtain ⟨written, hcall⟩ := keIoRead_eq hbytes hidle
  have hline' : Receives { s with kState := .kStateTransmit, written := written } line := hline
  have hloop := Call.rounds_mono hfuel (@rounds_stores _ bytes 0 line hline')
  rw [hcall fuel, Call.bind_of_ok hloop]
  refine ⟨_, rfl, ?_⟩
  rw [← Store.write_append, Nat.zero_add]
  rfl

/-- What is not dropped of a line. -/
def keptOf (line : List UInt8) : CString :=
  ⟨line.filter fun c => !isDropped c, fun h => absurd (List.mem_filter.mp h).2 (by decide)⟩

theorem filter_eq_iff {p q : UInt8 → Bool} : line.filter p = line.filter q ↔ ∀ c ∈ line, p c = q c := by
  refine ⟨fun h c hc => ?_, fun h => List.filter_congr h⟩
  have hmem : c ∈ line.filter p ↔ c ∈ line.filter q := by rw [h]
  rw [List.mem_filter, List.mem_filter, and_iff_right hc, and_iff_right hc] at hmem
  exact Bool.eq_iff_iff.mpr hmem

/-- The line is stored as it should be exactly when each of its bytes is filtered rightly. -/
theorem keIoRead_iff (hbytes : bytes ≠ 0) (hidle : s.Idle) (hline : s.Receives line) :
    s.ReadsRight bytes line ↔ ∀ c ∈ line, 97 ≤ c ∧ c ≤ 122 ∨ c < 97 ∧ isWanted c = false := by
  have hstored : ∀ fuel, line.length < fuel →
      ∃ s', keIoRead fuel bytes s = (.ok (), s') ∧ StringAt s'.mem bytes (keptOf line) := by
    intro fuel hfuel
    obtain ⟨s', hcall, hmem⟩ := keIoRead_stores hbytes hidle hline hfuel
    exact ⟨s', hcall, hmem ▸ stringAt_write s.mem bytes (keptOf line)⟩
  have hsame : wantedOf line = keptOf line ↔ ∀ c ∈ line, isWanted c = !isDropped c :=
    Subtype.ext_iff.trans filter_eq_iff
  simp only [← isWanted_iff]
  rw [← hsame]
  constructor
  · rintro ⟨budget, hright⟩
    obtain ⟨s', hcall, hwanted⟩ := hright (max budget (line.length + 1)) (Nat.le_max_left _ _)
    obtain ⟨s'', hcall', hkept⟩ := hstored (max budget (line.length + 1)) (Nat.le_max_right _ _)
    rw [hcall] at hcall'
    cases hcall'
    exact hwanted.unique hkept
  · intro hwanted
    refine ⟨line.length + 1, fun fuel hfuel => ?_⟩
    rw [hwanted]
    exact hstored fuel hfuel

end Line

/-- A ready port that receives `line` and then carriage returns only. -/
def receiving (line : List UInt8) : SerialPort :=
  ⟨.kStateReady, [], 0, fun i => line.getD i 13, 0, fun _ => 0⟩

theorem receiving_receives {line : List UInt8} (h : 13 ∉ line) : (receiving line).Receives line := by
  have hplace : ∀ i, 0 + i = i := Nat.zero_add
  refine ⟨h, fun i hi => ?_, ?_⟩
  · show line.getD (0 + i) 13 = line.getD i 0
    rw [hplace, List.getD_eq_getElem _ _ hi, List.getD_eq_getElem _ _ hi]
  · show line.getD (0 + line.length) 13 = 13
    rw [hplace, List.getD_eq_default _ _ (Nat.le_refl _)]

/-- Lower-case letters are stored, and a blank is dropped. -/
theorem keIoRead_letters : (receiving [111, 32, 107]).ReadsRight 4096 [111, 32, 107] := by
  refine (keIoRead_iff (by decide) ⟨by decide, by decide⟩ (receiving_receives (by decide))).mpr fun c hc => ?_
  rcases List.mem_cons.mp hc with rfl | hc
  · decide
  rcases List.mem_cons.mp hc with rfl | hc
  · decide
  rw [List.mem_singleton.mp hc]
  decide

/-- The digit of `a1` is dropped. -/
theorem digit_dropped : ((keIoRead 3 4096 (receiving [97, 49])).2.mem.read 4096 2 = [97, 0]) ∧
    ¬ (receiving [97, 49]).ReadsRight 4096 [97, 49] := by
  refine ⟨by decide, fun h => ?_⟩
  have hbytes := (keIoRead_iff (by decide) ⟨by decide, by decide⟩ (receiving_receives (by decide))).mp h
  exact absurd (hbytes 49 (by decide)) (by decide)

end SerialPort

end OpenNE

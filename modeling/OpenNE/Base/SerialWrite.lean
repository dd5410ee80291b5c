import OpenNE.Base.Run
import OpenNE.Base.SerialRead
import OpenNE.Base.StringScan

/-!
# The console on the serial port (`HALKit/AMD64/HalDebugOutput.cc`)

`ke_io_write` of a debug build sends a line feed behind each carriage return, and cuts what is longer than its bound.
So what goes over the port can be read back: over any run of writes and reads it is the texts, each up to its bound,
behind one handshake (`console_run`).
-/

namespace OpenNE

namespace SerialPort

/-- A round of the loop in `ke_io_write`. -/
def writeRound (bytes len index : Nat) : Call SerialPort (Nat ⊕ Unit) := do
  if index < len then do
    let c ← Call.gets fun s => s.mem (bytes + index)
    if c = 13 then rtOut8 kPort 13 else pure ()
    rtOut8 kPort (if c = 13 then 10 else c)
    return .inl (index + 1)
  else return .inr ()

/-- The part of `ke_io_write` behind its tests. -/
def sendText (acc : Access) (fuel bytes : Nat) (mem : Store) : Call SerialPort Unit := do
  Call.modify fun s => { s with kState := .kStateTransmit }
  let len ← Call.lift (rtStringLenMax acc fuel bytes 255 mem)
  Call.rounds (writeRound bytes len) fuel 0
  Call.modify fun s => { s with kState := .kStateReady }

/-- `ke_io_write`, which may read what `acc` says. -/
def keIoWrite (acc : Access) (fuel bytes : Nat) : Call SerialPort Unit := do
  let _ ← halSerialInit
  let state ← Call.gets kState
  if bytes = 0 ∨ state ≠ .kStateReady then return ()
  else do
    let mem ← Call.gets mem
    let c ← Call.lift (fetch acc Codec.u8 bytes mem)
    if c = 0 then return () else sendText acc fuel bytes mem

/-! ### What goes over the port -/

/-- A text as it is sent. -/
def toWire (text : List UInt8) : List UInt8 := text.flatMap fun c => if c = 13 then [13, 10] else [c]

/-- What is sent, read back. -/
def ofWire : List UInt8 → List UInt8
  | 13 :: _ :: wire => 13 :: ofWire wire
  | c :: wire => c :: ofWire wire
  | [] => []

theorem ofWire_cons {c : UInt8} (hc : c ≠ 13) (wire : List UInt8) : ofWire (c :: wire) = c :: ofWire wire := by
  rw [ofWire]
  rintro c' wire' rfl
  exact absurd rfl hc

theorem ofWire_toWire_append (text wire : List UInt8) : ofWire (toWire text ++ wire) = text ++ ofWire wire := by
  induction text with
  | nil => rfl
  | cons c text ih =>
    rw [toWire, List.flatMap_cons, List.append_assoc]
    by_cases hc : c = 13
    · subst hc
      exact congrArg (13 :: ·) ih
    · rw [if_neg hc, List.singleton_append, ofWire_cons hc]
      exact congrArg (c :: ·) ih

/-- What is sent of a string: up to its bound, and a string of one character more than the bound is counted whole. -/
def sentOf (s : CString) : List UInt8 := s.1.take (if s.length ≤ 255 + 1 then s.length else 255)

/-- The values on the port of the data. -/
def onPort (wire : List UInt8) : List (UInt16 × UInt8) := wire.map fun c => (kPort, c)

/-- What is written before the first text. -/
def handshake (s : SerialPort) : List (UInt16 × UInt8) :=
  if s.kState = .kStateReady then [] else setup ++ [(kPort + 4, 0x0F)]

/-- The port ready, with `values` written. -/
def ready (s : SerialPort) (values : List (UInt16 × UInt8)) : SerialPort :=
  { s with kState := .kStateReady, written := s.written ++ values }

section Calls

variable {s : SerialPort} {bytes len index fuel : Nat} {line : List UInt8} {text : CString}

theorem halSerialInit_eq (h : s.Idle) : halSerialInit s = (.ok true, s.ready s.handshake) := by
  obtain ⟨hfree, hecho⟩ := h
  unfold halSerialInit ready handshake
  by_cases hready : s.kState = .kStateReady
  · rw [if_pos (.inl hready), if_pos hready, List.append_nil, ← hready]
  · have hinvalid : s.kState = .kStateInvalid := by
      cases hstate : s.kState with
      | kStateInvalid => rfl
      | kStateReady => exact absurd hstate hready
      | kStateTransmit => exact absurd hstate hfree
    rw [if_neg (not_or.mpr ⟨hready, hfree⟩), if_neg hready, outAll_eq]
    simp only [hecho hinvalid, ne_eq, not_true_eq_false, if_false]
    rw [← List.append_assoc]
    rfl

theorem writeRound_eq (h : index < len) : writeRound bytes len index s =
    (.ok (.inl (index + 1)),
      { s with written := s.written ++ onPort (toWire [s.mem (bytes + index)]) }) := by
  unfold writeRound
  rw [if_pos h, Call.gets_bind]
  by_cases hc : s.mem (bytes + index) = 13
  · rw [if_pos hc, if_pos hc, hc]
    have hwritten : s.written ++ onPort (toWire [13]) = s.written ++ [(kPort, 13)] ++ [(kPort, 10)] := by
      rw [List.append_assoc]
      rfl
    rw [hwritten]
    rfl
  · rw [if_neg hc, if_neg hc]
    have hwire : toWire [s.mem (bytes + index)] = [s.mem (bytes + index)] := by
      rw [toWire, List.flatMap_singleton, if_neg hc]
    rw [hwire]
    rfl

theorem toWire_append (a b : List UInt8) : toWire (a ++ b) = toWire a ++ toWire b := List.flatMap_append

theorem rounds_sends (n : Nat) (hn : index + n = len) : Call.rounds (writeRound bytes len) (n + 1) index s =
    (.ok (), { s with written := s.written ++ onPort (toWire (s.mem.read (bytes + index) n)) }) := by
  induction n generalizing s index with
  | zero =>
    have hlast : writeRound bytes len index s = (.ok (.inr ()), s) := by
      unfold writeRound
      rw [if_neg (by omega)]
      rfl
    rw [Call.rounds_leave hlast]
    show _ = (Except.ok (), { s with written := s.written ++ [] })
    rw [List.append_nil]
  | succ n ih =>
    rw [Call.rounds_next (writeRound_eq (by omega)), ih (by omega), Nat.add_comm n 1, Store.read_add, toWire_append]
    have hone : s.mem.read (bytes + index) 1 = [s.mem (bytes + index)] := rfl
    rw [hone, onPort, onPort, onPort, List.map_append, List.append_assoc]
    rfl

theorem read_take (h : StringAt s.mem bytes text) {n : Nat} (hn : n ≤ text.length) :
    s.mem.read bytes n = text.1.take n := by
  have hall : s.mem.read bytes n ++ s.mem.read (bytes + n) (text.length + 1 - n) = text.1 ++ [0] := by
    rw [← Store.read_add, Nat.add_sub_cancel' (by omega)]
    exact h
  have htake := congrArg (List.take n) hall
  rwa [List.take_append_of_le_length (Nat.le_of_eq (Store.read_length _ _ _).symm),
    List.take_of_length_le (Nat.le_of_eq (Store.read_length _ _ _)), List.take_append_of_le_length hn] at htake

theorem keIoWrite_eq (hidle : s.Idle) (hbytes : bytes ≠ 0) (h : StringAt s.mem bytes text) :
    keIoWrite (stringOnly bytes text) fuel bytes s =
      (if text.1.getD 0 0 = 0 then Pure.pure () else sendText (stringOnly bytes text) fuel bytes s.mem :
        Call SerialPort Unit) (s.ready s.handshake) := by
  have hready : ¬(bytes = 0 ∨ (s.ready s.handshake).kState ≠ .kStateReady) := by
    rintro (hzero | hstate)
    · exact hbytes hzero
    · exact hstate rfl
  have hfirst : fetch (stringOnly bytes text) Codec.u8 bytes (s.ready s.handshake).mem = .ok (text.1.getD 0 0) :=
    h.fetch (Nat.zero_le _)
  unfold keIoWrite
  rw [Call.bind_of_ok (halSerialInit_eq hidle), Call.gets_bind, if_neg hready, Call.gets_bind,
    Call.lift_bind_of_ok hfirst]
  rfl

theorem keIoWrite_sends (hidle : s.Idle) (hbytes : bytes ≠ 0) (h : StringAt s.mem bytes text) :
    ∃ budget, ∀ fuel, budget ≤ fuel → keIoWrite (stringOnly bytes text) fuel bytes s =
      (.ok (), s.ready (s.handshake ++ onPort (toWire (sentOf text)))) := by
  by_cases hempty : text.length = 0
  · have hnil : text.1 = [] := List.length_eq_zero_iff.mp hempty
    have hsent : s.handshake ++ onPort (toWire (sentOf text)) = s.handshake := by
      rw [sentOf, hnil, List.take_nil]
      exact List.append_nil _
    refine ⟨0, fun fuel _ => ?_⟩
    rw [keIoWrite_eq hidle hbytes h, hnil, hsent]
    rfl
  · have hpos : 0 < text.length := Nat.pos_of_ne_zero hempty
    obtain ⟨budget, hlen⟩ := @rtStringLenMax_eq s.mem bytes 255 text h hpos
    have hle : (if text.length ≤ 255 + 1 then text.length else 255) ≤ text.length := by
      split_ifs <;> omega
    have hread : s.mem.read (bytes + 0) (if text.length ≤ 255 + 1 then text.length else 255) = sentOf text :=
      read_take h hle
    generalize (if text.length ≤ 255 + 1 then text.length else 255) = len at hlen hle hread
    refine ⟨max budget (len + 1), fun fuel hfuel => ?_⟩
    have hlen' : rtStringLenMax (stringOnly bytes text) fuel bytes 255 s.mem = .ok len :=
      loop_mono (Nat.le_trans (Nat.le_max_left _ _) hfuel) hlen
    have hrounds := Call.rounds_mono (Nat.le_trans (Nat.le_max_right _ _) hfuel)
      (@rounds_sends { s.ready s.handshake with kState := .kStateTransmit } bytes len 0 len (Nat.zero_add len))
    have hsame : s.ready (s.handshake ++ onPort (toWire (s.mem.read (bytes + 0) len))) =
        (s.ready s.handshake).ready (onPort (toWire (s.mem.read (bytes + 0) len))) := by
      unfold ready
      rw [List.append_assoc]
    rw [keIoWrite_eq hidle hbytes h, if_neg (getD_pos_ne_zero hpos), sendText, Call.modify_bind,
      Call.lift_bind_of_ok hlen', Call.bind_of_ok hrounds, ← hread, hsame]
    rfl

theorem keIoRead_sends (hidle : s.Idle) (hbytes : bytes ≠ 0) (hline : s.Receives line) :
    ∃ budget s', (∀ fuel, budget ≤ fuel → keIoRead fuel bytes s = (.ok (), s')) ∧
      s'.kState = .kStateReady ∧ s'.written = s.written ++ s.handshake := by
  have hready : ¬(bytes = 0 ∨ (s.ready s.handshake).kState ≠ .kStateReady) := by
    rintro (hzero | hstate)
    · exact hbytes hzero
    · exact hstate rfl
  have hline' : Receives { s.ready s.handshake with kState := .kStateTransmit } line := hline
  have hrounds := @rounds_stores _ bytes 0 line hline'
  have hcall : ∀ fuel, line.length + 1 ≤ fuel → keIoRead fuel bytes s =
      (.ok (), { s.ready s.handshake with
        taken := s.taken + line.length + 1
        mem := (s.mem.write (bytes + 0) (line.filter fun c => !isDropped c)).write
          (bytes + (0 + (line.filter fun c => !isDropped c).length)) [0] }) := by
    intro fuel hfuel
    unfold keIoRead
    rw [Call.bind_of_ok (halSerialInit_eq hidle), Call.gets_bind, if_neg hready, Call.modify_bind,
      Call.bind_of_ok (Call.rounds_mono hfuel hrounds)]
    rfl
  exact ⟨line.length + 1, _, hcall, rfl, rfl⟩

end Calls

/-! ### Runs -/

end SerialPort

/-- A text written, or a line read. -/
inductive ConsoleOp where
  | write (bytes : Nat) (text : CString)
  | read (bytes : Nat) (line : List UInt8)

namespace ConsoleOp

def call (fuel : Nat) : ConsoleOp → Call SerialPort Unit
  | .write bytes text => SerialPort.keIoWrite (stringOnly bytes text) fuel bytes
  | .read bytes _ => SerialPort.keIoRead fuel bytes

/-- The text lies in the memory, or the line comes in. -/
def OK (s : SerialPort) : ConsoleOp → Prop
  | .write bytes text => bytes ≠ 0 ∧ StringAt s.mem bytes text
  | .read bytes line => bytes ≠ 0 ∧ s.Receives line

/-- What is to be seen of it. -/
def text : ConsoleOp → List UInt8
  | .write _ text => SerialPort.sentOf text
  | .read _ _ => []

end ConsoleOp

/-- The call returns. -/
def ConsoleStep (s : SerialPort) (op : ConsoleOp) (s' : SerialPort) : Prop :=
  ∃ budget, ∀ fuel, budget ≤ fuel → op.call fuel s = (.ok (), s')

section Runs

open SerialPort

variable {s s' : SerialPort} {op : ConsoleOp} {ops : List ConsoleOp}

theorem ConsoleStep.unique {s'' : SerialPort} (h : ConsoleStep s op s') (h' : ConsoleStep s op s'') : s' = s'' := by
  obtain ⟨budget, hcall⟩ := h
  obtain ⟨budget', hcall'⟩ := h'
  have hsame := hcall (max budget budget') (Nat.le_max_left _ _)
  rw [hcall' (max budget budget') (Nat.le_max_right _ _)] at hsame
  exact (Prod.mk.inj hsame).2.symm

theorem ConsoleOp.sends (hidle : s.Idle) (hok : op.OK s) :
    ∃ s', ConsoleStep s op s' ∧ s'.kState = .kStateReady ∧
      s'.written = s.written ++ (s.handshake ++ onPort (toWire op.text)) := by
  cases op with
  | write bytes text =>
    obtain ⟨budget, hcall⟩ := keIoWrite_sends hidle hok.1 hok.2
    exact ⟨_, ⟨budget, hcall⟩, rfl, rfl⟩
  | read bytes line =>
    obtain ⟨budget, s', hcall, hstate, hwritten⟩ := keIoRead_sends hidle hok.1 hok.2
    refine ⟨s', ⟨budget, hcall⟩, hstate, ?_⟩
    rw [hwritten]
    exact congrArg (s.written ++ ·) (List.append_nil _).symm

/-- Behind a run the port is ready, and what was sent lies behind the handshake. -/
def Sends (s : SerialPort) (ops : List ConsoleOp) (s' : SerialPort) : Prop :=
  if ops = [] then s' = s
  else s'.kState = .kStateReady ∧
    s'.written = s.written ++ (s.handshake ++ onPort (ops.flatMap fun op => toWire op.text))

theorem handshake_ready (h : s.kState = .kStateReady) : s.handshake = [] := if_pos h

theorem idle_ready (h : s.kState = .kStateReady) : s.Idle := by
  constructor
  · rw [h]
    exact CommStatus.noConfusion
  · rw [h]
    exact fun hinvalid => CommStatus.noConfusion hinvalid

theorem Sends.idle (hidle : s.Idle) (h : Sends s ops s') : s'.Idle := by
  unfold Sends at h
  split_ifs at h with hnil
  · rwa [h]
  · exact idle_ready h.1

theorem Sends.snoc {s'' : SerialPort} (hidle : s.Idle) (h : Sends s ops s') (hok : op.OK s')
    (hstep : ConsoleStep s' op s'') : Sends s (ops ++ [op]) s'' := by
  obtain ⟨t, hcall, hstate, hwritten⟩ := ConsoleOp.sends (h.idle hidle) hok
  cases hstep.unique hcall
  unfold Sends at h ⊢
  rw [if_neg (List.append_ne_nil_of_right_ne_nil _ (List.cons_ne_nil _ _)), List.flatMap_append, List.flatMap_singleton]
  refine ⟨hstate, hwritten.trans ?_⟩
  split_ifs at h with hnil
  · rw [h, hnil]
    rfl
  · rw [handshake_ready h.1, h.2, List.nil_append, onPort, onPort, onPort, List.map_append, List.append_assoc,
      List.append_assoc]

theorem ofWire_texts (ops : List ConsoleOp) :
    ofWire (ops.flatMap fun op => toWire op.text) = ops.flatMap ConsoleOp.text := by
  induction ops with
  | nil => rfl
  | cons op ops ih => rw [List.flatMap_cons, List.flatMap_cons, ofWire_toWire_append, ih]

/-- Over any run from an idle port the handshake is sent once, before the first text, and what is sent behind it is
read back as the texts. The next call returns. -/
theorem console_run (hidle : s.Idle) (hrun : Run (Guarded ConsoleStep fun s op => op.OK s) s ops s') :
    (∃ wire, s'.written = s.written ++ ((if ops = [] then [] else s.handshake) ++ onPort wire) ∧
      ofWire wire = ops.flatMap ConsoleOp.text) ∧
    ∀ op : ConsoleOp, op.OK s' → ∃ s'', ConsoleStep s' op s'' := by
  have hsends : Sends s ops s' := by
    induction hrun with
    | nil => simp only [Sends, if_true]
    | snoc _ hlast ih => exact ih.snoc hidle hlast.2 hlast.1
  constructor
  · refine ⟨ops.flatMap fun op => toWire op.text, ?_, ofWire_texts ops⟩
    unfold Sends at hsends
    split_ifs at hsends ⊢ with hnil
    · rw [hsends, hnil]
      exact (List.append_nil _).symm
    · exact hsends.2
  · intro op hok
    obtain ⟨s'', hcall, -⟩ := ConsoleOp.sends (hsends.idle hidle) hok
    exact ⟨s'', hcall⟩

/-- A port nothing was written to, and a text with a carriage return. -/
def portAtStart : SerialPort where
  kState := .kStateInvalid
  written := []
  echo := 0xAE
  received := fun _ => 13
  taken := 0
  mem := Store.write (fun _ => 0) 100 [97, 13, 98]

def twoLines : CString := ⟨[97, 13, 98], by decide⟩

theorem console_run_twoLines :
    ∃ s' s'', Run (Guarded ConsoleStep fun s op => op.OK s) portAtStart [.write 100 twoLines] s' ∧
      (∃ wire, s'.written = [] ++ ((setup ++ [(kPort + 4, 0x0F)]) ++ onPort wire) ∧ ofWire wire = [97, 13, 98]) ∧
      ConsoleStep s' (.write 100 twoLines) s'' := by
  have hidle : portAtStart.Idle := ⟨by decide, fun _ => rfl⟩
  have hok : (ConsoleOp.write 100 twoLines).OK portAtStart := ⟨by decide, rfl⟩
  obtain ⟨budget, hcall⟩ := keIoWrite_sends hidle hok.1 hok.2
  have hstep : ConsoleStep portAtStart (.write 100 twoLines)
      (portAtStart.ready (portAtStart.handshake ++ onPort (toWire (sentOf twoLines)))) := ⟨budget, hcall⟩
  have hrun : Run (Guarded ConsoleStep fun s op => op.OK s) portAtStart [.write 100 twoLines] _ := Run.one ⟨hstep, hok⟩
  obtain ⟨hwire, hnext⟩ := console_run hidle hrun
  obtain ⟨s'', hcall'⟩ := hnext (.write 100 twoLines) hok
  exact ⟨_, s'', hrun, hwire, hcall'⟩

end Runs

end OpenNE

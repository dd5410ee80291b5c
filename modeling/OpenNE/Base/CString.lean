import OpenNE.Base.Exec
import Mathlib.Data.List.Basic
import Mathlib.Data.List.GetD
import Mathlib.Data.List.TakeWhile
import Mathlib.Tactic.Common

/-!
# C strings (`NewKit/Utils.h`, `src/Utils.cc`)

A C string is the bytes before the terminating zero.
-/

namespace OpenNE

abbrev CString := { bs : List UInt8 // (0 : UInt8) ∉ bs }

/-- `rt_string_len`. -/
def CString.length (s : CString) : Nat := s.1.length

/-- The string `a`. -/
def letterA : CString := ⟨[97], fun h => absurd (List.mem_singleton.mp h) (by decide)⟩

/-- The string `b`. -/
def letterB : CString := ⟨[98], fun h => absurd (List.mem_singleton.mp h) (by decide)⟩

/-- The string that starts at the first of `bs`; the scan runs off the record when no zero follows. -/
def cString (bs : List UInt8) : Exec CString :=
  if (0 : UInt8) ∈ bs then .ok ⟨bs.takeWhile (· != 0), fun h => by simpa using List.mem_takeWhile_imp h⟩
  else .error .fault

theorem cString_terminated {s : CString} {bs : List UInt8} : cString (s.1 ++ 0 :: bs) = .ok s := by
  have hz : (0 : UInt8) ∈ s.1 ++ 0 :: bs := by simp
  have hs : ∀ b ∈ s.1, (b != 0) = true := by
    intro b hb
    have : b ≠ 0 := fun h => s.2 (h ▸ hb)
    simpa using this
  rw [cString, if_pos hz]
  congr 1
  apply Subtype.ext
  show (s.1 ++ 0 :: bs).takeWhile (· != 0) = s.1
  rw [List.takeWhile_append_of_pos hs]
  simp

/-- `rt_copy_memory`: what stands from `dst` on after `len` bytes of `src` were copied there. A zero goes behind
them, one byte past the end of a buffer of `len` bytes. -/
def rtCopyMemory (src dst : List UInt8) (len : Nat) : List UInt8 :=
  src.take len ++ 0 :: dst.drop (len + 1)

/-- `rt_string_cmp`: how many of the first `size` characters differ. -/
def rtStringCmp (src cmp : List UInt8) (size : Nat) : Nat :=
  (List.range size).countP fun i => src.getD i 0 != cmp.getD i 0

theorem rtStringCmp_eq_zero {src cmp : List UInt8} {size : Nat} :
    rtStringCmp src cmp size = 0 ↔ ∀ i < size, src.getD i 0 = cmp.getD i 0 := by
  simp [rtStringCmp, List.countP_eq_zero]

theorem rtStringCmp_eq_zero_of_length {src cmp : List UInt8} (h : src.length = cmp.length) :
    rtStringCmp src cmp cmp.length = 0 ↔ src = cmp := by
  rw [rtStringCmp_eq_zero]
  refine ⟨fun heq => List.ext_getElem h fun i hi hi' => ?_, fun heq i _ => by rw [heq]⟩
  have hchar := heq i hi'
  rwa [List.getD_eq_getElem _ _ hi, List.getD_eq_getElem _ _ hi'] at hchar

end OpenNE

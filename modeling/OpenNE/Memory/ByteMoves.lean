import OpenNE.Boot.BootSupport
import OpenNE.Network.IpcPass

/-!
# `memset` and `memcpy` (`src/Utils.cc`, `Boot/src/BootSupport.cc`)

Both programs export a `memset` and a `memcpy`. Three of the four count 32-bit words where their callers count bytes,
the kernel's `memcpy` puts a zero behind what it copies, and the kernel's `memset` returns the end. What each of them
does to the memory is stated for every call (`memset_apply`, `memcpy_forward`), and from it when it does what its name
says.
-/

namespace OpenNE

/-! ### The kernel's -/

/-- `rt_set_memory`: `len` words from `src` on, and the address behind the last. -/
def rtSetMemory (src : Nat) (value : UInt32) : Nat → Store → Nat × Store
  | 0, mem => (src, mem)
  | len + 1, mem => rtSetMemory (src + 4) value len (mem.put Codec.u32 src value)

/-- `memset` of the kernel. -/
def kernelMemset (dst : Nat) (c : UInt32) (len : Nat) (mem : Store) : Nat × Store :=
  rtSetMemory dst c len mem

/-- `memcpy` of the kernel: what `rt_copy_memory` returns is dropped. -/
def kernelMemcpy (dst src len : Nat) (mem : Store) : Exec (Nat × Store) := do
  let (_, mem) ← rtCopyMemoryAt .anywhere ⟨dst, len⟩ src dst len mem
  .ok (dst, mem)

/-! ### The boot loader's -/

/-- `memset` of the boot loader, with what it returns. -/
def bootMemset (dst : Nat) (byte : UInt32) (len : Nat) (mem : Store) : Nat × Store := (dst, memset byte dst len mem)

/-- `memcpy` of the boot loader, with what it returns. -/
def bootMemcpy (dst src len : Nat) (mem : Store) : Nat × Store := (dst, memcpy dst src len mem)

/-! ### What they are for -/

/-- A call that puts `bytes` into the `len` bytes from `dst` on, touches no other, and returns `dst`. -/
structure Moves (dst len : Nat) (bytes : Nat → UInt8) (mem : Store) (result : Nat × Store) : Prop where
  inside : ∀ i < len, result.2 (dst + i) = bytes i
  outside : ∀ x ∉ Span.mk dst len, result.2 x = mem x
  returned : result.1 = dst

/-- What all four are for. -/
structure PrimitivesExact (dst src len : Nat) (byte : UInt8) (mem : Store) : Prop where
  kernelSet : Moves dst len (fun _ => byte) mem (kernelMemset dst byte.toUInt32 len mem)
  kernelCopy : ∃ result, kernelMemcpy dst src len mem = .ok result ∧ Moves dst len (fun i => mem (src + i)) mem result
  bootSet : Moves dst len (fun _ => byte) mem (bootMemset dst byte.toUInt32 len mem)
  bootCopy : Moves dst len (fun i => mem (src + i)) mem (bootMemcpy dst src len mem)

section Words

variable {dst src len x : Nat} {value : UInt32} {byte : UInt8} {mem : Store}

/-! ### Words and their bytes -/

theorem put_get_apply {a b k : Nat} {m m' : Store} (hk : k < 4) :
    m.put Codec.u32 a (m'.get Codec.u32 b) (a + k) = m' (b + k) := by
  have hread : Codec.u32.enc (m'.get Codec.u32 b) = m'.read b 4 := by
    rw [Store.get]
    exact Codec.u32.enc_dec _ (Store.read_length _ _ _)
  rw [Store.put_apply_inside hk, hread]
  simp [Store.read, hk]

theorem enc_byte (byte : UInt8) : Codec.u32.enc byte.toUInt32 = [byte, 0, 0, 0] := by
  show leBytes 4 byte.toUInt32.toNat = [byte, 0, 0, 0]
  have hlt := byte.toNat_lt
  have hbyte : UInt8.ofNat byte.toNat = byte := UInt8.ofNat_toNat
  have hrest : byte.toNat / 256 = 0 := Nat.div_eq_of_lt hlt
  rw [UInt8.toNat_toUInt32]
  simp only [leBytes, hbyte, hrest]
  rfl

theorem put_byte_apply {a k : Nat} {m : Store} (hk : k < 4) :
    m.put Codec.u32 a byte.toUInt32 (a + k) = if k = 0 then byte else 0 := by
  rw [Store.put_apply_inside hk, enc_byte]
  match k, hk with
  | 0, _ => rfl
  | 1, _ => rfl
  | 2, _ => rfl
  | 3, _ => rfl

theorem moves_iff {n : Nat} {bytes : Nat → UInt8} {mem' : Store} (wrote : Nat → UInt8) (hlen : len ≤ n)
    (hwrote : ∀ j < n, mem' (dst + j) = wrote j) (hkept : ∀ x, x < dst ∨ dst + n ≤ x → mem' x = mem x) :
    Moves dst len bytes mem (dst, mem') ↔
      (∀ i < len, wrote i = bytes i) ∧ ∀ j, len ≤ j → j < n → wrote j = mem (dst + j) := by
  constructor
  · intro h
    refine ⟨fun i hi => ?_, fun j hlow hhigh => ?_⟩
    · rw [← hwrote i (Nat.lt_of_lt_of_le hi hlen)]
      exact h.inside i hi
    · rw [← hwrote j hhigh]
      exact h.outside (dst + j) (by rw [Span.mem_def]; simp only; omega)
  · rintro ⟨hbytes, hbehind⟩
    refine ⟨fun i hi => ?_, fun x hx => ?_, rfl⟩
    · show mem' (dst + i) = bytes i
      rw [hwrote i (Nat.lt_of_lt_of_le hi hlen)]
      exact hbytes i hi
    · rw [Span.mem_def] at hx
      by_cases hwritten : dst ≤ x ∧ x < dst + n
      · obtain ⟨j, rfl⟩ := Nat.exists_eq_add_of_le hwritten.1
        have hj : j < n := Nat.lt_of_add_lt_add_left hwritten.2
        have hfrom : len ≤ j := by
          simp only at hx
          omega
        show mem' (dst + j) = mem (dst + j)
        rw [hwrote j hj]
        exact hbehind j hfrom hj
      · exact hkept x (by omega)

/-! ### `memset` -/

theorem rtSetMemory_eq (src len : Nat) (value : UInt32) (mem : Store) :
    rtSetMemory src value len mem = (src + 4 * len, memset value src len mem) := by
  induction len generalizing src mem with
  | zero => rfl
  | succ len ih =>
    rw [rtSetMemory, ih, memset]
    congr 1
    omega

theorem memset_apply (mem : Store) {j : Nat} (hj : j < 4 * len) :
    memset byte.toUInt32 dst len mem (dst + j) = if j % 4 = 0 then byte else 0 := by
  induction len generalizing dst mem j with
  | zero => omega
  | succ len ih =>
    rw [memset]
    by_cases hfirst : j < 4
    · rw [memset_outside (by omega), put_byte_apply hfirst, Nat.mod_eq_of_lt hfirst]
    · have hrest : dst + j = dst + 4 + (j - 4) := by omega
      have hmod : (j - 4) % 4 = j % 4 := by omega
      rw [hrest, ih _ (by omega), hmod]

theorem bootMemset_iff : Moves dst len (fun _ => byte) mem (bootMemset dst byte.toUInt32 len mem) ↔
    (len ≤ 1 ∨ byte = 0) ∧ ∀ j, len ≤ j → j < 4 * len → mem (dst + j) = 0 := by
  rw [bootMemset, moves_iff _ (by omega) (fun j hj => memset_apply mem hj) fun x hx => memset_outside hx]
  constructor
  · rintro ⟨hinside, hbehind⟩
    have hbyte : len ≤ 1 ∨ byte = 0 := by
      by_cases hlen : len ≤ 1
      · exact .inl hlen
      · exact .inr (hinside 1 (by omega)).symm
    refine ⟨hbyte, fun j hlow hhigh => ?_⟩
    rw [← hbehind j hlow hhigh]
    rcases hbyte with hone | hzero
    · rw [if_neg (by omega)]
    · rw [hzero, ite_self]
  · rintro ⟨hbyte, hbehind⟩
    refine ⟨fun i hi => ?_, fun j hlow hhigh => ?_⟩
    · rcases hbyte with hone | hzero
      · rw [if_pos (by omega)]
      · rw [hzero, ite_self]
    · rw [hbehind j hlow hhigh]
      rcases hbyte with hone | hzero
      · rw [if_neg (by omega)]
      · rw [hzero, ite_self]

theorem kernelMemset_iff :
    Moves dst len (fun _ => byte) mem (kernelMemset dst byte.toUInt32 len mem) ↔ len = 0 := by
  constructor
  · intro h
    have hend := h.returned
    rw [kernelMemset, rtSetMemory_eq] at hend
    simp only at hend
    omega
  · rintro rfl
    exact ⟨fun i hi => absurd hi (Nat.not_lt_zero i), fun x _ => rfl, rfl⟩

/-! ### `memcpy` -/

theorem kernelMemcpy_eq (hapart : src + len ≤ dst ∨ dst + len ≤ src) :
    kernelMemcpy dst src len mem = .ok (dst, Function.update (copied src dst len mem) (dst + len) 0) := by
  rw [kernelMemcpy, rtCopyMemoryAt, copyBytes_eq hapart]
  rfl

theorem kernelMemcpy_iff (hapart : src + len ≤ dst ∨ dst + len ≤ src) :
    (∃ result, kernelMemcpy dst src len mem = .ok result ∧ Moves dst len (fun i => mem (src + i)) mem result) ↔
      mem (dst + len) = 0 := by
  have hwrote : ∀ j < len + 1, Function.update (copied src dst len mem) (dst + len) 0 (dst + j) =
      if j < len then mem (src + j) else 0 := by
    intro j hj
    by_cases hlast : j = len
    · rw [hlast, Function.update_self, if_neg (Nat.lt_irrefl len)]
    · have hin : j < len := by omega
      rw [Function.update_of_ne (by omega), copied_inside hin, if_pos hin]
  have hkept : ∀ x, x < dst ∨ dst + (len + 1) ≤ x →
      Function.update (copied src dst len mem) (dst + len) 0 x = mem x := by
    intro x hx
    rw [Function.update_of_ne (by omega), copied_outside (by omega)]
  have hmoves : Moves dst len (fun i => mem (src + i)) mem
      (dst, Function.update (copied src dst len mem) (dst + len) 0) ↔ mem (dst + len) = 0 := by
    rw [moves_iff _ (Nat.le_succ len) hwrote hkept]
    constructor
    · rintro ⟨-, hbehind⟩
      rw [← hbehind len (Nat.le_refl len) (Nat.lt_succ_self len), if_neg (Nat.lt_irrefl len)]
    · intro hzero
      refine ⟨fun i hi => if_pos hi, fun j hlow hhigh => ?_⟩
      have hlast : j = len := by omega
      rw [hlast, hzero, if_neg (Nat.lt_irrefl len)]
  rw [kernelMemcpy_eq hapart]
  constructor
  · rintro ⟨result, hresult, hexact⟩
    cases hresult
    exact hmoves.mp hexact
  · intro hzero
    exact ⟨_, rfl, hmoves.mpr hzero⟩

/-- The word that byte `j` of the target comes from has been written already when byte `j` is copied. -/
def AlreadyWritten (dst src j : Nat) : Prop := dst ≤ src + j ∧ src + j < dst + 4 * (j / 4)

instance (dst src j : Nat) : Decidable (AlreadyWritten dst src j) := inferInstanceAs (Decidable (_ ∧ _))

theorem memcpy_succ (dst src len : Nat) (mem : Store) : memcpy dst src (len + 1) mem =
    (memcpy dst src len mem).put Codec.u32 (dst + 4 * len)
      ((memcpy dst src len mem).get Codec.u32 (src + 4 * len)) := by
  induction len generalizing dst src mem with
  | zero => rfl
  | succ len ih =>
    have hdst : dst + 4 + 4 * len = dst + 4 * (len + 1) := by omega
    have hsrc : src + 4 + 4 * len = src + 4 * (len + 1) := by omega
    rw [memcpy, ih, hdst, hsrc]
    rfl

theorem memcpy_forward {j : Nat} (hj : j < 4 * len) : memcpy dst src len mem (dst + j) =
    if AlreadyWritten dst src j then memcpy dst src len mem (src + j) else mem (src + j) := by
  induction len with
  | zero => omega
  | succ len ih =>
    have hkept : ∀ x < dst + 4 * len, memcpy dst src (len + 1) mem x = memcpy dst src len mem x := by
      intro x hx
      rw [memcpy_succ]
      exact Store.put_apply_outside (.inl hx)
    by_cases hearlier : j < 4 * len
    · rw [hkept _ (by omega), ih hearlier]
      by_cases hwritten : AlreadyWritten dst src j
      · have hbefore : src + j < dst + 4 * len := by
          have := hwritten.2
          omega
        rw [if_pos hwritten, if_pos hwritten, hkept _ hbefore]
      · rw [if_neg hwritten, if_neg hwritten]
    · have hplace : dst + j = dst + 4 * len + (j - 4 * len) := by omega
      have hsource : src + j = src + 4 * len + (j - 4 * len) := by omega
      have hnow : memcpy dst src (len + 1) mem (dst + j) = memcpy dst src len mem (src + j) := by
        rw [memcpy_succ, hplace, put_get_apply (by omega), ← hsource]
      have hword : 4 * (j / 4) = 4 * len := by omega
      rw [hnow]
      by_cases hwritten : AlreadyWritten dst src j
      · have hbefore : src + j < dst + 4 * len := by
          have := hwritten.2
          omega
        rw [if_pos hwritten, hkept _ hbefore]
      · rw [if_neg hwritten]
        apply memcpy_outside
        by_contra hinside
        exact hwritten ⟨by omega, by omega⟩

/-- What is to lie in byte `j` behind the target for the boot loader's `memcpy` to change nothing there. -/
def behindCopy (dst src len : Nat) (mem : Store) (j : Nat) : UInt8 :=
  if AlreadyWritten dst src j ∧ src + j < dst + len then mem (src + (src + j - dst)) else mem (src + j)

theorem not_alreadyWritten (hapart : src + len ≤ dst ∨ dst + len ≤ src) {i : Nat} (hi : i < len) :
    ¬ AlreadyWritten dst src i := by
  intro hwritten
  have := hwritten.1
  have := hwritten.2
  omega

theorem memcpy_behind (hapart : src + len ≤ dst ∨ dst + len ≤ src) {j : Nat} (hj : j < 4 * len)
    (hkept : ∀ i < j, len ≤ i → memcpy dst src len mem (dst + i) = mem (dst + i)) :
    memcpy dst src len mem (dst + j) = behindCopy dst src len mem j := by
  rw [memcpy_forward hj, behindCopy]
  by_cases hwritten : AlreadyWritten dst src j
  · obtain ⟨i, hi⟩ := Nat.exists_eq_add_of_le hwritten.1
    have hearlier : i < j := by
      have := hwritten.2
      omega
    rw [if_pos hwritten, hi]
    by_cases hcopied : i < len
    · rw [if_pos ⟨hwritten, by omega⟩, Nat.add_sub_cancel_left, memcpy_forward (by omega),
        if_neg (not_alreadyWritten hapart hcopied)]
    · rw [if_neg (by omega), hkept i hearlier (by omega)]
  · rw [if_neg hwritten, if_neg fun h => hwritten h.1]

theorem bootMemcpy_iff (hapart : src + len ≤ dst ∨ dst + len ≤ src) :
    Moves dst len (fun i => mem (src + i)) mem (bootMemcpy dst src len mem) ↔
      ∀ j, len ≤ j → j < 4 * len → mem (dst + j) = behindCopy dst src len mem j := by
  rw [bootMemcpy, moves_iff _ (by omega) (fun _ _ => rfl) fun x hx => memcpy_outside hx]
  constructor
  · rintro ⟨-, hkept⟩ j hlow hhigh
    rw [← hkept j hlow hhigh]
    exact memcpy_behind hapart hhigh fun i hi hfrom => hkept i hfrom (by omega)
  · intro hbehind
    refine ⟨fun i hi => ?_, fun j => ?_⟩
    · rw [memcpy_forward (by omega), if_neg (not_alreadyWritten hapart hi)]
    · induction j using Nat.strong_induction_on with
      | _ j ih =>
        intro hlow hhigh
        rw [hbehind j hlow hhigh]
        exact memcpy_behind hapart hhigh fun i hi hfrom => ih i hi hfrom (by omega)

/-! ### All four -/

/-- What each of the four is asked for, it does exactly when it is asked for nothing more than what it writes, or
finds there already what it writes beyond. -/
theorem primitives_exact_iff (dst src len : Nat) (byte : UInt8) (mem : Store)
    (hapart : (Span.mk src len).Disjoint ⟨dst, len⟩) :
    (Moves dst len (fun _ => byte) mem (kernelMemset dst byte.toUInt32 len mem) ↔ len = 0) ∧
    ((∃ result, kernelMemcpy dst src len mem = .ok result ∧ Moves dst len (fun i => mem (src + i)) mem result) ↔
      mem (dst + len) = 0) ∧
    (Moves dst len (fun _ => byte) mem (bootMemset dst byte.toUInt32 len mem) ↔
      (len ≤ 1 ∨ byte = 0) ∧ ∀ j, len ≤ j → j < 4 * len → mem (dst + j) = 0) ∧
    (Moves dst len (fun i => mem (src + i)) mem (bootMemcpy dst src len mem) ↔
      ∀ j, len ≤ j → j < 4 * len → mem (dst + j) = behindCopy dst src len mem j) := by
  have hends : src + len ≤ dst ∨ dst + len ≤ src := by
    rcases Nat.eq_zero_or_pos len with hnone | hsome
    · omega
    · exact (Span.disjoint_iff hsome hsome).mp hapart
  exact ⟨kernelMemset_iff, kernelMemcpy_iff hends, bootMemset_iff, bootMemcpy_iff hends⟩

/-- In a zeroed memory what is written too much is zero already: only the kernel's `memset` is not what it should
be. -/
theorem primitives_exact_zeroed :
    ¬ Moves 16 8 (fun _ => 0) (fun _ => 0) (kernelMemset 16 (0 : UInt8).toUInt32 8 fun _ => 0) ∧
    (∃ result, kernelMemcpy 16 32 8 (fun _ => 0) = .ok result ∧ Moves 16 8 (fun _ => 0) (fun _ => 0) result) ∧
    Moves 16 8 (fun _ => 0) (fun _ => 0) (bootMemset 16 (0 : UInt8).toUInt32 8 fun _ => 0) ∧
    Moves 16 8 (fun _ => 0) (fun _ => 0) (bootMemcpy 16 32 8 fun _ => 0) := by
  have hapart : (Span.mk 32 8).Disjoint ⟨16, 8⟩ := Span.Disjoint.symm (Span.disjoint_of_le (by decide))
  obtain ⟨hset, hcopy, hbootSet, hbootCopy⟩ := primitives_exact_iff 16 32 8 0 (fun _ => 0) hapart
  refine ⟨fun h => absurd (hset.mp h) (by decide), hcopy.mpr rfl, hbootSet.mpr ⟨.inr rfl, fun _ _ _ => rfl⟩, ?_⟩
  apply hbootCopy.mpr
  intro j _ _
  rw [behindCopy, ite_self]

/-- One byte set and one copied, in a memory in which every byte is the low byte of its address. -/
theorem primitives_move_too_much :
    (Span.mk 32 1).Disjoint ⟨16, 1⟩ ∧ ¬ PrimitivesExact 16 32 1 7 UInt8.ofNat := by
  refine ⟨Span.Disjoint.symm (Span.disjoint_of_le (by decide)), fun h => ?_⟩
  have hbehind := (kernelMemcpy_iff (.inr (by decide))).mp h.kernelCopy
  exact absurd hbehind (by decide)

end Words

end OpenNE

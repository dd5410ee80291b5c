import OpenNE.Base.Codec

/-!
# The interrupt descriptor table (`HALKit/AMD64/Processor.h`, `HALKit/AMD64/HalDescriptorLoader.cc`)

`IDTLoader::Load` makes a gate for every handler of the table it is given. The processor puts the three parts of the
offset together again, so that the gate of a vector leads to the handler of that vector (`Gates.enter`).
-/

namespace OpenNE

def kKernelIdtSize : Nat := 0x100
def kInterruptGate : UInt8 := 0x8E
def kIDTSelector : UInt16 := 0x08

/-- `InterruptDescriptorAMD64`. -/
structure InterruptDescriptorAMD64 where
  OffsetLow : UInt16
  Selector : UInt16
  Ist : UInt8
  TypeAttributes : UInt8
  OffsetMid : UInt16
  OffsetHigh : UInt32
  Zero : UInt32

/-- `sizeof(InterruptDescriptorAMD64)`. -/
def gateSize : Nat := 16

/-- The packed descriptor at `gate`. -/
def gateAt (mem : Store) (gate : Nat) : InterruptDescriptorAMD64 where
  OffsetLow := mem.get Codec.u16 gate
  Selector := mem.get Codec.u16 (gate + 2)
  Ist := mem.get Codec.u8 (gate + 4)
  TypeAttributes := mem.get Codec.u8 (gate + 5)
  OffsetMid := mem.get Codec.u16 (gate + 6)
  OffsetHigh := mem.get Codec.u32 (gate + 8)
  Zero := mem.get Codec.u32 (gate + 12)

/-- `ptr_ivt[idt_indx]`. -/
def handlerAt (mem : Store) (ptrIvt i : Nat) : UInt64 := mem.get Codec.u64 (ptrIvt + 8 * i)

/-- A round of the loop in `IDTLoader::Load`, in the order of its assignments. -/
def fillGate (ptrIvt table : Nat) (mem : Store) (i : Nat) : Store :=
  let gate := table + gateSize * i
  let mem := mem.put Codec.u16 (gate + 2) kIDTSelector
  let mem := mem.put Codec.u8 (gate + 4) 0
  let mem := mem.put Codec.u8 (gate + 5) kInterruptGate
  let mem := mem.put Codec.u16 gate (handlerAt mem ptrIvt i &&& 0xFFFF).toUInt16
  let mem := mem.put Codec.u16 (gate + 6) ((handlerAt mem ptrIvt i >>> 16) &&& 0xFFFF).toUInt16
  let mem := mem.put Codec.u32 (gate + 8) ((handlerAt mem ptrIvt i >>> 32) &&& 0xFFFFFFFF).toUInt32
  mem.put Codec.u32 (gate + 12) 0

/-- The loop. -/
def fillGates (ptrIvt table : Nat) (mem : Store) : Store :=
  (List.range kKernelIdtSize).foldl (fillGate ptrIvt table) mem

/-- `Register64`. -/
structure Register64 where
  Limit : UInt16
  Base : UInt64

/-- Where the processor goes for a vector: the gate has to lie below the limit, be present, and be an interrupt or a
trap gate. -/
def enter (mem : Store) (idtr : Register64) (vector : Nat) : Option (UInt16 × UInt64) :=
  let gate := gateAt mem (idtr.Base.toNat + gateSize * vector)
  if gateSize * vector + gateSize - 1 ≤ idtr.Limit.toNat ∧ gate.TypeAttributes &&& 0x9E = 0x8E then
    some (gate.Selector, UInt64.ofNat (gate.OffsetLow.toNat + 2 ^ 16 * gate.OffsetMid.toNat +
      2 ^ 32 * gate.OffsetHigh.toNat))
  else none

/-! ### The offset in three parts -/

/-- The gate of a handler. -/
def gateOf (handler : UInt64) : InterruptDescriptorAMD64 where
  OffsetLow := (handler &&& 0xFFFF).toUInt16
  Selector := kIDTSelector
  Ist := 0
  TypeAttributes := kInterruptGate
  OffsetMid := ((handler >>> 16) &&& 0xFFFF).toUInt16
  OffsetHigh := ((handler >>> 32) &&& 0xFFFFFFFF).toUInt32
  Zero := 0

theorem offset_parts (handler : UInt64) :
    UInt64.ofNat ((gateOf handler).OffsetLow.toNat + 2 ^ 16 * (gateOf handler).OffsetMid.toNat +
      2 ^ 32 * (gateOf handler).OffsetHigh.toNat) = handler := by
  have hlt := handler.toNat_lt
  have hlow : (gateOf handler).OffsetLow.toNat = handler.toNat % 2 ^ 16 := by
    have hmask : (0xFFFF : UInt64).toNat = 2 ^ 16 - 1 := rfl
    rw [gateOf, UInt64.toNat_toUInt16, UInt64.toNat_and, hmask, Nat.and_two_pow_sub_one_eq_mod]
    omega
  have hmid : (gateOf handler).OffsetMid.toNat = handler.toNat / 2 ^ 16 % 2 ^ 16 := by
    have hmask : (0xFFFF : UInt64).toNat = 2 ^ 16 - 1 := rfl
    have hshift : (handler >>> 16).toNat = handler.toNat / 2 ^ 16 := by
      rw [UInt64.toNat_shiftRight, Nat.shiftRight_eq_div_pow]
      rfl
    rw [gateOf, UInt64.toNat_toUInt16, UInt64.toNat_and, hmask, Nat.and_two_pow_sub_one_eq_mod, hshift]
    omega
  have hhigh : (gateOf handler).OffsetHigh.toNat = handler.toNat / 2 ^ 32 := by
    have hmask : (0xFFFFFFFF : UInt64).toNat = 2 ^ 32 - 1 := rfl
    have hshift : (handler >>> 32).toNat = handler.toNat / 2 ^ 32 := by
      rw [UInt64.toNat_shiftRight, Nat.shiftRight_eq_div_pow]
      rfl
    rw [gateOf, UInt64.toNat_toUInt32, UInt64.toNat_and, hmask, Nat.and_two_pow_sub_one_eq_mod, hshift]
    omega
  rw [hlow, hmid, hhigh]
  apply UInt64.toNat_inj.mp
  rw [UInt64.toNat_ofNat']
  omega

/-! ### The loop -/

section Loop

variable {ptrIvt table i j x : Nat} {mem : Store}

theorem fillGate_outside (h : x < table + gateSize * i ∨ table + gateSize * i + gateSize ≤ x) :
    fillGate ptrIvt table mem i x = mem x := by
  have hu8 : Codec.u8.size = 1 := rfl
  have hu16 : Codec.u16.size = 2 := rfl
  have hu32 : Codec.u32.size = 4 := rfl
  have hsize : gateSize = 16 := rfl
  unfold fillGate
  rw [Store.put_apply_outside, Store.put_apply_outside, Store.put_apply_outside, Store.put_apply_outside,
    Store.put_apply_outside, Store.put_apply_outside, Store.put_apply_outside]
  all_goals omega

/-- The handlers stand behind the table or in front of it. -/
def Apart (ptrIvt table : Nat) : Prop :=
  ptrIvt + 8 * kKernelIdtSize ≤ table ∨ table + gateSize * kKernelIdtSize ≤ ptrIvt

theorem handlerAt_congr {mem' : Store} (hapart : Apart ptrIvt table) (hi : i < kKernelIdtSize)
    (h : ∀ x, x < table ∨ table + gateSize * kKernelIdtSize ≤ x → mem' x = mem x) :
    handlerAt mem' ptrIvt i = handlerAt mem ptrIvt i := by
  have hu64 : Codec.u64.size = 8 := rfl
  apply Store.get_congr
  intro x hx hlt
  apply h
  unfold Apart at hapart
  omega

theorem gateAt_fillGate (hapart : Apart ptrIvt table) (hi : i < kKernelIdtSize) :
    gateAt (fillGate ptrIvt table mem i) (table + gateSize * i) = gateOf (handlerAt mem ptrIvt i) := by
  have hu8 : Codec.u8.size = 1 := rfl
  have hu16 : Codec.u16.size = 2 := rfl
  have hu32 : Codec.u32.size = 4 := rfl
  have hu64 : Codec.u64.size = 8 := rfl
  have hsize : gateSize = 16 := rfl
  have hapart' : ptrIvt + 8 * 256 ≤ table ∨ table + 16 * 256 ≤ ptrIvt := hapart
  have hi' : i < 256 := hi
  unfold gateAt gateOf fillGate handlerAt
  simp (disch := omega) only [hsize, Store.get_put_disjoint, Store.get_put_same]

theorem gateAt_congr {mem' : Store} {gate : Nat} (h : ∀ x, gate ≤ x → x < gate + gateSize → mem' x = mem x) :
    gateAt mem' gate = gateAt mem gate := by
  have hu8 : Codec.u8.size = 1 := rfl
  have hu16 : Codec.u16.size = 2 := rfl
  have hu32 : Codec.u32.size = 4 := rfl
  have hsize : gateSize = 16 := rfl
  have hfield : ∀ {α : Type} (c : Codec α) (k : Nat), k + c.size ≤ 16 → mem'.get c (gate + k) = mem.get c (gate + k) :=
    fun c k hk => Store.get_congr fun x hx hlt => h x (by omega) (by omega)
  unfold gateAt
  rw [hfield Codec.u16 2 (by omega), hfield Codec.u8 4 (by omega), hfield Codec.u8 5 (by omega),
    hfield Codec.u16 6 (by omega), hfield Codec.u32 8 (by omega), hfield Codec.u32 12 (by omega)]
  have hlow := hfield Codec.u16 0 (by omega)
  rw [Nat.add_zero] at hlow
  rw [hlow]

/-- The table at `table` leads to the handlers. -/
def Gates (mem : Store) (table : Nat) (handler : Nat → UInt64) : Prop :=
  ∀ v < kKernelIdtSize, gateAt mem (table + gateSize * v) = gateOf (handler v)

theorem Gates.congr {mem' : Store} {handler : Nat → UInt64} (hgates : Gates mem table handler)
    (h : ∀ x, table ≤ x → x < table + gateSize * kKernelIdtSize → mem' x = mem x) : Gates mem' table handler := by
  intro v hv
  have hsize : gateSize = 16 := rfl
  have hv' : v < 256 := hv
  have hcount : gateSize * kKernelIdtSize = 4096 := rfl
  rw [← hgates v hv]
  apply gateAt_congr
  intro x hx hlt
  rw [hsize] at hx hlt
  exact h x (by omega) (by omega)

theorem fillGates_rounds (hapart : Apart ptrIvt table) (n : Nat) (hn : n ≤ kKernelIdtSize) :
    (∀ x, x < table ∨ table + gateSize * n ≤ x → (List.range n).foldl (fillGate ptrIvt table) mem x = mem x) ∧
      ∀ i < n, gateAt ((List.range n).foldl (fillGate ptrIvt table) mem) (table + gateSize * i) =
        gateOf (handlerAt mem ptrIvt i) := by
  have hsize : gateSize = 16 := rfl
  induction n with
  | zero => exact ⟨fun x _ => rfl, fun i hi => absurd hi (Nat.not_lt_zero i)⟩
  | succ n ih =>
    obtain ⟨hout, hgate⟩ := ih (Nat.le_of_succ_le hn)
    rw [List.range_succ, List.foldl_append]
    refine ⟨fun x hx => ?_, fun i hi => ?_⟩
    · rw [hsize] at hx hout
      refine (fillGate_outside ?_).trans (hout x (by omega))
      rw [hsize]
      omega
    · rcases Nat.lt_or_eq_of_le (Nat.le_of_lt_succ hi) with hlt | rfl
      · rw [← hgate i hlt]
        refine gateAt_congr fun x hx hlt' => fillGate_outside ?_
        rw [hsize] at hx hlt' ⊢
        omega
      · have hn' : i < kKernelIdtSize := hn
        refine (gateAt_fillGate hapart hn').trans ?_
        have hcount : gateSize * kKernelIdtSize = 4096 := rfl
        have hn'' : i < 256 := hn
        rw [hsize] at hout
        rw [handlerAt_congr hapart hn' fun x hx => hout x (by omega)]

theorem fillGates_gates (hapart : Apart ptrIvt table) :
    Gates (fillGates ptrIvt table mem) table (handlerAt mem ptrIvt) :=
  (fillGates_rounds hapart kKernelIdtSize (Nat.le_refl _)).2

theorem Gates.enter {handler : Nat → UInt64} {idtr : Register64} (hgates : Gates mem table handler)
    (hbase : idtr.Base.toNat = table) (hlimit : gateSize * kKernelIdtSize ≤ idtr.Limit.toNat + 1) {v : Nat}
    (hv : v < kKernelIdtSize) : enter mem idtr v = some (kIDTSelector, handler v) := by
  have hcount : gateSize * kKernelIdtSize = 4096 := rfl
  have hsize : gateSize = 16 := rfl
  have hv' : v < 256 := hv
  have hpresent : kInterruptGate &&& 0x9E = 0x8E := by decide
  unfold OpenNE.enter
  rw [hbase, hgates v hv]
  have hfits : gateSize * v + gateSize - 1 ≤ idtr.Limit.toNat := by
    rw [hsize]
    omega
  exact (if_pos ⟨hfits, hpresent⟩).trans (congrArg (fun offset => some (kIDTSelector, offset)) (offset_parts _))

end Loop

end OpenNE

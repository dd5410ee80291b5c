import OpenNE.Base.Exec
import OpenNE.Base.Run
import OpenNE.Interrupt.Gate
import Mathlib.Logic.Function.Basic

/-!
# Interrupt delivery (`HALKit/AMD64/HalDescriptorLoader.cc`, `HALKit/AMD64/HalInterruptAPI.asm`)

The two interrupt controllers are seen through their ports: they have a first vector, a mask and what is in service,
and take the initialisation words one by one. `IDTLoader::Load` sends them, from whatever state the controllers are in,
and every routine of `HalInterruptAPI.asm` acknowledges. So between interrupts nothing is in service, and the machine is
one of sixteen lines that are masked or go to their handlers (`interrupts_iff`).
-/

namespace OpenNE

def kPITControlPort : UInt16 := 0x43
def kPITChannel0Port : UInt16 := 0x40
def kPITFrequency : UInt32 := 1193180
def kPICCommand : UInt16 := 0x20
def kPICData : UInt16 := 0x21
def kPIC2Command : UInt16 := 0xA0
def kPIC2Data : UInt16 := 0xA1
def kPITDefaultTicks : UInt16 := 1000

/-! ### The devices -/

/-- The initialisation words behind the first. -/
inductive Icw where
  | vector
  | cascade
  | mode

/-- An interrupt controller: its first vector, its mask, what is in service, and the initialisation words due. -/
structure Pic where
  irqBase : UInt8
  mask : UInt8
  inService : UInt8
  due : List Icw

/-- A byte to the command port: the first initialisation word, or the end of the interrupt with the highest priority. -/
def Pic.command (pic : Pic) (value : UInt8) : Pic :=
  if value &&& 0x10 ≠ 0 then
    { pic with
      mask := 0
      inService := 0
      due := .vector :: (if value &&& 0x02 ≠ 0 then [] else [.cascade]) ++
        (if value &&& 0x01 ≠ 0 then [.mode] else []) }
  else if value = 0x20 then { pic with inService := pic.inService &&& (pic.inService - 1) }
  else pic

/-- A byte to the data port: the next initialisation word, or the mask. -/
def Pic.data (pic : Pic) (value : UInt8) : Pic :=
  match pic.due with
  | .vector :: due => { pic with irqBase := value &&& 0xF8, due := due }
  | _ :: due => { pic with due := due }
  | [] => { pic with mask := value }

/-- Channel 0 of the timer: the low byte waiting for the high one, and the divisor. -/
structure Pit where
  low : Option UInt8
  divisor : UInt16

/-- A control byte for channel 0, low byte first. -/
def Pit.control (pit : Pit) (value : UInt8) : Pit := if value &&& 0xF0 = 0x30 then { pit with low := none } else pit

def Pit.channel0 (pit : Pit) (value : UInt8) : Pit :=
  match pit.low with
  | none => { pit with low := some value }
  | some low => ⟨none, low.toUInt16 ||| (value.toUInt16 <<< 8)⟩

/-- The memory, the processor's table register and interrupt flag, and the devices. -/
structure Interrupts where
  mem : Store
  idtr : Register64
  interruptFlag : Bool
  master : Pic
  slave : Pic
  pit : Pit

namespace Interrupts

/-- `rt_out8`. -/
def rtOut8 (port : UInt16) (value : UInt8) (m : Interrupts) : Interrupts :=
  if port = kPICCommand then { m with master := m.master.command value }
  else if port = kPICData then { m with master := m.master.data value }
  else if port = kPIC2Command then { m with slave := m.slave.command value }
  else if port = kPIC2Data then { m with slave := m.slave.data value }
  else if port = kPITControlPort then { m with pit := m.pit.control value }
  else if port = kPITChannel0Port then { m with pit := m.pit.channel0 value }
  else m

/-- `rt_in8` of the two ports that are read. -/
def rtIn8 (port : UInt16) (m : Interrupts) : UInt8 := if port = kPICData then m.master.mask else m.slave.mask

/-! ### `HalDescriptorLoader.cc` -/

/-- `1 << irql`, of an `int`: not defined from 32 on. -/
def shiftOne (irql : UInt8) : Exec UInt32 := if irql < 32 then .ok (1 <<< irql.toUInt32) else .error .fault

/-- The two functions below: the mask read from the port of the line and written back with its bit combined in. -/
def halIrqMask (combine : UInt32 → UInt32 → UInt32) (irql : UInt8) (m : Interrupts) : Exec Interrupts := do
  let (port, irql) := if irql < 8 then (kPICData, irql) else (kPIC2Data, irql - 8)
  let bit ← shiftOne irql
  let value := (combine (m.rtIn8 port).toUInt32 bit).toUInt8
  return m.rtOut8 port value

/-- `hal_set_irq_mask`. -/
def halSetIrqMask : UInt8 → Interrupts → Exec Interrupts := halIrqMask fun mask bit => mask ||| bit

/-- `hal_clear_irq_mask`. -/
def halClearIrqMask : UInt8 → Interrupts → Exec Interrupts := halIrqMask fun mask bit => mask &&& ~~~bit

/-- `hal_enable_pit`. -/
def halEnablePit (ticks : UInt16) (m : Interrupts) : Exec Interrupts :=
  let ticks := if ticks = 0 then kPITDefaultTicks else ticks
  let kPITCommDivisor := (kPITFrequency / ticks.toUInt32).toUInt16
  let m := m.rtOut8 kPITControlPort 0x36
  let m := m.rtOut8 kPITChannel0Port (kPITCommDivisor &&& 0xFF).toUInt8
  let m := m.rtOut8 kPITChannel0Port ((kPITCommDivisor >>> 8) &&& 0xFF).toUInt8
  m.halClearIrqMask 32

/-- `hal_load_idt`. -/
def halLoadIdt (idt : Register64) (m : Interrupts) : Interrupts :=
  let m := { m with idtr := idt }
  let m := m.rtOut8 0x20 0x11
  let m := m.rtOut8 0xA0 0x11
  let m := m.rtOut8 0x21 0x20
  let m := m.rtOut8 0xA1 0x28
  let m := m.rtOut8 0x21 0x04
  let m := m.rtOut8 0xA1 0x02
  let m := m.rtOut8 0x21 0x01
  m.rtOut8 0xA1 0x01

/-- `IDTLoader::Load`, with the descriptors at `table`. -/
def load (table : UInt64) (idt : Register64) (m : Interrupts) : Exec Interrupts := do
  let m := { m with interruptFlag := false }
  let m := { m with mem := fillGates idt.Base.toNat table.toNat m.mem }
  let idt := ⟨UInt16.ofNat (gateSize * kKernelIdtSize), table⟩
  let m := m.halLoadIdt idt
  let m ← m.halEnablePit kPITDefaultTicks
  return { m with interruptFlag := true }

/-! ### Interrupts -/

end Interrupts

/-- The line is masked. -/
def Pic.masks (pic : Pic) (line : Nat) : Bool := pic.mask.toNat.testBit line

/-- A line of the controller is let through: it is set up, the line is not masked, and nothing of its priority or above
is in service. -/
def Pic.accepts (pic : Pic) (line : Nat) : Bool :=
  pic.due.isEmpty && !pic.masks line && pic.inService.toNat % 2 ^ (line + 1) == 0

/-- The line is in service. -/
def Pic.serve (pic : Pic) (line : Nat) : Pic := { pic with inService := pic.inService ||| UInt8.ofNat (2 ^ line) }

namespace Interrupts

/-- The controllers hand a request of the line on to the processor, with its vector. The second one is on line 2 of the
first. -/
def accept (line : Fin 16) (m : Interrupts) : Option (Nat × Interrupts) :=
  if m.interruptFlag = false then none
  else if line.1 < 8 then
    if m.master.accepts line.1 then
      some (m.master.irqBase.toNat + line.1, { m with master := m.master.serve line.1 })
    else none
  else if m.slave.accepts (line.1 - 8) ∧ m.master.accepts 2 then
    some (m.slave.irqBase.toNat + (line.1 - 8),
      { m with master := m.master.serve 2, slave := m.slave.serve (line.1 - 8) })
  else none

/-- What the routine of the vector in `HalInterruptAPI.asm` sends to the controllers. -/
def acknowledge (vector : Nat) (m : Interrupts) : Interrupts :=
  let m := if vector < 8 then m else m.rtOut8 0xA0 0x20
  m.rtOut8 0x20 0x20

end Interrupts

/-- What happens: a line masked or unmasked, a request of a line with the place the processor went to if it was let
through, an exception or an interrupt instruction of the kernel, and a write. -/
inductive InterruptOp where
  | setMask (irql : UInt8)
  | clearMask (irql : UInt8)
  | irq (line : Fin 16) (entered : Option (UInt16 × UInt64))
  | exception (vector : Fin 256) (entered : UInt16 × UInt64)
  | write (addr : Nat) (bs : List UInt8)

/-- The write is not into the table. -/
def OutsideTable (table addr : Nat) (bs : List UInt8) : Prop :=
  addr + bs.length ≤ table ∨ table + gateSize * kKernelIdtSize ≤ addr

/-- The machine with its descriptors at `table`. Interrupts come one after the other, since a gate clears the flag until
its routine has returned. -/
inductive InterruptStep (table : Nat) : Interrupts → InterruptOp → Interrupts → Prop
  | setMask {m m' : Interrupts} {irql : UInt8} (hcall : m.halSetIrqMask irql = .ok m') :
      InterruptStep table m (.setMask irql) m'
  | clearMask {m m' : Interrupts} {irql : UInt8} (hcall : m.halClearIrqMask irql = .ok m') :
      InterruptStep table m (.clearMask irql) m'
  | irq {m m' : Interrupts} {line : Fin 16} {vector : Nat} {entered : UInt16 × UInt64}
      (haccept : m.accept line = some (vector, m')) (henter : enter m.mem m.idtr vector = some entered) :
      InterruptStep table m (.irq line (some entered)) (m'.acknowledge vector)
  | held {m : Interrupts} {line : Fin 16} (haccept : m.accept line = none) : InterruptStep table m (.irq line none) m
  | exception {m : Interrupts} {vector : Fin 256} {entered : UInt16 × UInt64}
      (henter : enter m.mem m.idtr vector.1 = some entered) :
      InterruptStep table m (.exception vector entered) (m.acknowledge vector.1)
  | write {m : Interrupts} {addr : Nat} {bs : List UInt8} (houtside : OutsideTable table addr bs) :
      InterruptStep table m (.write addr bs) { m with mem := m.mem.write addr bs }

/-- Sixteen lines, masked or not, and 256 handlers. -/
inductive LineStep (table : Nat) (handler : Nat → UInt64) : (Fin 16 → Bool) → InterruptOp → (Fin 16 → Bool) → Prop
  | setMask {masked : Fin 16 → Bool} {irql : UInt8} (hirql : irql.toNat < 40) :
      LineStep table handler masked (.setMask irql) fun line => masked line || line.1 == irql.toNat
  | clearMask {masked : Fin 16 → Bool} {irql : UInt8} (hirql : irql.toNat < 40) :
      LineStep table handler masked (.clearMask irql) fun line => masked line && line.1 != irql.toNat
  | irq {masked : Fin 16 → Bool} {line : Fin 16} (hline : masked line = false)
      (hcascade : 8 ≤ line.1 → masked 2 = false) :
      LineStep table handler masked (.irq line (some (kIDTSelector, handler (32 + line.1)))) masked
  | held {masked : Fin 16 → Bool} {line : Fin 16} (hmasked : masked line = true ∨ 8 ≤ line.1 ∧ masked 2 = true) :
      LineStep table handler masked (.irq line none) masked
  | exception {masked : Fin 16 → Bool} {vector : Fin 256} :
      LineStep table handler masked (.exception vector (kIDTSelector, handler vector.1)) masked
  | write {masked : Fin 16 → Bool} {addr : Nat} {bs : List UInt8} (houtside : OutsideTable table addr bs) :
      LineStep table handler masked (.write addr bs) masked

/-! ### Set up -/

/-- A controller that is set up, with nothing in service. -/
structure Pic.Idle (pic : Pic) (irqBase : UInt8) : Prop where
  irqBase : pic.irqBase = irqBase
  inService : pic.inService = 0
  due : pic.due = []

/-- The lines as the two masks have them. -/
def Interrupts.masks (m : Interrupts) (line : Fin 16) : Bool :=
  if line.1 < 8 then m.master.masks line.1 else m.slave.masks (line.1 - 8)

/-- The machine behind `IDTLoader::Load`, between two interrupts. -/
structure Serving (table : Nat) (handler : Nat → UInt64) (m : Interrupts) : Prop where
  gates : Gates m.mem table handler
  base : m.idtr.Base.toNat = table
  limit : m.idtr.Limit.toNat = gateSize * kKernelIdtSize
  interruptFlag : m.interruptFlag = true
  master : m.master.Idle 32
  slave : m.slave.Idle 40

section Bits

variable {mask irql : UInt8} {j : Nat}

theorem toNat_one_shiftLeft (h : irql < 32) : (1 <<< irql.toUInt32 : UInt32).toNat = 2 ^ irql.toNat := by
  have hlt : irql.toNat < 32 := UInt8.lt_iff_toNat_lt.mp h
  have hpow : 2 ^ irql.toNat < 2 ^ 32 := Nat.pow_lt_pow_right (by decide) hlt
  have hone : (1 : UInt32).toNat = 1 := rfl
  rw [UInt32.toNat_shiftLeft, UInt8.toNat_toUInt32, Nat.mod_eq_of_lt hlt, Nat.shiftLeft_eq, hone, Nat.one_mul,
    Nat.mod_eq_of_lt hpow]

theorem testBit_set (h : irql < 32) (hj : j < 8) :
    (mask.toUInt32 ||| (1 <<< irql.toUInt32)).toUInt8.toNat.testBit j =
      (mask.toNat.testBit j || j == irql.toNat) := by
  rw [UInt32.toNat_toUInt8, Nat.testBit_mod_two_pow, UInt32.toNat_or, Nat.testBit_or, UInt8.toNat_toUInt32,
    toNat_one_shiftLeft h, Nat.testBit_two_pow]
  simp [hj, eq_comm, Bool.beq_eq_decide_eq]

theorem testBit_clear (h : irql < 32) (hj : j < 8) :
    (mask.toUInt32 &&& ~~~(1 <<< irql.toUInt32)).toUInt8.toNat.testBit j =
      (mask.toNat.testBit j && j != irql.toNat) := by
  have hj' : j < 32 := by omega
  rw [UInt32.toNat_toUInt8, Nat.testBit_mod_two_pow, UInt32.toNat_and, Nat.testBit_and, UInt8.toNat_toUInt32,
    ← UInt32.toNat_toBitVec (~~~ _), UInt32.toBitVec_not, BitVec.testBit_toNat, BitVec.getLsbD_not,
    ← BitVec.testBit_toNat, UInt32.toNat_toBitVec, toNat_one_shiftLeft h, Nat.testBit_two_pow]
  simp [hj, hj', eq_comm, bne, Bool.beq_eq_decide_eq]

end Bits

theorem Pic.data_mask {pic : Pic} (h : pic.due = []) (value : UInt8) : pic.data value = { pic with mask := value } := by
  obtain ⟨irqBase, mask, inService, due⟩ := pic
  obtain rfl : due = [] := h
  rfl

theorem Pic.setUp (pic : Pic) (irqBase cascade mode : UInt8) :
    (((pic.command 0x11).data irqBase).data cascade).data mode = ⟨irqBase &&& 0xF8, 0, 0, []⟩ := rfl

namespace Interrupts

variable {m : Interrupts} (value : UInt8)

theorem rtOut8_command : m.rtOut8 0x20 value = { m with master := m.master.command value } := rfl
theorem rtOut8_data : m.rtOut8 0x21 value = { m with master := m.master.data value } := rfl
theorem rtOut8_command2 : m.rtOut8 0xA0 value = { m with slave := m.slave.command value } := rfl
theorem rtOut8_data2 : m.rtOut8 0xA1 value = { m with slave := m.slave.data value } := rfl
theorem rtOut8_control : m.rtOut8 kPITControlPort value = { m with pit := m.pit.control value } := rfl
theorem rtOut8_channel0 : m.rtOut8 kPITChannel0Port value = { m with pit := m.pit.channel0 value } := rfl

theorem halLoadIdt_eq (idt : Register64) :
    m.halLoadIdt idt = { m with idtr := idt, master := ⟨32, 0, 0, []⟩, slave := ⟨40, 0, 0, []⟩ } := by
  unfold halLoadIdt
  simp only [rtOut8_command, rtOut8_command2, rtOut8_data, rtOut8_data2]
  rw [Pic.setUp, Pic.setUp]
  rfl

theorem halClearIrqMask_timer (hslave : m.slave = ⟨40, 0, 0, []⟩) : m.halClearIrqMask 32 = .ok m := by
  have hbit : shiftOne (32 - 8) = .ok (0x1000000 : UInt32) := rfl
  have hvalue : ((0 : UInt8).toUInt32 &&& ~~~(0x1000000 : UInt32)).toUInt8 = 0 := by decide
  have hport : (if (32 : UInt8) < 8 then (kPICData, (32 : UInt8)) else (kPIC2Data, 32 - 8)) = (kPIC2Data, 32 - 8) := rfl
  obtain ⟨mem, idtr, interruptFlag, master, slave, pit⟩ := m
  obtain rfl : slave = ⟨40, 0, 0, []⟩ := hslave
  unfold halClearIrqMask halIrqMask
  simp only [hport, hbit, Exec.ok_bind]
  exact congrArg (fun value => Except.ok (Interrupts.rtOut8 kPIC2Data value _)) hvalue

theorem halEnablePit_eq (hslave : m.slave = ⟨40, 0, 0, []⟩) :
    m.halEnablePit kPITDefaultTicks = .ok { m with pit := ⟨none, 1193⟩ } := by
  have hpit : ((m.pit.control 0x36).channel0 0xA9).channel0 0x04 = ⟨none, 1193⟩ := rfl
  have hlow : (((kPITFrequency / kPITDefaultTicks.toUInt32).toUInt16) &&& 0xFF).toUInt8 = 0xA9 := by decide
  have hhigh : (((kPITFrequency / kPITDefaultTicks.toUInt32).toUInt16 >>> 8) &&& 0xFF).toUInt8 = 0x04 := by decide
  have hticks : ¬kPITDefaultTicks = 0 := by decide
  unfold halEnablePit
  simp only [rtOut8_control, rtOut8_channel0, if_neg hticks, hlow, hhigh, hpit]
  exact halClearIrqMask_timer hslave

theorem load_eq (table : UInt64) (idt : Register64) :
    m.load table idt = .ok
      { mem := fillGates idt.Base.toNat table.toNat m.mem
        idtr := ⟨4096, table⟩
        interruptFlag := true
        master := ⟨32, 0, 0, []⟩
        slave := ⟨40, 0, 0, []⟩
        pit := ⟨none, 1193⟩ } := by
  unfold load
  simp only [halLoadIdt_eq]
  rw [halEnablePit_eq rfl, Exec.ok_bind, Exec.pure_eq_ok]
  have hlimit : UInt16.ofNat (gateSize * kKernelIdtSize) = 4096 := by decide
  rw [hlimit]

end Interrupts

namespace Serving

variable {table : Nat} {handler : Nat → UInt64} {m m' : Interrupts} {irql : UInt8} {line : Fin 16}

theorem of_load {table : UInt64} {idt : Register64} {m m' : Interrupts} (hapart : Apart idt.Base.toNat table.toNat)
    (h : m.load table idt = .ok m') :
    Serving table.toNat (handlerAt m.mem idt.Base.toNat) m' ∧ m'.masks = fun _ => false := by
  rw [Interrupts.load_eq] at h
  cases h
  have hlimit : (4096 : UInt16).toNat = gateSize * kKernelIdtSize := by decide
  have hgates : Gates (fillGates idt.Base.toNat table.toNat m.mem) table.toNat (handlerAt m.mem idt.Base.toNat) :=
    fillGates_gates hapart
  constructor
  · refine ⟨?_, rfl, ?_, rfl, ⟨rfl, rfl, rfl⟩, ⟨rfl, rfl, rfl⟩⟩
    · dsimp only
      exact hgates
    · exact hlimit
  · funext line
    unfold Interrupts.masks Pic.masks
    simp

/-! ### One step -/

theorem out_data (hs : Serving table handler m) (value : UInt8) :
    m.rtOut8 kPICData value = { m with master := { m.master with mask := value } } ∧
      m.rtOut8 kPIC2Data value = { m with slave := { m.slave with mask := value } } := by
  rw [← Pic.data_mask hs.master.due, ← Pic.data_mask hs.slave.due]
  exact ⟨rfl, rfl⟩

theorem with_masks (hs : Serving table handler m) (value value' : UInt8) :
    Serving table handler { m with
      master := { m.master with mask := value }
      slave := { m.slave with mask := value' } } :=
  ⟨hs.gates, hs.base, hs.limit, hs.interruptFlag, ⟨hs.master.irqBase, hs.master.inService, hs.master.due⟩,
    ⟨hs.slave.irqBase, hs.slave.inService, hs.slave.due⟩⟩

theorem halIrqMask_eq (hs : Serving table handler m) {combine : UInt32 → UInt32 → UInt32} {g : Bool → Bool → Bool}
    (hbit : ∀ (mask irql : UInt8) (j : Nat), irql < 32 → j < 8 →
      (combine mask.toUInt32 (1 <<< irql.toUInt32)).toUInt8.toNat.testBit j =
        g (mask.toNat.testBit j) (j == irql.toNat))
    (hother : ∀ b, g b false = b) (irql : UInt8) :
    (irql.toNat < 40 ∧ ∃ m', Interrupts.halIrqMask combine irql m = .ok m' ∧ Serving table handler m' ∧
        m'.masks = fun line => g (m.masks line) (line.1 == irql.toNat)) ∨
      ¬irql.toNat < 40 ∧ Interrupts.halIrqMask combine irql m = .error .fault := by
  unfold Interrupts.halIrqMask Interrupts.shiftOne
  by_cases hlow : irql < 8
  · have hlow' : irql.toNat < 8 := UInt8.lt_iff_toNat_lt.mp hlow
    have hshift : irql < 32 := UInt8.lt_iff_toNat_lt.mpr (Nat.lt_trans hlow' (by decide))
    left
    rw [if_pos hlow]
    simp only [if_pos hshift, Exec.ok_bind]
    refine ⟨Nat.lt_trans hlow' (by decide), _, rfl, ?_, ?_⟩
    · rw [(hs.out_data _).1]
      exact hs.with_masks _ m.slave.mask
    · rw [(hs.out_data _).1]
      funext line
      unfold Interrupts.masks
      split_ifs with hline
      · exact hbit m.master.mask irql line.1 hshift hline
      · have hne : (line.1 == irql.toNat) = false := by
          rw [beq_eq_false_iff_ne]
          omega
        rw [hne, hother]
  · have hle : (8 : UInt8) ≤ irql := UInt8.not_lt.mp hlow
    have hsub : (irql - 8).toNat = irql.toNat - 8 := UInt8.toNat_sub_of_le _ _ hle
    have hle' : 8 ≤ irql.toNat := UInt8.le_iff_toNat_le.mp hle
    rw [if_neg hlow]
    by_cases hshift : irql - 8 < 32
    · have hlt : irql.toNat < 40 := by
        have hlt := UInt8.lt_iff_toNat_lt.mp hshift
        rw [hsub] at hlt
        have hmax : (32 : UInt8).toNat = 32 := rfl
        omega
      left
      simp only [if_pos hshift, Exec.ok_bind]
      refine ⟨hlt, _, rfl, ?_, ?_⟩
      · rw [(hs.out_data _).2]
        exact hs.with_masks m.master.mask _
      · rw [(hs.out_data _).2]
        funext line
        unfold Interrupts.masks
        split_ifs with hline
        · have hne : (line.1 == irql.toNat) = false := by
            rw [beq_eq_false_iff_ne]
            omega
          rw [hne, hother]
        · have hpos : line.1 - 8 < 8 := by omega
          refine (hbit m.slave.mask (irql - 8) (line.1 - 8) hshift hpos).trans ?_
          have hsame : (line.1 - 8 == (irql - 8).toNat) = (line.1 == irql.toNat) := by
            rw [hsub, Bool.eq_iff_iff, beq_iff_eq, beq_iff_eq]
            omega
          rw [hsame]
          rfl
    · right
      simp only [if_neg hshift]
      refine ⟨?_, rfl⟩
      have hge := UInt8.le_iff_toNat_le.mp (UInt8.not_lt.mp hshift)
      rw [hsub] at hge
      have hmax : (32 : UInt8).toNat = 32 := rfl
      omega

theorem halSetIrqMask_eq (hs : Serving table handler m) (irql : UInt8) :
    (irql.toNat < 40 ∧ ∃ m', m.halSetIrqMask irql = .ok m' ∧ Serving table handler m' ∧
        m'.masks = fun line => m.masks line || line.1 == irql.toNat) ∨
      ¬irql.toNat < 40 ∧ m.halSetIrqMask irql = .error .fault := by
  apply hs.halIrqMask_eq (g := fun b c => b || c)
  · intro mask irql j hirql hj
    exact testBit_set hirql hj
  · exact Bool.or_false

theorem halClearIrqMask_eq (hs : Serving table handler m) (irql : UInt8) :
    (irql.toNat < 40 ∧ ∃ m', m.halClearIrqMask irql = .ok m' ∧ Serving table handler m' ∧
        m'.masks = fun line => m.masks line && line.1 != irql.toNat) ∨
      ¬irql.toNat < 40 ∧ m.halClearIrqMask irql = .error .fault := by
  apply hs.halIrqMask_eq (g := fun b c => b && !c)
  · intro mask irql j hirql hj
    exact testBit_clear hirql hj
  · exact Bool.and_true

end Serving

/-! ### Interrupts -/

section Service

variable {pic : Pic} {irqBase : UInt8} {line : Nat}

theorem Pic.Idle.accepts_eq (h : pic.Idle irqBase) : pic.accepts line = !pic.masks line := by
  unfold Pic.accepts
  rw [h.due, h.inService]
  simp

theorem Pic.Idle.command_end (h : pic.Idle irqBase) : pic.command 0x20 = pic := by
  obtain ⟨base, mask, inService, due⟩ := pic
  obtain rfl : inService = 0 := h.inService
  have hend : (0 : UInt8) &&& (0 - 1) = 0 := by decide
  exact congrArg (fun inService => Pic.mk base mask inService due) hend

theorem Pic.Idle.serve_command (h : pic.Idle irqBase) (hline : line < 8) : (pic.serve line).command 0x20 = pic := by
  obtain ⟨base, mask, inService, due⟩ := pic
  obtain rfl : inService = 0 := h.inService
  have hend : ∀ k < 8, (0 ||| UInt8.ofNat (2 ^ k)) &&& ((0 ||| UInt8.ofNat (2 ^ k)) - 1) = 0 := by decide
  exact congrArg (fun inService => Pic.mk base mask inService due) (hend line hline)

end Service

namespace Serving

variable {table : Nat} {handler : Nat → UInt64} {m m' : Interrupts}

theorem enter_eq (hs : Serving table handler m) {vector : Nat} (hvector : vector < kKernelIdtSize) :
    enter m.mem m.idtr vector = some (kIDTSelector, handler vector) := by
  refine hs.gates.enter hs.base ?_ hvector
  rw [hs.limit]
  exact Nat.le_succ _

theorem acknowledge_eq (hs : Serving table handler m) (vector : Nat) : m.acknowledge vector = m := by
  unfold Interrupts.acknowledge
  have hslave : m.rtOut8 0xA0 0x20 = m := by
    rw [Interrupts.rtOut8_command2, hs.slave.command_end]
  have hmaster : m.rtOut8 0x20 0x20 = m := by
    rw [Interrupts.rtOut8_command, hs.master.command_end]
  by_cases hvector : vector < 8
  · rw [if_pos hvector]
    exact hmaster
  · rw [if_neg hvector, hslave]
    exact hmaster

theorem accept_eq (hs : Serving table handler m) (line : Fin 16) :
    (m.masks line = true ∨ 8 ≤ line.1 ∧ m.masks 2 = true) ∧ m.accept line = none ∨
      (m.masks line = false ∧ (8 ≤ line.1 → m.masks 2 = false)) ∧
        ∃ m', m.accept line = some (32 + line.1, m') ∧ m'.acknowledge (32 + line.1) = m := by
  have hack : ∀ m : Interrupts, m.acknowledge (32 + line.1) = (m.rtOut8 0xA0 0x20).rtOut8 0x20 0x20 := by
    intro m
    have hvector : ¬32 + line.1 < 8 := by omega
    exact congrArg (Interrupts.rtOut8 0x20 0x20) (if_neg hvector)
  have hcascade : m.masks 2 = m.master.masks 2 := rfl
  have hflag : ¬m.interruptFlag = false := by
    rw [hs.interruptFlag]
    exact Bool.noConfusion
  unfold Interrupts.accept
  rw [if_neg hflag, hcascade, hs.master.accepts_eq, hs.master.accepts_eq, hs.slave.accepts_eq]
  by_cases hlow : line.1 < 8
  · have hmasks : m.masks line = m.master.masks line.1 := if_pos hlow
    rw [if_pos hlow, hmasks]
    cases hmask : m.master.masks line.1 with
    | true => exact .inl ⟨.inl rfl, rfl⟩
    | false =>
      refine .inr ⟨⟨rfl, fun hge => absurd hlow (by omega)⟩, { m with master := m.master.serve line.1 }, ?_, ?_⟩
      · rw [hs.master.irqBase]
        rfl
      · rw [hack, Interrupts.rtOut8_command2, Interrupts.rtOut8_command]
        simp only [hs.slave.command_end, hs.master.serve_command hlow]
  · have hmasks : m.masks line = m.slave.masks (line.1 - 8) := if_neg hlow
    have hpos : line.1 - 8 < 8 := by omega
    rw [if_neg hlow, hmasks]
    cases hmask : m.slave.masks (line.1 - 8) with
    | true => exact .inl ⟨.inl rfl, rfl⟩
    | false =>
      cases hmask' : m.master.masks 2 with
      | true => exact .inl ⟨.inr ⟨by omega, rfl⟩, rfl⟩
      | false =>
        refine .inr ⟨⟨rfl, fun _ => rfl⟩,
          { m with master := m.master.serve 2, slave := m.slave.serve (line.1 - 8) }, ?_, ?_⟩
        · rw [hs.slave.irqBase]
          have hsum : (40 : UInt8).toNat + (line.1 - 8) = 32 + line.1 := by
            have hbase : (40 : UInt8).toNat = 40 := rfl
            omega
          rw [hsum]
          rfl
        · rw [hack, Interrupts.rtOut8_command2, Interrupts.rtOut8_command]
          simp only [hs.slave.serve_command hpos, hs.master.serve_command (by decide : 2 < 8)]

theorem write (hs : Serving table handler m) {addr : Nat} {bs : List UInt8} (houtside : OutsideTable table addr bs) :
    Serving table handler { m with mem := m.mem.write addr bs } := by
  refine ⟨hs.gates.congr fun x hx hlt => Store.write_apply_outside ?_, hs.base, hs.limit, hs.interruptFlag, hs.master,
    hs.slave⟩
  unfold OutsideTable at houtside
  omega

/-- What the machine does, the lines do. -/
theorem step (hs : Serving table handler m) {op : InterruptOp} (hstep : InterruptStep table m op m') :
    LineStep table handler m.masks op m'.masks ∧ Serving table handler m' := by
  cases hstep with
  | @setMask _ irql hcall =>
    rcases hs.halSetIrqMask_eq irql with ⟨hlt, m₁, heq, hs', hmasks⟩ | ⟨-, heq⟩
    · obtain rfl := Except.ok.inj (heq.symm.trans hcall)
      rw [hmasks]
      exact ⟨.setMask hlt, hs'⟩
    · cases heq.symm.trans hcall
  | @clearMask _ irql hcall =>
    rcases hs.halClearIrqMask_eq irql with ⟨hlt, m₁, heq, hs', hmasks⟩ | ⟨-, heq⟩
    · obtain rfl := Except.ok.inj (heq.symm.trans hcall)
      rw [hmasks]
      exact ⟨.clearMask hlt, hs'⟩
    · cases heq.symm.trans hcall
  | @irq m₁ line vector entered haccept henter =>
    rcases hs.accept_eq line with ⟨-, hnone⟩ | ⟨⟨hline, hcascade⟩, m₂, hsome, hack⟩
    · cases hnone.symm.trans haccept
    · obtain ⟨rfl, rfl⟩ := Prod.mk.inj (Option.some.inj (hsome.symm.trans haccept))
      have hlt : 32 + line.1 < kKernelIdtSize := by
        rw [kKernelIdtSize]
        omega
      obtain rfl := Option.some.inj ((hs.enter_eq hlt).symm.trans henter)
      rw [hack]
      exact ⟨.irq hline hcascade, hs⟩
  | @held line haccept =>
    rcases hs.accept_eq line with ⟨hmasked, -⟩ | ⟨-, m₂, hsome, -⟩
    · exact ⟨.held hmasked, hs⟩
    · cases hsome.symm.trans haccept
  | @exception vector entered henter =>
    obtain rfl := Option.some.inj ((hs.enter_eq vector.2).symm.trans henter)
    rw [hs.acknowledge_eq]
    exact ⟨.exception, hs⟩
  | write houtside => exact ⟨.write houtside, hs.write houtside⟩

theorem follow (hs : Serving table handler m) {op : InterruptOp} {masked : Fin 16 → Bool}
    (hstep : LineStep table handler m.masks op masked) : ∃ m', InterruptStep table m op m' ∧ m'.masks = masked := by
  generalize hmasks : m.masks = lines at hstep
  cases hstep with
  | @setMask irql hirql =>
    rcases hs.halSetIrqMask_eq irql with ⟨-, m₁, heq, -, hmasks'⟩ | ⟨hge, -⟩
    · rw [hmasks] at hmasks'
      exact ⟨m₁, .setMask heq, hmasks'⟩
    · exact absurd hirql hge
  | @clearMask irql hirql =>
    rcases hs.halClearIrqMask_eq irql with ⟨-, m₁, heq, -, hmasks'⟩ | ⟨hge, -⟩
    · rw [hmasks] at hmasks'
      exact ⟨m₁, .clearMask heq, hmasks'⟩
    · exact absurd hirql hge
  | @irq line hline hcascade =>
    subst hmasks
    rcases hs.accept_eq line with ⟨hmasked | ⟨hge, hmasked⟩, -⟩ | ⟨-, m₂, hsome, hack⟩
    · rw [hline] at hmasked
      cases hmasked
    · rw [hcascade hge] at hmasked
      cases hmasked
    · have hlt : 32 + line.1 < kKernelIdtSize := by
        rw [kKernelIdtSize]
        omega
      have hirq : InterruptStep table _ _ _ := .irq hsome (hs.enter_eq hlt)
      rw [hack] at hirq
      exact ⟨m, hirq, rfl⟩
  | @held line hmasked =>
    subst hmasks
    rcases hs.accept_eq line with ⟨-, hnone⟩ | ⟨⟨hline, hcascade⟩, -⟩
    · exact ⟨m, .held hnone, rfl⟩
    · rcases hmasked with hmasked | ⟨hge, hmasked⟩
      · rw [hline] at hmasked
        cases hmasked
      · rw [hcascade hge] at hmasked
        cases hmasked
  | @exception vector =>
    have hexception : InterruptStep table _ _ _ := .exception (hs.enter_eq vector.2)
    rw [hs.acknowledge_eq] at hexception
    exact ⟨m, hexception, hmasks⟩
  | write houtside => exact ⟨_, .write houtside, hmasks⟩

end Serving

/-- Behind `IDTLoader::Load`, from whatever state, the timer counts 1193180 / 1000, every line is let through, and what
can happen is what the sixteen lines do: line `i` goes to the handler of vector `32 + i` unless it (or the line of the
second controller) has been masked and not unmasked since. -/
theorem interrupts_iff (table : UInt64) (idt : Register64) (m : Interrupts)
    (hapart : Apart idt.Base.toNat table.toNat) :
    ∃ m', m.load table idt = .ok m' ∧ m'.pit.divisor = 1193 ∧ ∀ ops,
      (∃ m'', Run (InterruptStep table.toNat) m' ops m'') ↔
        ∃ masked, Run (LineStep table.toNat (handlerAt m.mem idt.Base.toNat)) (fun _ => false) ops masked := by
  have hload := Interrupts.load_eq (m := m) table idt
  obtain ⟨hs, hmasks⟩ := Serving.of_load hapart hload
  refine ⟨_, hload, rfl, fun ops => ⟨?_, ?_⟩⟩
  · rintro ⟨m'', hrun⟩
    rw [← hmasks]
    obtain ⟨masked, hlines, -⟩ := hrun.simulate
      (fun m masked => Serving table.toNat _ m ∧ m.masks = masked)
      (fun m masked op m' hrel hstep => by
        obtain ⟨hs, rfl⟩ := hrel
        obtain ⟨hlast, hs'⟩ := hs.step hstep
        exact ⟨_, hlast, hs', rfl⟩)
      ⟨hs, rfl⟩
    exact ⟨masked, hlines⟩
  · rintro ⟨masked, hrun⟩
    rw [← hmasks] at hrun
    obtain ⟨m'', hrun', -⟩ := hrun.simulate
      (fun masked m => Serving table.toNat (handlerAt _ _) m ∧ m.masks = masked)
      (fun masked m op masked' hrel hstep => by
        obtain ⟨hs, rfl⟩ := hrel
        obtain ⟨m', hlast, rfl⟩ := hs.follow hstep
        exact ⟨m', hlast, (hs.step hlast).2, rfl⟩)
      ⟨hs, rfl⟩
    exact ⟨m'', hrun'⟩

/-- A machine with the routine of the timer in the table of handlers at 0. -/
def timerMachine : Interrupts where
  mem := Store.put Codec.u64 (fun _ => 0) 256 0x100032
  idtr := ⟨0, 0⟩
  interruptFlag := true
  master := ⟨0, 0xFF, 0, []⟩
  slave := ⟨0, 0xFF, 0, [.mode]⟩
  pit := ⟨none, 0⟩

/-- Line 1 masked waits, and the timer is let through. -/
theorem interrupts_iff_timer : ∃ m' m'', timerMachine.load 0x200000 ⟨2047, 0⟩ = .ok m' ∧
    Run (InterruptStep 0x200000) m' [.setMask 1, .irq 1 none, .irq 0 (some (kIDTSelector, 0x100032))] m'' := by
  have hapart : Apart (0 : UInt64).toNat (0x200000 : UInt64).toNat := .inl (by decide)
  obtain ⟨m', hload, -, hiff⟩ := interrupts_iff 0x200000 ⟨2047, 0⟩ timerMachine hapart
  have hhandler : handlerAt timerMachine.mem (0 : UInt64).toNat 32 = 0x100032 := Store.get_put_same
  have hline : LineStep 0x200000 (handlerAt timerMachine.mem (0 : UInt64).toNat)
      (fun line => false || line.1 == (1 : UInt8).toNat) (.irq 0 (some (kIDTSelector, 0x100032)))
      (fun line => false || line.1 == (1 : UInt8).toNat) := by
    rw [← hhandler]
    exact .irq rfl fun hge => absurd hge (by decide)
  have hrun : Run (LineStep 0x200000 (handlerAt timerMachine.mem (0 : UInt64).toNat)) (fun _ => false)
      [.setMask 1, .irq 1 none, .irq 0 (some (kIDTSelector, 0x100032))] _ :=
    ((Run.one (LineStep.setMask (by decide))).snoc (.held (.inl rfl))).snoc hline
  obtain ⟨m'', hrun'⟩ := (hiff _).mpr ⟨_, hrun⟩
  exact ⟨m', m'', hload, hrun'⟩

end OpenNE

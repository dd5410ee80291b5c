import OpenNE.Base.Codec
import Mathlib.Logic.Function.Basic

/-!
# PCI configuration space (`HALKit/AMD64/PCI/Device.cc`)

The configuration space is reached through an address port and a data port. `EnableMmio` and `BecomeBusMaster` are to
set a bit of the command register. What they write is a truth value, to the register they are given, which the disk
driver makes its base address: so a one is written over the low half of that address (`configPreserved_iff`).
-/

namespace OpenNE

/-! ### The ports -/

/-- The host bridge: its address port, and the configuration bytes of every function. The byte `r` of function `f` of
device `d` on bus `b` has the number `65536 * b + 2048 * d + 256 * f + r`. -/
structure PciPorts where
  address : UInt32
  space : Store

/-- The byte that the first data port leads to: bits 23 to 2 of the address count. -/
def configAt (address : UInt32) : Nat := 4 * (address.toNat / 4 % 2 ^ 22)

/-- `PciConfigKind::ConfigData`. -/
def configData : Nat := 0xCFC

/-- A byte read from a port; the ports behind the four data ports are not the bridge's. -/
def PciPorts.byteIn (other : Nat → UInt8) (s : PciPorts) (port : Nat) : UInt8 :=
  if configData ≤ port ∧ port < configData + 4 then s.space (configAt s.address + (port - configData)) else other port

/-- A byte written to a port. -/
def PciPorts.byteOut (s : PciPorts) (port : Nat) (b : UInt8) : PciPorts :=
  if configData ≤ port ∧ port < configData + 4 then
    { s with space := Function.update s.space (configAt s.address + (port - configData)) b }
  else s

/-- `rt_in8`, `rt_in16` and `rt_in32`, of `size` bytes. -/
def rtIn (other : Nat → UInt8) (port size : Nat) (s : PciPorts) : UInt32 :=
  UInt32.ofNat (leNat ((List.range size).map fun i => s.byteIn other (port + i)))

/-- `rt_out8`, `rt_out16` and `rt_out32`, by the bytes written. -/
def rtOut (port : Nat) : List UInt8 → PciPorts → PciPorts
  | [], s => s
  | b :: bytes, s => rtOut (port + 1) bytes (s.byteOut port b)

/-! ### A device -/

structure PciDevice where
  fBus : UInt16
  fDevice : UInt16
  fFunction : UInt16
  fBar : UInt32
  deriving DecidableEq, Repr

/-- The address of a register, its number masked by the caller. -/
def pciTarget (bus dev func : UInt16) (register : UInt32) : UInt32 :=
  (0x80000000 : UInt32) ||| (bus.toUInt32 <<< 16) ||| (dev.toUInt32 <<< 11) ||| (func.toUInt32 <<< 8) ||| register

namespace PciDevice

variable (other : Nat → UInt8) (d : PciDevice) (bar : UInt32)

/-- `OPENNE_PCIReadRaw`. -/
def readRaw (s : PciPorts) : UInt32 × PciPorts :=
  let s := { s with address := pciTarget d.fBus d.fDevice d.fFunction (bar &&& 0xFC) }
  (rtIn other configData 4 s, s)

/-- `OPENNE_PCISetCfgTarget`. -/
def setCfgTarget (s : PciPorts) : PciPorts :=
  { s with address := pciTarget d.fBus d.fDevice d.fFunction (bar &&& ~~~3) }

/-- `Read`. -/
def read (sz : Nat) (s : PciPorts) : UInt32 × PciPorts :=
  let s := d.setCfgTarget bar s
  (if sz = 4 ∨ sz = 2 ∨ sz = 1 then rtIn other (configData + (bar &&& 3).toNat) sz s else 0xFFFF, s)

/-- `Write`. The data port is taken from the device's own register number. -/
def write (data : UInt64) (sz : Nat) (s : PciPorts) : PciPorts :=
  let s := d.setCfgTarget bar s
  if sz = 4 ∨ sz = 2 ∨ sz = 1 then rtOut (configData + (d.fBar &&& 3).toNat) (leBytes sz data.toNat) s else s

/-- A read, a bit set in what was read, and a write of whether that is anything at all. -/
def writeEnable (bit : UInt32) (s : PciPorts) : PciPorts :=
  let (value, s) := d.read other bar 2 s
  let enable : Bool := value ||| bit ≠ 0
  d.write bar (if enable then 1 else 0) 2 s

/-- `EnableMmio`. -/
def enableMmio (s : PciPorts) : PciPorts := d.writeEnable other bar ((1 : UInt32) <<< 1) s

/-- `BecomeBusMaster`. -/
def becomeBusMaster (s : PciPorts) : PciPorts := d.writeEnable other bar ((1 : UInt32) <<< 2) s

/-- `Bar`. -/
def barOf (s : PciPorts) : UInt32 := (d.readRaw other bar s).1

/-- `Class`. -/
def classOf (s : PciPorts) : UInt8 := ((d.readRaw other 0x08 s).1 >>> 24).toUInt8

/-! ### What the calls are for -/

/-- Numbers that a function can have. -/
def Valid : Prop := d.fBus < 256 ∧ d.fDevice < 32 ∧ d.fFunction < 8

instance : Decidable d.Valid := inferInstanceAs (Decidable (_ ∧ _))

/-- The first configuration byte of the function. -/
def base : Nat := 65536 * d.fBus.toNat + 2048 * d.fDevice.toNat + 256 * d.fFunction.toNat

/-- The two bits of the command register are set, nothing else of the configuration has changed, and the address in
`bar` is the same. -/
structure ConfigPreserved (s s' : PciPorts) : Prop where
  memorySpace : s'.space (d.base + 4) &&& 2 = 2
  busMaster : s'.space (d.base + 4) &&& 4 = 4
  command : s'.space (d.base + 4) &&& 0xF9 = s.space (d.base + 4) &&& 0xF9
  others : ∀ r < 256, r ≠ 4 → s'.space (d.base + r) = s.space (d.base + r)
  address : d.barOf other bar s' = d.barOf other bar s

/-- The byte that is written first. -/
def writtenAt : Nat :=
  configAt (pciTarget d.fBus d.fDevice d.fFunction (bar &&& ~~~3)) + (d.fBar &&& 3).toNat

/-- The bits are set already, and what is written of the device's own configuration is there already. -/
structure AlreadyEnabled (s : PciPorts) : Prop where
  memorySpace : s.space (d.base + 4) &&& 2 = 2
  busMaster : s.space (d.base + 4) &&& 4 = 4
  first : ∀ r < 256, d.writtenAt bar = d.base + r → s.space (d.base + r) = 1
  second : ∀ r < 256, d.writtenAt bar + 1 = d.base + r → (d.fBar &&& 3).toNat < 3 → s.space (d.base + r) = 0

end PciDevice

/-! ### Where an access goes -/

section Target

variable {bus dev func : UInt16} {register : UInt32}

theorem shiftLeft_toNat {x : UInt16} {k : UInt32} (hk : k.toNat < 32) (hx : x.toNat * 2 ^ k.toNat < 2 ^ 32) :
    (x.toUInt32 <<< k).toNat = 2 ^ k.toNat * x.toNat := by
  rw [UInt32.toNat_shiftLeft, Nat.mod_eq_of_lt hk, UInt16.toNat_toUInt32, Nat.shiftLeft_eq, Nat.mod_eq_of_lt hx,
    Nat.mul_comm]

theorem pciTarget_toNat (hbus : bus < 256) (hdev : dev < 32) (hfunc : func < 8) (hregister : register < 256) :
    (pciTarget bus dev func register).toNat =
      2 ^ 31 + (65536 * bus.toNat + 2048 * dev.toNat + 256 * func.toNat + register.toNat) := by
  have hb : bus.toNat < 256 := hbus
  have hd : dev.toNat < 32 := hdev
  have hf : func.toNat < 8 := hfunc
  have hr : register.toNat < 256 := hregister
  have hbus' : (bus.toUInt32 <<< 16).toNat = 2 ^ 16 * bus.toNat :=
    shiftLeft_toNat (by decide) (by show _ * 2 ^ 16 < _; omega)
  have hdev' : (dev.toUInt32 <<< 11).toNat = 2 ^ 11 * dev.toNat :=
    shiftLeft_toNat (by decide) (by show _ * 2 ^ 11 < _; omega)
  have hfunc' : (func.toUInt32 <<< 8).toNat = 2 ^ 8 * func.toNat :=
    shiftLeft_toNat (by decide) (by show _ * 2 ^ 8 < _; omega)
  have henable : (0x80000000 : UInt32).toNat = 2 ^ 31 * 1 := rfl
  simp only [pciTarget, UInt32.toNat_or, hbus', hdev', hfunc', henable]
  rw [Nat.or_assoc, Nat.or_assoc, Nat.or_assoc]
  rw [← Nat.two_pow_add_eq_or_of_lt (i := 8) (by omega) func.toNat,
    ← Nat.two_pow_add_eq_or_of_lt (i := 11) (by omega) dev.toNat,
    ← Nat.two_pow_add_eq_or_of_lt (i := 16) (by omega) bus.toNat,
    ← Nat.two_pow_add_eq_or_of_lt (i := 31) (by omega) 1]
  omega

theorem masked_toNat (bar : UInt32) : (bar &&& 0xFC) < 256 ∧ (bar &&& 0xFC).toNat % 4 = 0 := by
  have hvalue : (bar &&& 0xFC).toNat = bar.toNat &&& 252 := UInt32.toNat_and ..
  constructor
  · show (bar &&& 0xFC).toNat < 256
    rw [hvalue]
    exact Nat.lt_of_le_of_lt Nat.and_le_right (by decide)
  · rw [hvalue, show 4 = 2 ^ 2 from rfl, Nat.and_mod_two_pow]
    simp

end Target

/-! ### What the calls do -/

namespace PciDevice

section Calls

variable {other : Nat → UInt8} {d : PciDevice} {bar : UInt32} {s : PciPorts}

theorem barOf_eq (hd : d.Valid) :
    d.barOf other bar s = UInt32.ofNat (leNat (s.space.read (d.base + (bar &&& 0xFC).toNat) 4)) := by
  obtain ⟨hlow, hwhole⟩ := masked_toNat bar
  have hplace : configAt (pciTarget d.fBus d.fDevice d.fFunction (bar &&& 0xFC)) = d.base + (bar &&& 0xFC).toNat := by
    have hbus : d.fBus.toNat < 256 := hd.1
    have hdev : d.fDevice.toNat < 32 := hd.2.1
    have hfunc : d.fFunction.toNat < 8 := hd.2.2
    have hr : (bar &&& 0xFC).toNat < 256 := hlow
    rw [configAt, pciTarget_toNat hd.1 hd.2.1 hd.2.2 hlow, base]
    omega
  simp only [barOf, readRaw, rtIn, Store.read]
  congr 2
  apply List.map_congr_left
  intro i hi
  have hi4 : i < 4 := List.mem_range.mp hi
  have hport : configData ≤ configData + i ∧ configData + i < configData + 4 := by omega
  rw [PciPorts.byteIn, if_pos hport, Nat.add_sub_cancel_left, hplace]

/-- The space behind the two bytes of a write that starts at the data port `k`. -/
def wordWritten (a k : Nat) (space : Store) : Store :=
  if k < 3 then Function.update (Function.update space a 1) (a + 1) 0 else Function.update space a 1

theorem writeEnable_space {bit : UInt32} (hbit : bit ≠ 0) :
    (d.writeEnable other bar bit s).space = wordWritten (d.writtenAt bar) (d.fBar &&& 3).toNat s.space := by
  have henable : ∀ value : UInt32, value ||| bit ≠ 0 := fun value h => hbit (UInt32.or_eq_zero_iff.mp h).2
  have hk : (d.fBar &&& 3).toNat < 4 := by
    rw [UInt32.toNat_and]
    exact Nat.lt_of_le_of_lt Nat.and_le_right (by decide)
  have hbytes : leBytes 2 (1 : UInt64).toNat = [1, 0] := rfl
  have hfirst : configData ≤ configData + (d.fBar &&& 3).toNat ∧
      configData + (d.fBar &&& 3).toNat < configData + 4 := by omega
  simp only [writeEnable, read, write, henable, ne_eq, not_false_eq_true, decide_true, if_true, or_true, true_or,
    hbytes, rtOut, setCfgTarget]
  rw [PciPorts.byteOut, PciPorts.byteOut, if_pos hfirst]
  by_cases hlast : (d.fBar &&& 3).toNat < 3
  · rw [if_pos (by omega), wordWritten, if_pos hlast]
    simp only [Nat.add_sub_cancel_left, Nat.add_assoc, writtenAt]
  · rw [if_neg (by omega), wordWritten, if_neg hlast]
    simp only [Nat.add_sub_cancel_left, writtenAt]

theorem wordWritten_first (a k : Nat) (space : Store) : wordWritten a k space a = 1 := by
  rw [wordWritten]
  split
  · rw [Function.update_of_ne (Nat.ne_of_lt (Nat.lt_succ_self a)), Function.update_self]
  · rw [Function.update_self]

theorem wordWritten_second {a k : Nat} (hk : k < 3) (space : Store) : wordWritten a k space (a + 1) = 0 := by
  rw [wordWritten, if_pos hk, Function.update_self]

theorem wordWritten_other {a k x : Nat} (hfirst : x ≠ a) (hsecond : k < 3 → x ≠ a + 1) (space : Store) :
    wordWritten a k space x = space x := by
  rw [wordWritten]
  split
  · rename_i hk
    rw [Function.update_of_ne (hsecond hk), Function.update_of_ne hfirst]
  · rw [Function.update_of_ne hfirst]

theorem wordWritten_twice (a k : Nat) (space : Store) :
    wordWritten a k (wordWritten a k space) = wordWritten a k space := by
  funext x
  by_cases hfirst : x = a
  · rw [hfirst, wordWritten_first, wordWritten_first]
  · by_cases hsecond : k < 3 ∧ x = a + 1
    · rw [hsecond.2, wordWritten_second hsecond.1, wordWritten_second hsecond.1]
    · exact wordWritten_other hfirst (fun hk hx => hsecond ⟨hk, hx⟩) _

theorem enabled_space : (d.becomeBusMaster other bar (d.enableMmio other bar s)).space =
    wordWritten (d.writtenAt bar) (d.fBar &&& 3).toNat s.space := by
  rw [becomeBusMaster, writeEnable_space (by decide), enableMmio, writeEnable_space (by decide), wordWritten_twice]

theorem writtenAt_mod : (d.writtenAt bar) % 4 = (d.fBar &&& 3).toNat := by
  have hk : (d.fBar &&& 3).toNat < 4 := by
    rw [UInt32.toNat_and]
    exact Nat.lt_of_le_of_lt Nat.and_le_right (by decide)
  rw [writtenAt, configAt]
  omega

theorem base_mod : d.base % 4 = 0 := by
  rw [base]
  omega

theorem ConfigPreserved.place
    (h : d.ConfigPreserved other bar s (d.becomeBusMaster other bar (d.enableMmio other bar s))) :
    d.base + 4 ≠ d.writtenAt bar := by
  intro hhit
  have hbits := h.memorySpace
  rw [enabled_space, hhit, wordWritten_first] at hbits
  exact absurd hbits (by decide)

theorem AlreadyEnabled.kept (h : d.AlreadyEnabled bar s) {r : Nat} (hr : r < 256) :
    (d.becomeBusMaster other bar (d.enableMmio other bar s)).space (d.base + r) = s.space (d.base + r) := by
  rw [enabled_space]
  by_cases hfirst : d.writtenAt bar = d.base + r
  · rw [h.first r hr hfirst, ← hfirst, wordWritten_first]
  · by_cases hsecond : (d.fBar &&& 3).toNat < 3 ∧ d.writtenAt bar + 1 = d.base + r
    · rw [h.second r hr hsecond.2 hsecond.1, ← hsecond.2, wordWritten_second hsecond.1]
    · exact wordWritten_other (fun hx => hfirst hx.symm) (fun hk hx => hsecond ⟨hk, hx.symm⟩) _

theorem barOf_congr {s' : PciPorts} (hd : d.Valid)
    (hkept : ∀ r < 256, s'.space (d.base + r) = s.space (d.base + r)) :
    d.barOf other bar s' = d.barOf other bar s := by
  obtain ⟨hlow, hwhole⟩ := masked_toNat bar
  have hr : (bar &&& 0xFC).toNat < 256 := hlow
  rw [barOf_eq hd, barOf_eq hd]
  congr 2
  apply Store.read_congr
  intro x hx hx'
  obtain ⟨r, rfl⟩ := Nat.exists_eq_add_of_le (Nat.le_trans (Nat.le_add_right _ _) hx)
  exact hkept r (by omega)

end Calls

/-- The two calls leave the configuration as it should be exactly when there is nothing for them to do. -/
theorem configPreserved_iff (other : Nat → UInt8) (d : PciDevice) (hd : d.Valid) (bar : UInt32) (s : PciPorts) :
    d.ConfigPreserved other bar s (d.becomeBusMaster other bar (d.enableMmio other bar s)) ↔
      d.AlreadyEnabled bar s := by
  have hspace := @enabled_space other d bar s
  have hmod := @writtenAt_mod d bar
  have hbase := @base_mod d
  constructor
  · intro h
    have hplace := h.place
    have hkept :
        (d.becomeBusMaster other bar (d.enableMmio other bar s)).space (d.base + 4) = s.space (d.base + 4) := by
      rw [hspace]
      exact wordWritten_other hplace (fun hk hhit => by omega) _
    refine ⟨hkept ▸ h.memorySpace, hkept ▸ h.busMaster, fun r hr hhit => ?_, fun r hr hhit hk => ?_⟩
    · rw [← h.others r hr (fun hfour => hplace (by rw [hhit, hfour])), hspace, ← hhit, wordWritten_first]
    · rw [← h.others r hr (fun hfour => by omega), hspace, ← hhit, wordWritten_second hk]
  · intro h
    have hkept : ∀ r < 256,
        (d.becomeBusMaster other bar (d.enableMmio other bar s)).space (d.base + r) = s.space (d.base + r) :=
      fun r hr => h.kept hr
    have hcommand := hkept 4 (by decide)
    exact ⟨hcommand ▸ h.memorySpace, hcommand ▸ h.busMaster, by rw [hcommand], fun r hr _ => hkept r hr,
      barOf_congr hd hkept⟩

/-! ### A disk controller -/

/-- Function 2 of device 31 on bus 0. -/
def ahciDevice : PciDevice := ⟨0, 31, 2, 0⟩

/-- `kSATABar5`. -/
def kSATABar5 : UInt32 := 0x24

/-- Its configuration, with a command register and a base address. -/
def ahciConfig (command : UInt8) (bar5 : List UInt8) : PciPorts :=
  ⟨0, Store.write (Store.write (fun _ => 0) (ahciDevice.base + 4) [command]) (ahciDevice.base + 0x24) bar5⟩

/-- Bus mastering is on and the base address is `0x10001`, so that there is nothing left to do. -/
theorem configPreserved_enabled : ahciDevice.ConfigPreserved (fun _ => 0) kSATABar5 (ahciConfig 6 [1, 0, 1, 0])
    (ahciDevice.becomeBusMaster (fun _ => 0) kSATABar5
      (ahciDevice.enableMmio (fun _ => 0) kSATABar5 (ahciConfig 6 [1, 0, 1, 0]))) := by
  have hplace : ahciDevice.writtenAt kSATABar5 = ahciDevice.base + 0x24 := by decide
  refine (configPreserved_iff (fun _ => 0) ahciDevice (by decide) kSATABar5 (ahciConfig 6 [1, 0, 1, 0])).mpr
    ⟨by decide, by decide, fun r _ hr => ?_, fun r _ hr _ => ?_⟩
  · rw [← hr, hplace]
    decide
  · rw [← hr, hplace]
    decide

/-- The controller is off and its registers lie at `0xFEBF1000`: it stays off, and the driver goes on with
`0xFEBF0001`. -/
theorem enabling_moves_registers :
    ahciDevice.barOf (fun _ => 0) kSATABar5 (ahciConfig 0 [0, 0x10, 0xBF, 0xFE]) = 0xFEBF1000 ∧
    ahciDevice.barOf (fun _ => 0) kSATABar5 (ahciDevice.becomeBusMaster (fun _ => 0) kSATABar5
      (ahciDevice.enableMmio (fun _ => 0) kSATABar5 (ahciConfig 0 [0, 0x10, 0xBF, 0xFE]))) = 0xFEBF0001 ∧
    ¬ ahciDevice.ConfigPreserved (fun _ => 0) kSATABar5 (ahciConfig 0 [0, 0x10, 0xBF, 0xFE])
      (ahciDevice.becomeBusMaster (fun _ => 0) kSATABar5
        (ahciDevice.enableMmio (fun _ => 0) kSATABar5 (ahciConfig 0 [0, 0x10, 0xBF, 0xFE]))) := by
  have hbefore : ahciDevice.barOf (fun _ => 0) kSATABar5 (ahciConfig 0 [0, 0x10, 0xBF, 0xFE]) = 0xFEBF1000 := by decide
  have hafter : ahciDevice.barOf (fun _ => 0) kSATABar5 (ahciDevice.becomeBusMaster (fun _ => 0) kSATABar5
      (ahciDevice.enableMmio (fun _ => 0) kSATABar5 (ahciConfig 0 [0, 0x10, 0xBF, 0xFE]))) = 0xFEBF0001 := by decide
  refine ⟨hbefore, hafter, fun h => ?_⟩
  have hsame := h.address
  rw [hbefore, hafter] at hsame
  exact absurd hsame (by decide)

end PciDevice

end OpenNE

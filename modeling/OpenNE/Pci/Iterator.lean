import OpenNE.Pci.Config
import Mathlib.Data.List.Basic
import Mathlib.Data.List.Induction
import Mathlib.Logic.ExistsUnique

/-!
# Finding devices (`HALKit/AMD64/PCI/Iterator.cc`)

The iterator asks every function of every bus for its class and keeps one device a bus: the last that is of the class
looked for (`iterator_slot`). It goes on to a device 32, the number of which runs into that of the bus, so that a
function of the next bus is asked in its place (`iterator_aliases`).
-/

namespace OpenNE

/-! ### The iterator -/

/-- `OPENNE_BUS_COUNT`. -/
def busCount : Nat := 256

/-- `OPENNE_DEVICE_COUNT`. -/
def deviceCount : Nat := 33

/-- `OPENNE_FUNCTION_COUNT`. -/
def functionCount : Nat := 8

/-- The iterator as it is built: the ports, `fDevices` as far as it has been written, and for each access so far the
device it is made for and the address it is made at. -/
structure Enumeration where
  ports : PciPorts
  fDevices : Nat → Option PciDevice
  accesses : List (PciDevice × UInt32)

/-- A function probed, by bus, device and function. -/
abbrev Probe := Nat × Nat × Nat

def Probe.dev (p : Probe) : PciDevice := ⟨UInt16.ofNat p.1, UInt16.ofNat p.2.1, UInt16.ofNat p.2.2, 0⟩

/-- A round of the innermost loop. -/
def Enumeration.probe (other : Nat → UInt8) (type : UInt8) (e : Enumeration) (p : Probe) : Enumeration :=
  let ports := (p.dev.readRaw other 0x08 e.ports).2
  { ports := ports
    fDevices := if p.dev.classOf other e.ports = type then Function.update e.fDevices p.1 (some p.dev) else e.fDevices
    accesses := e.accesses ++ [(p.dev, ports.address)] }

/-- `Iterator::Iterator`. -/
def iterator (other : Nat → UInt8) (type : UInt8) (ports : PciPorts) : Enumeration :=
  (List.range busCount).foldl (fun e bus =>
    (List.range deviceCount).foldl (fun e device =>
      (List.range functionCount).foldl (fun e function => e.probe other type (bus, device, function)) e) e)
    ⟨ports, fun _ => none, []⟩

/-! ### What it is for -/

/-- An address at which a function is asked itself. -/
def PciDevice.AskedAt (d : PciDevice) (address : UInt32) : Prop :=
  configAt address / 65536 = d.fBus.toNat ∧ configAt address / 2048 % 32 = d.fDevice.toNat ∧
    configAt address / 256 % 8 = d.fFunction.toNat

/-- Every function of the class looked for is in the array, in one place, nothing else is, and whoever is asked for
answers. -/
structure Enumerates (other : Nat → UInt8) (type : UInt8) (ports : PciPorts) (e : Enumeration) : Prop where
  once : ∀ bus < 256, ∀ device < 32, ∀ function < 8, (Probe.dev (bus, device, function)).classOf other ports = type →
    ∃! slot, slot < 256 ∧ e.fDevices slot = some (Probe.dev (bus, device, function))
  only : ∀ slot < 256, ∀ d, e.fDevices slot = some d → d.classOf other ports = type
  direct : ∀ access ∈ e.accesses, access.1.AskedAt access.2

/-! ### Going through the probes -/

/-- The probes in their order. -/
def probes : List Probe :=
  (List.range busCount).flatMap fun bus => (List.range deviceCount).flatMap fun device =>
    (List.range functionCount).map fun function => (bus, device, function)

theorem mem_probes {p : Probe} : p ∈ probes ↔ p.1 < 256 ∧ p.2.1 < 33 ∧ p.2.2 < 8 := by
  obtain ⟨bus, device, function⟩ := p
  simp [probes, busCount, deviceCount, functionCount]

section Probing

variable {other : Nat → UInt8} {type : UInt8} {ports : PciPorts}

theorem iterator_eq :
    iterator other type ports = probes.foldl (Enumeration.probe other type) ⟨ports, fun _ => none, []⟩ := by
  simp only [iterator, probes, List.foldl_flatMap, List.foldl_map]

theorem classOf_space {d : PciDevice} {s s' : PciPorts} (h : s'.space = s.space) :
    d.classOf other s' = d.classOf other s := by
  simp only [PciDevice.classOf, PciDevice.readRaw, rtIn, PciPorts.byteIn, h]

/-- Whether a probe finds what is looked for. -/
def Probe.finds (other : Nat → UInt8) (type : UInt8) (ports : PciPorts) (p : Probe) : Bool :=
  p.dev.classOf other ports = type

/-- The last find on a bus. -/
def lastFind (other : Nat → UInt8) (type : UInt8) (ports : PciPorts) (l : List Probe) (bus : Nat) : Option Probe :=
  (l.filter fun p => p.1 = bus ∧ p.finds other type ports).getLast?

theorem lastFind_append {l : List Probe} {p : Probe} {bus : Nat} :
    lastFind other type ports (l ++ [p]) bus =
      if p.1 = bus ∧ p.finds other type ports then some p else lastFind other type ports l bus := by
  rw [lastFind, List.filter_append]
  by_cases hfind : p.1 = bus ∧ p.finds other type ports
  · rw [if_pos hfind, List.filter_cons_of_pos (by simpa using hfind), List.filter_nil, List.getLast?_append]
    rfl
  · rw [if_neg hfind, List.filter_cons_of_neg (by simpa using hfind), List.filter_nil, List.append_nil, lastFind]

theorem probed (l : List Probe) :
    (l.foldl (Enumeration.probe other type) ⟨ports, fun _ => none, []⟩).ports.space = ports.space ∧
    (∀ bus, (l.foldl (Enumeration.probe other type) ⟨ports, fun _ => none, []⟩).fDevices bus =
      (lastFind other type ports l bus).map Probe.dev) ∧
    (l.foldl (Enumeration.probe other type) ⟨ports, fun _ => none, []⟩).accesses =
      l.map fun p => (p.dev, pciTarget p.dev.fBus p.dev.fDevice p.dev.fFunction 0x08) := by
  induction l using List.reverseRecOn with
  | nil => exact ⟨rfl, fun _ => rfl, rfl⟩
  | append_singleton l p ih =>
    obtain ⟨hspace, hdevices, haccesses⟩ := ih
    simp only [List.foldl_append, List.foldl_cons, List.foldl_nil, Enumeration.probe]
    refine ⟨hspace, fun bus => ?_, ?_⟩
    · rw [lastFind_append, classOf_space hspace]
      by_cases hclass : p.dev.classOf other ports = type
      · have hfinds : p.finds other type ports = true := decide_eq_true hclass
        rw [if_pos hclass]
        by_cases hbus : p.1 = bus
        · rw [if_pos ⟨hbus, hfinds⟩, ← hbus, Function.update_self]
          rfl
        · rw [if_neg fun h => hbus h.1, Function.update_of_ne fun h => hbus h.symm, hdevices]
      · have hfinds : ¬ p.finds other type ports = true := fun h => hclass (of_decide_eq_true h)
        rw [if_neg hclass, if_neg fun h => hfinds h.2, hdevices]
    · rw [haccesses, List.map_append]
      rfl

theorem iterator_slot (bus : Nat) :
    (iterator other type ports).fDevices bus = (lastFind other type ports probes bus).map Probe.dev := by
  rw [iterator_eq]
  exact (probed probes).2.1 bus

theorem iterator_aliases : ∃ access ∈ (iterator other type ports).accesses, ¬ access.1.AskedAt access.2 := by
  rw [iterator_eq, (probed probes).2.2]
  refine ⟨_, List.mem_map_of_mem (a := (0, 32, 0)) (mem_probes.mpr (by decide)), ?_⟩
  rw [PciDevice.AskedAt]
  decide

theorem dev_injective {p q : Probe} (hp : p ∈ probes) (hq : q ∈ probes) (h : p.dev = q.dev) : p = q := by
  obtain ⟨hbus, hdev, hfunc⟩ := mem_probes.mp hp
  obtain ⟨hbus', hdev', hfunc'⟩ := mem_probes.mp hq
  have hofNat : ∀ {a b : Nat}, a < 256 → b < 256 → UInt16.ofNat a = UInt16.ofNat b → a = b := by
    intro a b ha hb hab
    have hnum := congrArg UInt16.toNat hab
    rwa [UInt16.toNat_ofNat_of_lt' (Nat.lt_trans ha (by decide)),
      UInt16.toNat_ofNat_of_lt' (Nat.lt_trans hb (by decide))] at hnum
  have h1 := hofNat hbus hbus' (congrArg PciDevice.fBus h)
  have h2 := hofNat (by omega) (by omega) (congrArg PciDevice.fDevice h)
  have h3 := hofNat (by omega) (by omega) (congrArg PciDevice.fFunction h)
  exact Prod.ext h1 (Prod.ext h2 h3)

theorem lastFind_some {bus : Nat} {p : Probe} (h : lastFind other type ports probes bus = some p) :
    p ∈ probes ∧ p.1 = bus := by
  have hmem := List.mem_filter.mp (List.mem_of_getLast? h)
  exact ⟨hmem.1, (of_decide_eq_true hmem.2).1⟩

theorem iterator_once_iff {p : Probe} (hp : p ∈ probes) :
    (∃! slot, slot < 256 ∧ (iterator other type ports).fDevices slot = some p.dev) ↔
      lastFind other type ports probes p.1 = some p := by
  have hslot : ∀ slot, (iterator other type ports).fDevices slot = some p.dev ↔
      slot = p.1 ∧ lastFind other type ports probes p.1 = some p := by
    intro slot
    rw [iterator_slot, Option.map_eq_some_iff]
    constructor
    · rintro ⟨q, hq, hdev⟩
      obtain ⟨hmem, hbus⟩ := lastFind_some hq
      have hsame := dev_injective hmem hp hdev
      subst hsame
      exact ⟨hbus.symm, hbus ▸ hq⟩
    · rintro ⟨rfl, hlast⟩
      exact ⟨p, hlast, rfl⟩
  constructor
  · rintro ⟨slot, ⟨-, hdevice⟩, -⟩
    exact ((hslot slot).mp hdevice).2
  · intro hlast
    refine ⟨p.1, ⟨(mem_probes.mp hp).1, (hslot p.1).mpr ⟨rfl, hlast⟩⟩, fun slot h => ((hslot slot).mp h.2).1⟩

end Probing

/-- The enumeration is never what it is for: whatever the functions are, device 32 is asked for. -/
theorem not_enumerates (other : Nat → UInt8) (type : UInt8) (ports : PciPorts) :
    ¬ Enumerates other type ports (iterator other type ports) := by
  intro h
  obtain ⟨access, hmem, halias⟩ := @iterator_aliases other type ports
  exact halias (h.direct access hmem)

/-- A configuration space in which two functions of bus 0, on devices 3 and 5, are mass storage controllers. -/
def twoControllers : PciPorts := ⟨0, Store.write (Store.write (fun _ => 0) (3 * 2048 + 11) [1]) (5 * 2048 + 11) [1]⟩

/-- The first of the two is not in the array. -/
theorem first_controller_lost :
    (Probe.dev (0, 3, 0)).classOf (fun _ => 0) twoControllers = 1 ∧
    (Probe.dev (0, 5, 0)).classOf (fun _ => 0) twoControllers = 1 ∧
    ¬ Enumerates (fun _ => 0) 1 twoControllers (iterator (fun _ => 0) 1 twoControllers) := by
  have hfirst : (Probe.dev (0, 3, 0)).classOf (fun _ => 0) twoControllers = 1 := by decide
  have hsecond : (Probe.dev (0, 5, 0)).classOf (fun _ => 0) twoControllers = 1 := by decide
  refine ⟨hfirst, hsecond, fun h => ?_⟩
  have h3 := (iterator_once_iff (mem_probes.mpr (by decide))).mp
    (h.once 0 (by decide) 3 (by decide) 0 (by decide) hfirst)
  have h5 := (iterator_once_iff (mem_probes.mpr (by decide))).mp
    (h.once 0 (by decide) 5 (by decide) 0 (by decide) hsecond)
  have hsame := h3.symm.trans h5
  exact absurd (Option.some.inj hsame) (by decide)

end OpenNE

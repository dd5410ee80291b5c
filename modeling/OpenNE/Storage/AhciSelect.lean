import OpenNE.Storage.Ahci
import Mathlib.Data.List.Range

/-!
# Choosing a port and a slot (`HALKit/AMD64/Storage/SATA.cc`)

Both loops shift a mask while an index advances. The one over the ports asks whether anything is left of the mask, not
whether its lowest bit is set, so that a port without a bit counts if one above it has one. The one over the command
slots takes the number of ports for the number of slots. What either finds is the first of a range (`portLoop_eq`,
`freeSlot_eq`), and from there when it is what it should be (`portSelection_iff`).
-/

namespace OpenNE

/-! ### The controller -/

/-- `HbaPort`, the registers the two loops read. -/
structure HbaPort where
  Ssts : UInt32
  Sig : UInt32
  Sact : UInt32
  Ci : UInt32
  deriving DecidableEq, Repr

/-- `HbaMem`. -/
structure HbaMem where
  Cap : UInt32
  Pi : UInt32
  Ports : Nat → HbaPort

/-- `kSATASignature`. -/
def kSATASignature : UInt32 := 0x00000101

/-- `kAhciPortCnt`. -/
def kAhciPortCnt : Nat := 32

/-- A SATA disk is behind the port: the signature is that of one, the device present and the link active. -/
def HbaPort.Sata (port : HbaPort) : Prop :=
  port.Sig = kSATASignature ∧ port.Ssts &&& 0x0F = 3 ∧ (port.Ssts >>> 8) &&& 0x0F = 1

instance (port : HbaPort) : Decidable port.Sata := inferInstanceAs (Decidable (_ ∧ _))

namespace HbaMem

/-- The port loop of `drv_std_init`, with `left` ports to go. -/
def portLoop (hba : HbaMem) : Nat → UInt32 → Nat → Option Nat
  | 0, _, _ => none
  | left + 1, portsImplemented, ahciIndex =>
    if portsImplemented ≠ 0 ∧ (hba.Ports ahciIndex).Sata then some ahciIndex
    else hba.portLoop left (portsImplemented >>> 1) (ahciIndex + 1)

/-- `kSATAPortIdx` behind the loop, if a port is detected. -/
def detectPort (hba : HbaMem) : Option Nat := hba.portLoop kAhciPortCnt hba.Pi 0

/-- A slot as the call returns it. -/
def slotNumber : Option Nat → Int32
  | some i => Int32.ofNat i
  | none => -1

/-- `drv_find_cmd_slot`, of the port in use; the pointer it is given is looked at for null only. -/
def findCmdSlot (hba : HbaMem) (kSATAPortIdx : Nat) : Int32 :=
  slotNumber (AhciPort.freeSlot ((hba.Ports kSATAPortIdx).Sact ||| (hba.Ports kSATAPortIdx).Ci) 0
    ((hba.Cap &&& 0x1F) + 1).toNat)

/-! ### What is to be chosen -/

/-- The port is implemented. -/
def Implemented (hba : HbaMem) (i : Nat) : Bool := hba.Pi.toNat.testBit i

/-- Neither register has a command in the slot. -/
def Free (hba : HbaMem) (kSATAPortIdx i : Nat) : Bool :=
  !(hba.Ports kSATAPortIdx).Sact.toNat.testBit i && !(hba.Ports kSATAPortIdx).Ci.toNat.testBit i

/-- How many command slots there are: bits 12 to 8, and one. -/
def slotCount (hba : HbaMem) : Nat := ((hba.Cap >>> 8) &&& 0x1F).toNat + 1

/-- The lowest port that is implemented and has a disk behind it. -/
def rightPort (hba : HbaMem) : Option Nat :=
  (List.range 32).find? fun i => hba.Implemented i && decide (hba.Ports i).Sata

/-- The lowest slot that is free, `-1` when there is none. -/
def rightSlot (hba : HbaMem) (kSATAPortIdx : Nat) : Int32 :=
  slotNumber ((List.range hba.slotCount).find? (hba.Free kSATAPortIdx))

/-- The right port is chosen, and the right slot of whatever port is in use. -/
structure SelectsRight (hba : HbaMem) (kSATAPortIdx : Nat) : Prop where
  port : hba.detectPort = hba.rightPort
  slot : hba.findCmdSlot kSATAPortIdx = hba.rightSlot kSATAPortIdx

/-- The number in bits 4 to 0, one less than that of the ports. -/
def portsField (hba : HbaMem) : Nat := (hba.Cap &&& 0x1F).toNat

/-- The number in bits 12 to 8, one less than that of the slots. -/
def slotsField (hba : HbaMem) : Nat := ((hba.Cap >>> 8) &&& 0x1F).toNat

/-- Where that is so: the lowest port with a disk is implemented or lies above all that are, and the lowest free slot
is among the first so many whichever of the two numbers they are. -/
structure Selectable (hba : HbaMem) (kSATAPortIdx : Nat) : Prop where
  port : ∀ i < 32, (hba.Ports i).Sata → (∀ j < i, ¬ (hba.Ports j).Sata) → hba.Pi.toNat >>> i ≠ 0 → hba.Implemented i
  slot : ∀ i < 32, hba.Free kSATAPortIdx i → (∀ j < i, ¬ hba.Free kSATAPortIdx j) →
    (i ≤ hba.portsField ↔ i ≤ hba.slotsField)

/-! ### The loops -/

section Loops

variable {hba : HbaMem} {kSATAPortIdx : Nat}

theorem portLoop_eq (left : Nat) : ∀ {mask : UInt32} {i : Nat}, mask.toNat = hba.Pi.toNat >>> i →
    hba.portLoop left mask i =
      (List.range' i left).find? fun k => hba.Pi.toNat >>> k ≠ 0 && decide (hba.Ports k).Sata := by
  induction left with
  | zero => intros; rfl
  | succ left ih =>
    intro mask i hmask
    have hleft : mask ≠ 0 ↔ hba.Pi.toNat >>> i ≠ 0 := by
      rw [← hmask, ne_eq, ne_eq, ← UInt32.toNat_inj]
      rfl
    have hnext : (mask >>> 1).toNat = hba.Pi.toNat >>> (i + 1) := by
      rw [UInt32.toNat_shiftRight, hmask, Nat.shiftRight_add]
      rfl
    rw [portLoop, List.range'_succ, List.find?_cons]
    by_cases hfound : mask ≠ 0 ∧ (hba.Ports i).Sata
    · rw [if_pos hfound]
      simp [hleft.mp hfound.1, hfound.2]
    · rw [if_neg hfound, ih hnext]
      have hnot : (hba.Pi.toNat >>> i ≠ 0 && decide (hba.Ports i).Sata) = false := by
        by_contra htrue
        simp only [Bool.not_eq_false, Bool.and_eq_true, decide_eq_true_eq] at htrue
        exact hfound ⟨hleft.mpr htrue.1, htrue.2⟩
      rw [hnot]

theorem freeSlot_eq {all : UInt32} (left : Nat) : ∀ {slots : UInt32} {i : Nat}, slots.toNat = all.toNat >>> i →
    AhciPort.freeSlot slots i left = (List.range' i left).find? fun k => !all.toNat.testBit k := by
  induction left with
  | zero => intros; rfl
  | succ left ih =>
    intro slots i hslots
    have hlow : slots &&& 1 = 0 ↔ all.toNat.testBit i = false := by
      rw [← UInt32.toNat_inj, UInt32.toNat_and, hslots, Nat.testBit, Nat.and_comm]
      simp
    have hnext : (slots >>> 1).toNat = all.toNat >>> (i + 1) := by
      rw [UInt32.toNat_shiftRight, hslots, Nat.shiftRight_add]
      rfl
    rw [AhciPort.freeSlot, List.range'_succ, List.find?_cons]
    by_cases hfree : slots &&& 1 = 0
    · rw [if_pos hfree, hlow.mp hfree]
      rfl
    · rw [if_neg hfree, ih hnext, Bool.eq_true_of_not_eq_false fun h => hfree (hlow.mpr h)]
      rfl

theorem detectPort_eq :
    hba.detectPort = (List.range 32).find? fun k => hba.Pi.toNat >>> k ≠ 0 && decide (hba.Ports k).Sata := by
  rw [detectPort, portLoop_eq _ Nat.shiftRight_zero.symm, List.range_eq_range']
  rfl

theorem shiftRight_ne_zero {n i j : Nat} (hij : i ≤ j) (h : n >>> j ≠ 0) : n >>> i ≠ 0 := by
  intro hzero
  apply h
  rw [← Nat.add_sub_cancel' hij, Nat.shiftRight_add, hzero, Nat.zero_shiftRight]

theorem shiftRight_of_testBit {n i : Nat} (h : n.testBit i = true) : n >>> i ≠ 0 := by
  intro hzero
  rw [Nat.testBit, hzero] at h
  cases h

theorem slotsField_lt : hba.slotsField < 32 := by
  rw [slotsField, UInt32.toNat_and]
  exact Nat.lt_succ_of_le Nat.and_le_right

theorem portsField_lt : hba.portsField < 32 := by
  rw [portsField, UInt32.toNat_and]
  exact Nat.lt_succ_of_le Nat.and_le_right

theorem findCmdSlot_eq :
    hba.findCmdSlot kSATAPortIdx = slotNumber ((List.range (hba.portsField + 1)).find? (hba.Free kSATAPortIdx)) := by
  have hcount : ((hba.Cap &&& 0x1F) + 1).toNat = hba.portsField + 1 := by
    have hlt := @portsField_lt hba
    rw [UInt32.toNat_add, portsField]
    exact Nat.mod_eq_of_lt (by rw [portsField] at hlt; show _ + 1 < 4294967296; omega)
  rw [findCmdSlot, freeSlot_eq _ Nat.shiftRight_zero.symm, hcount, List.range_eq_range']
  congr 2
  funext k
  rw [Free, UInt32.toNat_or, Nat.testBit_or, Bool.not_or]

/-! ### When the first is the right one -/

theorem detectPort_right_iff : hba.detectPort = hba.rightPort ↔
    ∀ i < 32, (hba.Ports i).Sata → (∀ j < i, ¬ (hba.Ports j).Sata) → hba.Pi.toNat >>> i ≠ 0 → hba.Implemented i := by
  rw [detectPort_eq, rightPort]
  constructor
  · intro h i hi hsata hlowest hleft
    have hfound : (List.range 32).find? (fun k => hba.Pi.toNat >>> k ≠ 0 && decide (hba.Ports k).Sata) = some i := by
      rw [List.find?_range_eq_some]
      refine ⟨by simp [hleft, hsata], List.mem_range.mpr hi, fun j hj => by simp [hlowest j hj]⟩
    rw [hfound, eq_comm, List.find?_range_eq_some] at h
    exact (Bool.and_eq_true _ _ ▸ h.1).1
  · intro h
    cases hfound : (List.range 32).find? (fun k => hba.Pi.toNat >>> k ≠ 0 && decide (hba.Ports k).Sata) with
    | none =>
      rw [List.find?_range_eq_none] at hfound
      rw [eq_comm, List.find?_range_eq_none]
      intro k hk
      have hnot := hfound k hk
      simp only [Bool.not_and, Bool.or_eq_true, Bool.not_eq_true', decide_eq_false_iff_not, not_not] at hnot ⊢
      rcases hnot with hnone | hnone
      · refine .inl ?_
        by_contra hbit
        exact shiftRight_of_testBit (Bool.eq_true_of_not_eq_false hbit) hnone
      · exact .inr hnone
    | some i =>
      rw [List.find?_range_eq_some] at hfound
      obtain ⟨hi, hrange, hlowest⟩ := hfound
      simp only [Bool.and_eq_true, decide_eq_true_eq] at hi
      have hbelow : ∀ j < i, ¬ (hba.Ports j).Sata := by
        intro j hj hsata
        have hnot := hlowest j hj
        simp [shiftRight_ne_zero (Nat.le_of_lt hj) hi.1, hsata] at hnot
      rw [eq_comm, List.find?_range_eq_some]
      refine ⟨?_, hrange, fun j hj => by simp [hbelow j hj]⟩
      rw [h i (List.mem_range.mp hrange) hi.2 hbelow hi.1, decide_eq_true hi.2]
      rfl

theorem find_range_same_iff {p : Nat → Bool} {m n : Nat} (hm : m ≤ 32) (hn : n ≤ 32) :
    (List.range m).find? p = (List.range n).find? p ↔
      ∀ i < 32, p i → (∀ j < i, ¬ p j) → (i < m ↔ i < n) := by
  have hsome : ∀ k i, p i → (∀ j < i, ¬ p j) → ((List.range k).find? p = some i ↔ i < k) := by
    intro k i hi hlowest
    rw [List.find?_range_eq_some]
    exact ⟨fun h => List.mem_range.mp h.2.1, fun h => ⟨hi, List.mem_range.mpr h, fun j hj => by simp [hlowest j hj]⟩⟩
  constructor
  · intro h i _ hi hlowest
    rw [← hsome m i hi hlowest, ← hsome n i hi hlowest, h]
  · intro h
    have hnone : ∀ k i, (∀ j < i, ¬ p j) → k ≤ i → (List.range k).find? p = none := by
      intro k i hlowest hk
      rw [List.find?_range_eq_none]
      intro j hj
      simp [hlowest j (Nat.lt_of_lt_of_le hj hk)]
    cases hfirst : (List.range 32).find? p with
    | none =>
      rw [List.find?_range_eq_none] at hfirst
      have hclear : ∀ j < 32, ¬ p j := fun j hj => by simpa using hfirst j hj
      rw [hnone m 32 hclear hm, hnone n 32 hclear hn]
    | some i =>
      rw [List.find?_range_eq_some] at hfirst
      obtain ⟨hi, hrange, hbelow⟩ := hfirst
      have hlowest : ∀ j < i, ¬ p j := fun j hj => by simpa using hbelow j hj
      have hboth := h i (List.mem_range.mp hrange) hi hlowest
      by_cases him : i < m
      · rw [(hsome m i hi hlowest).mpr him, (hsome n i hi hlowest).mpr (hboth.mp him)]
      · have hin : ¬ i < n := fun hin => him (hboth.mpr hin)
        rw [hnone m i hlowest (Nat.le_of_not_lt him), hnone n i hlowest (Nat.le_of_not_lt hin)]

theorem slotNumber_injective {a b : Option Nat} (ha : ∀ i ∈ a, i < 32) (hb : ∀ i ∈ b, i < 32)
    (h : slotNumber a = slotNumber b) : a = b := by
  have hvalue : ∀ i < 32, (slotNumber (some i)).toInt = i := by
    intro i hi
    exact Int32.toInt_ofNat_of_lt (Nat.lt_trans hi (by decide))
  have hminus : (slotNumber none).toInt = -1 := rfl
  have hint := congrArg Int32.toInt h
  cases a with
  | none =>
    cases b with
    | none => rfl
    | some j =>
      rw [hminus, hvalue j (hb j rfl)] at hint
      omega
  | some i =>
    cases b with
    | none =>
      rw [hminus, hvalue i (ha i rfl)] at hint
      omega
    | some j =>
      rw [hvalue i (ha i rfl), hvalue j (hb j rfl)] at hint
      rw [Int.ofNat_inj.mp hint]

theorem findCmdSlot_right_iff : hba.findCmdSlot kSATAPortIdx = hba.rightSlot kSATAPortIdx ↔
    ∀ i < 32, hba.Free kSATAPortIdx i → (∀ j < i, ¬ hba.Free kSATAPortIdx j) →
      (i ≤ hba.portsField ↔ i ≤ hba.slotsField) := by
  have hports := @portsField_lt hba
  have hslots := @slotsField_lt hba
  have hsame := @find_range_same_iff (hba.Free kSATAPortIdx) (hba.portsField + 1) hba.slotCount hports hslots
  have hsmall : ∀ {n : Nat}, n ≤ 32 → ∀ i ∈ (List.range n).find? (hba.Free kSATAPortIdx), i < 32 := by
    intro n hn i hi
    exact Nat.lt_of_lt_of_le (List.mem_range.mp (List.mem_of_find?_eq_some hi)) hn
  rw [findCmdSlot_eq, rightSlot]
  constructor
  · intro h i hi hfree hlowest
    have hlt := hsame.mp (slotNumber_injective (hsmall hports) (hsmall hslots) h) i hi hfree hlowest
    exact ⟨fun hle => Nat.le_of_lt_succ (hlt.mp (Nat.lt_succ_of_le hle)),
      fun hle => Nat.le_of_lt_succ (hlt.mpr (Nat.lt_succ_of_le hle))⟩
  · intro h
    congr 1
    refine hsame.mpr fun i hi hfree hlowest => ?_
    have hle := h i hi hfree hlowest
    exact ⟨fun hlt => Nat.lt_succ_of_le (hle.mp (Nat.le_of_lt_succ hlt)),
      fun hlt => Nat.lt_succ_of_le (hle.mpr (Nat.le_of_lt_succ hlt))⟩

end Loops

/-- The right port and the right slot are chosen exactly where the mask has no hole that matters and the two numbers
come to the same. -/
theorem portSelection_iff (hba : HbaMem) (kSATAPortIdx : Nat) :
    hba.SelectsRight kSATAPortIdx ↔ hba.Selectable kSATAPortIdx := by
  constructor
  · rintro ⟨hport, hslot⟩
    exact ⟨detectPort_right_iff.mp hport, findCmdSlot_right_iff.mp hslot⟩
  · rintro ⟨hport, hslot⟩
    exact ⟨detectPort_right_iff.mpr hport, findCmdSlot_right_iff.mpr hslot⟩

/-- A controller with ports 0 and 1, of which only 1 is implemented, and with four slots: a disk answers at both, and
slots 0 to 1 of each port are in use. -/
def holedController : HbaMem where
  Cap := 0x0301
  Pi := 2
  Ports _ := ⟨0x123, 0x101, 1, 3⟩

/-- Port 0 is chosen, though it is not implemented, and there is no slot, though slot 2 is free. -/
theorem selection_fails :
    holedController.detectPort = some 0 ∧ holedController.rightPort = some 1 ∧
    holedController.findCmdSlot 1 = -1 ∧ holedController.rightSlot 1 = 2 ∧ ¬ holedController.SelectsRight 1 := by
  have hport : holedController.detectPort = some 0 := by decide
  have hright : holedController.rightPort = some 1 := by decide
  refine ⟨hport, hright, by decide, by decide, fun h => ?_⟩
  have hsame := h.port
  rw [hport, hright] at hsame
  exact absurd hsame (by decide)

end HbaMem

end OpenNE

import OpenNE.Base.Run
import OpenNE.Pci.Config

/-!
# Runs on the configuration space (`HALKit/AMD64/PCI/Device.cc`)

Every call of a device sets the address port before it uses the data port, so a run of calls is a run on the bytes of
its function and of no other (`pci_run`): a read gives what lies at its register, a write goes to the register that the
device was built with in the group it is given. `Vendor` is the exception. It takes what it reads for the number of the
device and keeps it, of absent functions too, which it looks for under a wrong number: from then on the calls are for
another function.
-/

namespace OpenNE

/-! ### The data port -/

section Port

variable {s : PciPorts}

theorem update_eq_write (space : Store) (a : Nat) (b : UInt8) : Function.update space a b = space.write a [b] := by
  funext x
  by_cases hx : x = a
  · rw [hx, Function.update_self]
    exact (@Store.write_apply_inside space a 0 [b] Nat.zero_lt_one).symm
  · rw [Function.update_of_ne hx]
    exact (Store.write_apply_outside (by simp only [List.length_singleton]; omega)).symm

theorem rtOut_space (bytes : List UInt8) (k : Nat) :
    (rtOut (configData + k) bytes s).space = s.space.write (configAt s.address + k) (bytes.take (4 - k)) := by
  induction bytes generalizing k s with
  | nil => rw [List.take_nil, Store.write_nil, rtOut]
  | cons b bytes ih =>
    rw [rtOut, Nat.add_assoc, ih, PciPorts.byteOut]
    by_cases hk : k < 4
    · have hport : configData ≤ configData + k ∧ configData + k < configData + 4 := by omega
      have hleft : 4 - k = 4 - (k + 1) + 1 := by omega
      rw [if_pos hport, hleft, List.take_succ_cons, Nat.add_sub_cancel_left, update_eq_write, ← Nat.add_assoc]
      exact Store.write_append s.space (configAt s.address + k) [b] _
    · have hnone : 4 - k = 0 ∧ 4 - (k + 1) = 0 := by omega
      rw [if_neg (by omega), hnone.1, hnone.2, List.take_zero, List.take_zero, Store.write_nil, Store.write_nil]

theorem rtIn_space {other : Nat → UInt8} {k sz : Nat} (h : k + sz ≤ 4) :
    rtIn other (configData + k) sz s = UInt32.ofNat (leNat (s.space.read (configAt s.address + k) sz)) := by
  rw [rtIn, Store.read]
  congr 2
  apply List.map_congr_left
  intro i hi
  have hlt := List.mem_range.mp hi
  have hport : configData ≤ configData + k + i ∧ configData + k + i < configData + 4 := by omega
  rw [PciPorts.byteIn, if_pos hport, Nat.add_assoc, Nat.add_sub_cancel_left, Nat.add_assoc]

end Port

/-! ### The store of a function -/

/-- A call on a device, with what it returns. -/
inductive PciOp where
  | read (bar : UInt32) (sz : Nat) (value : UInt32)
  | write (bar : UInt32) (data : UInt64) (sz : Nat)
  | enableMmio (bar : UInt32)
  | becomeBusMaster (bar : UInt32)
  | vendor (answer : UInt16)

namespace PciDevice

variable (other : Nat → UInt8) (d : PciDevice)

/-- `VendorId`. -/
def vendorId (s : PciPorts) : UInt16 × PciPorts :=
  let (word, s) := d.readRaw other 0x0 s
  ((word >>> 16).toUInt16, s)

/-- `PciConfigKind::Invalid`. -/
def pciInvalid : UInt16 := 0xFFF

/-- `Vendor`. -/
def vendor (s : PciPorts) : UInt16 × PciDevice × PciPorts :=
  let (vendor, s) := d.vendorId other s
  if vendor ≠ pciInvalid then
    let (value, s) := d.read other 0x0 2 s
    let d := { d with fDevice := value.toUInt16 }
    (d.fDevice, d, s)
  else (d.fDevice, d, s)

/-- Where the writes of a register's group go. -/
def place (bar : UInt32) : Nat := d.base + 4 * (bar.toNat / 4) + d.fBar.toNat % 4

/-- What `Vendor` leaves as the number of the device. -/
def vendorKept (space : Store) : UInt16 :=
  if UInt16.ofNat (leNat (space.read (d.base + 2) 2)) = pciInvalid then d.fDevice
  else UInt16.ofNat (leNat (space.read d.base 2))

end PciDevice

/-- The call on a device and the ports. -/
def PciStep (other : Nat → UInt8) (t : PciDevice × PciPorts) : PciOp → PciDevice × PciPorts → Prop
  | .read bar sz value, t' => t.1.read other bar sz t.2 = (value, t'.2) ∧ t'.1 = t.1
  | .write bar data sz, t' => t' = (t.1, t.1.write bar data sz t.2)
  | .enableMmio bar, t' => t' = (t.1, t.1.enableMmio other bar t.2)
  | .becomeBusMaster bar, t' => t' = (t.1, t.1.becomeBusMaster other bar t.2)
  | .vendor answer, t' => t.1.vendor other t.2 = (answer, t'.1, t'.2)

/-- The call on the configuration bytes. -/
def SpaceStep (d : PciDevice) (space : Store) : PciOp → Store → Prop
  | .read bar sz value, space' => space' = space ∧ value = UInt32.ofNat (leNat (space.read (d.base + bar.toNat) sz))
  | .write bar data sz, space' =>
    space' = space.write (d.place bar) ((leBytes sz data.toNat).take (4 - d.fBar.toNat % 4))
  | .enableMmio bar, space' => space' = space.write (d.place bar) (([1, 0] : List UInt8).take (4 - d.fBar.toNat % 4))
  | .becomeBusMaster bar, space' =>
    space' = space.write (d.place bar) (([1, 0] : List UInt8).take (4 - d.fBar.toNat % 4))
  | .vendor answer, space' => space' = space ∧ answer = d.vendorKept space

/-- A register there is, whole. -/
def PciOp.InRange : PciOp → Prop
  | .read bar sz _ => bar < 256 ∧ (sz = 4 ∨ sz = 2 ∨ sz = 1) ∧ bar.toNat % 4 + sz ≤ 4
  | .write bar _ sz => bar < 256 ∧ (sz = 4 ∨ sz = 2 ∨ sz = 1)
  | .enableMmio bar => bar < 256
  | .becomeBusMaster bar => bar < 256
  | .vendor _ => True

/-- `Vendor` finds the device's own number, or the invalid one. -/
def KeepsDevice (t : PciDevice × PciPorts) : PciOp → Prop
  | .vendor _ => t.1.vendorKept t.2.space = t.1.fDevice
  | _ => True

/-! ### One call -/

namespace PciDevice

section Calls

variable {other : Nat → UInt8} {d : PciDevice} {bar : UInt32} {s : PciPorts}

theorem and_three (x : UInt32) : (x &&& 3).toNat = x.toNat % 4 := by
  rw [UInt32.toNat_and]
  exact Nat.and_two_pow_sub_one_eq_mod _ 2

theorem configAt_target (hd : d.Valid) (hbar : bar < 256) :
    configAt (pciTarget d.fBus d.fDevice d.fFunction (bar &&& ~~~3)) = d.base + 4 * (bar.toNat / 4) := by
  have hbus : d.fBus.toNat < 256 := hd.1
  have hdev : d.fDevice.toNat < 32 := hd.2.1
  have hfunc : d.fFunction.toNat < 8 := hd.2.2
  have hlow : bar.toNat < 256 := hbar
  have hgroup : (bar &&& ~~~3).toNat = 4 * (bar.toNat / 4) := by
    have hall : ∀ n < 256, (UInt32.ofNat n &&& ~~~3).toNat = 4 * (n / 4) := by decide +kernel
    rw [← hall _ hlow, UInt32.ofNat_toNat]
  have hsmall : bar &&& ~~~3 < 256 := by
    show (bar &&& ~~~3).toNat < 256
    omega
  rw [configAt, pciTarget_toNat hd.1 hd.2.1 hd.2.2 hsmall, base, hgroup]
  omega

theorem read_eq (hd : d.Valid) {sz : Nat} (hbar : bar < 256) (hsz : sz = 4 ∨ sz = 2 ∨ sz = 1)
    (hgroup : bar.toNat % 4 + sz ≤ 4) :
    d.read other bar sz s = (UInt32.ofNat (leNat (s.space.read (d.base + bar.toNat) sz)), d.setCfgTarget bar s) := by
  have hplace : d.base + 4 * (bar.toNat / 4) + bar.toNat % 4 = d.base + bar.toNat := by omega
  have hport := @rtIn_space (d.setCfgTarget bar s) other (bar.toNat % 4) sz hgroup
  rw [setCfgTarget, configAt_target hd hbar, hplace] at hport
  simp only [read, if_pos hsz, and_three]
  exact congrArg (·, d.setCfgTarget bar s) hport

theorem write_space (hd : d.Valid) {data : UInt64} {sz : Nat} (hbar : bar < 256) (hsz : sz = 4 ∨ sz = 2 ∨ sz = 1) :
    (d.write bar data sz s).space =
      s.space.write (d.place bar) ((leBytes sz data.toNat).take (4 - d.fBar.toNat % 4)) := by
  simp only [write, if_pos hsz, and_three]
  rw [rtOut_space, setCfgTarget, configAt_target hd hbar]
  rfl

theorem writeEnable_write (hd : d.Valid) {bit : UInt32} (hbit : bit ≠ 0) (hbar : bar < 256) :
    (d.writeEnable other bar bit s).space =
      s.space.write (d.place bar) (([1, 0] : List UInt8).take (4 - d.fBar.toNat % 4)) := by
  have henable : ∀ value : UInt32, value ||| bit ≠ 0 := fun value h => hbit (UInt32.or_eq_zero_iff.mp h).2
  simp only [writeEnable, henable, ne_eq, not_false_eq_true, decide_true, if_true]
  exact write_space hd hbar (.inr (.inl rfl))

theorem high_half (space : Store) (a : Nat) :
    (UInt32.ofNat (leNat (space.read a 4)) >>> 16).toUInt16 = UInt16.ofNat (leNat (space.read (a + 2) 2)) := by
  have h0 := (space a).toNat_lt
  have h1 := (space (a + 1)).toNat_lt
  have h2 := (space (a + 2)).toNat_lt
  have h3 := (space (a + 2 + 1)).toNat_lt
  have hword : leNat (space.read a 4) =
      (space a).toNat + 256 * ((space (a + 1)).toNat + 256 * leNat (space.read (a + 2) 2)) := rfl
  have hhalf : leNat (space.read (a + 2) 2) = (space (a + 2)).toNat + 256 * ((space (a + 2 + 1)).toNat + 256 * 0) := rfl
  apply UInt16.toNat_inj.mp
  rw [UInt32.toNat_toUInt16, UInt32.toNat_shiftRight, UInt32.toNat_ofNat', UInt16.toNat_ofNat',
    Nat.shiftRight_eq_div_pow]
  show _ / 2 ^ 16 % 2 ^ 16 = _
  omega

theorem vendorId_eq (hd : d.Valid) : ∃ address, d.vendorId other s =
    (UInt16.ofNat (leNat (s.space.read (d.base + 2) 2)), { s with address := address }) := by
  have hword := @barOf_eq other d 0 s hd
  have hzero : d.base + ((0 : UInt32) &&& 0xFC).toNat = d.base := rfl
  rw [hzero] at hword
  refine ⟨_, congrArg₂ Prod.mk ?_ rfl⟩
  show ((d.barOf other 0 s) >>> 16).toUInt16 = _
  rw [hword, high_half]

theorem vendor_eq (hd : d.Valid) : ∃ address, d.vendor other s =
    (d.vendorKept s.space, { d with fDevice := d.vendorKept s.space }, { s with address := address }) := by
  obtain ⟨address, hvendor⟩ := @vendorId_eq other d s hd
  unfold vendor vendorKept
  rw [hvendor]
  dsimp only
  by_cases hinvalid : UInt16.ofNat (leNat (s.space.read (d.base + 2) 2)) = pciInvalid
  · rw [if_pos hinvalid, if_neg (not_not.mpr hinvalid)]
    exact ⟨address, rfl⟩
  · have hzero : d.base + (0 : UInt32).toNat = d.base := rfl
    have hcut : (UInt32.ofNat (leNat (s.space.read d.base 2))).toUInt16 =
        UInt16.ofNat (leNat (s.space.read d.base 2)) := by
      apply UInt16.toNat_inj.mp
      rw [UInt32.toNat_toUInt16, UInt32.toNat_ofNat', UInt16.toNat_ofNat']
      omega
    rw [if_neg hinvalid, if_pos hinvalid, read_eq hd (by decide) (.inr (.inl rfl)) (by decide), hzero]
    dsimp only
    rw [hcut]
    exact ⟨_, rfl⟩

end Calls

end PciDevice

/-! ### Runs -/

/-- What is asked of a call: a register there is, and of `Vendor` that it keeps the device. -/
def PciGuard (t : PciDevice × PciPorts) (op : PciOp) : Prop := op.InRange ∧ KeepsDevice t op

section Runs

variable {other : Nat → UInt8} {d : PciDevice} {s : PciPorts} {t t' : PciDevice × PciPorts} {op : PciOp}
  {ops : List PciOp}

theorem PciStep.space (hd : d.Valid) (ht : t.1 = d) (hrange : op.InRange) (hstep : PciStep other t op t') :
    SpaceStep d t.2.space op t'.2.space ∧ (t'.1 = d ↔ KeepsDevice t op) := by
  obtain ⟨d', s⟩ := t
  obtain ⟨e', s'⟩ := t'
  obtain rfl : d' = d := ht
  cases op with
  | read bar sz value =>
    obtain ⟨hbar, hsz, hgroup⟩ := hrange
    obtain ⟨hread, hdevice⟩ := hstep
    obtain ⟨hvalue, hports⟩ := Prod.mk.inj (hread.symm.trans (PciDevice.read_eq hd hbar hsz hgroup))
    exact ⟨⟨(congrArg PciPorts.space hports).trans rfl, hvalue⟩, iff_of_true hdevice trivial⟩
  | write bar data sz =>
    obtain ⟨rfl, rfl⟩ := Prod.mk.inj hstep
    exact ⟨PciDevice.write_space hd hrange.1 hrange.2, iff_of_true rfl trivial⟩
  | enableMmio bar =>
    obtain ⟨rfl, rfl⟩ := Prod.mk.inj hstep
    exact ⟨PciDevice.writeEnable_write hd (by decide) hrange, iff_of_true rfl trivial⟩
  | becomeBusMaster bar =>
    obtain ⟨rfl, rfl⟩ := Prod.mk.inj hstep
    exact ⟨PciDevice.writeEnable_write hd (by decide) hrange, iff_of_true rfl trivial⟩
  | vendor answer =>
    obtain ⟨address, hvendor⟩ := @PciDevice.vendor_eq other d' s hd
    obtain ⟨rfl, hrest⟩ := Prod.mk.inj (hstep.symm.trans hvendor)
    obtain ⟨rfl, rfl⟩ := Prod.mk.inj hrest
    refine ⟨⟨rfl, rfl⟩, ?_⟩
    show { d' with fDevice := d'.vendorKept s.space } = d' ↔ d'.vendorKept s.space = d'.fDevice
    constructor
    · exact congrArg PciDevice.fDevice
    · intro hkept
      rw [hkept]

theorem SpaceStep.follow (hd : d.Valid) {space' : Store} (hrange : op.InRange) (hstep : SpaceStep d s.space op space') :
    ∃ t', PciStep other (d, s) op t' ∧ t'.2.space = space' := by
  cases op with
  | read bar sz value =>
    obtain ⟨rfl, rfl⟩ := hstep
    obtain ⟨hbar, hsz, hgroup⟩ := hrange
    exact ⟨(d, d.setCfgTarget bar s), ⟨PciDevice.read_eq hd hbar hsz hgroup, rfl⟩, rfl⟩
  | write bar data sz =>
    exact ⟨_, rfl, (PciDevice.write_space hd hrange.1 hrange.2).trans hstep.symm⟩
  | enableMmio bar =>
    exact ⟨_, rfl, (PciDevice.writeEnable_write hd (by decide) hrange).trans hstep.symm⟩
  | becomeBusMaster bar =>
    exact ⟨_, rfl, (PciDevice.writeEnable_write hd (by decide) hrange).trans hstep.symm⟩
  | vendor answer =>
    obtain ⟨rfl, rfl⟩ := hstep
    obtain ⟨address, hvendor⟩ := @PciDevice.vendor_eq other d s hd
    exact ⟨(_, _), hvendor, rfl⟩

theorem place_inside {bar : UInt32} {bytes : List UInt8} (hbar : bar < 256) :
    d.base ≤ d.place bar ∧ d.place bar + (bytes.take (4 - d.fBar.toNat % 4)).length ≤ d.base + 256 := by
  have hlow : bar.toNat < 256 := hbar
  rw [PciDevice.place, List.length_take]
  omega

theorem SpaceStep.outside {space space' : Store} (hrange : op.InRange) (hstep : SpaceStep d space op space') {x : Nat}
    (hx : x < d.base ∨ d.base + 256 ≤ x) : space' x = space x := by
  have hwrite : ∀ {bar : UInt32} {bytes : List UInt8}, bar < 256 →
      space.write (d.place bar) (bytes.take (4 - d.fBar.toNat % 4)) x = space x := by
    intro bar bytes hbar
    obtain ⟨hlow, hhigh⟩ := @place_inside d bar bytes hbar
    exact Store.write_apply_outside (by omega)
  cases op with
  | read bar sz value => rw [hstep.1]
  | write bar data sz =>
    cases hstep
    exact hwrite hrange.1
  | enableMmio bar =>
    cases hstep
    exact hwrite hrange
  | becomeBusMaster bar =>
    cases hstep
    exact hwrite hrange
  | vendor answer => rw [hstep.1]

/-- A run of calls on a function there can be, in which `Vendor` keeps the device, is a run on the configuration bytes
of the function, answer for answer, and changes no others. The next call there is a register for is made, and the device
is kept by it exactly if it is not a `Vendor` that finds another number. -/
theorem pci_run (other : Nat → UInt8) (hd : d.Valid) (hrun : Run (Guarded (PciStep other) PciGuard) (d, s) ops t) :
    t.1 = d ∧ Run (SpaceStep d) s.space ops t.2.space ∧
    (∀ x, x < d.base ∨ d.base + 256 ≤ x → t.2.space x = s.space x) ∧
    ∀ op : PciOp, op.InRange →
      (∀ space', SpaceStep d t.2.space op space' → ∃ t', PciStep other t op t' ∧ t'.2.space = space') ∧
      ∀ t', PciStep other t op t' → SpaceStep d t.2.space op t'.2.space ∧ (t'.1 = d ↔ KeepsDevice t op) := by
  have hinv : t.1 = d ∧ Run (SpaceStep d) s.space ops t.2.space ∧
      ∀ x, x < d.base ∨ d.base + 256 ≤ x → t.2.space x = s.space x := by
    induction hrun with
    | nil => exact ⟨rfl, .nil _, fun _ _ => rfl⟩
    | @snoc t t' ops op _ hlast ih =>
      obtain ⟨hdevice, hspace, houtside⟩ := ih
      obtain ⟨hstep, hrange, hkeeps⟩ := hlast
      obtain ⟨hnext, hkept⟩ := hstep.space hd hdevice hrange
      exact ⟨hkept.mpr hkeeps, hspace.snoc hnext, fun x hx => (hnext.outside hrange hx).trans (houtside x hx)⟩
  obtain ⟨hdevice, hspace, houtside⟩ := hinv
  refine ⟨hdevice, hspace, houtside, fun op hrange => ⟨fun space' hstep => ?_, fun t' hstep => ?_⟩⟩
  · obtain ⟨d', s'⟩ := t
    obtain rfl : d' = d := hdevice
    exact hstep.follow hd hrange
  · exact hstep.space hd hdevice hrange

/-- A controller that says what it is. -/
def identified : PciPorts :=
  ⟨0, Store.write (fun _ => 0) PciDevice.ahciDevice.base [0x86, 0x80, 0x22, 0x29]⟩

/-- It is told to master the bus, and then asked who made it: the device goes on as number `0x8086`. -/
theorem pci_run_identified :
    ∃ t t', Run (Guarded (PciStep fun _ => 0) PciGuard) (PciDevice.ahciDevice, identified)
        [.becomeBusMaster PciDevice.kSATABar5] t ∧
      (∀ x, PciDevice.ahciDevice.base + 256 ≤ x → t.2.space x = 0) ∧
      PciStep (fun _ => 0) t (.vendor 0x8086) t' ∧ t'.1 ≠ PciDevice.ahciDevice := by
  have hstep : Guarded (PciStep fun _ => 0) PciGuard (PciDevice.ahciDevice, identified)
      (.becomeBusMaster PciDevice.kSATABar5)
      (PciDevice.ahciDevice, PciDevice.ahciDevice.becomeBusMaster (fun _ => 0) PciDevice.kSATABar5 identified) :=
    ⟨rfl, (by decide : PciDevice.kSATABar5 < 256), trivial⟩
  have hrun := Run.one hstep
  obtain ⟨-, -, houtside, hnext⟩ := pci_run (fun _ => 0) (by decide) hrun
  obtain ⟨hcall, hdevice⟩ := hnext (.vendor 0x8086) trivial
  obtain ⟨t', hvendor, -⟩ := hcall _ ⟨rfl, by decide⟩
  have hnumber : ¬ PciDevice.ahciDevice.vendorKept
      (PciDevice.ahciDevice.becomeBusMaster (fun _ => 0) PciDevice.kSATABar5 identified).space =
        PciDevice.ahciDevice.fDevice := by decide
  refine ⟨_, t', hrun, fun x hx => ?_, hvendor, fun hkept => hnumber ((hdevice t' hvendor).2.mp hkept)⟩
  have hfar : PciDevice.ahciDevice.base + ([0x86, 0x80, 0x22, 0x29] : List UInt8).length ≤ x :=
    Nat.le_trans (by decide) hx
  have hzero : Store.write (fun _ => 0) PciDevice.ahciDevice.base [0x86, 0x80, 0x22, 0x29] x = 0 :=
    @Store.write_apply_outside (fun _ => 0) _ _ _ (.inr hfar)
  exact (houtside x (.inr hx)).trans hzero

end Runs

end OpenNE

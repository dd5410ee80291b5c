import OpenNE.Storage.Ata
import OpenNE.Storage.BootAta
import OpenNE.Storage.Ahci

/-!
# The size of the disk, as each driver has it

All three drivers take it from words 60 and 61 of the identify block. The kernel's ATA driver keeps the words in
`Char`s, the boot loader in 16-bit words, and the AHCI driver takes elements 60 and 61 of the block's bytes; the
first two go through a signed 32-bit integer.
-/

namespace OpenNE

/-- `(hi << 16) | lo` in an `int`, given by its bits, converted to a `SizeT`. -/
def shiftOr (hi lo : UInt32) : UInt64 := ((hi <<< 16) ||| lo).toInt32.toInt64.toUInt64

namespace Ata

/-- `drv_std_init`: what it leaves in `kATAData`, where a `Char` takes the low byte of a word. -/
def drvStdInit (fuel : Nat) (bus : UInt16) : Call AtaBus (Option (List Int8)) := do
  let words ← AtaBus.init fuel bus
  return words.map fun words => words.map fun word => word.toUInt8.toInt8

/-- `drv_get_sector_count`. -/
def drvGetSectorCount (kATAData : List Int8) : UInt64 :=
  shiftOr (kATAData.getD 61 0).toInt32.toUInt32 (kATAData.getD 60 0).toInt32.toUInt32

/-- `drv_get_size`. -/
def drvGetSize (kATAData : List Int8) : UInt64 := drvGetSectorCount kATAData * ataSectorSz

end Ata

/-- `boot_ata_init`: what it leaves in `kATAData`. -/
def bootAtaInit (fuel : Nat) (bus : UInt16) : Call AtaBus (Option (List UInt16)) := AtaBus.init fuel bus

/-- `BootDeviceATA::GetSectorsCount`. -/
def BootDeviceATA.getSectorsCount (kATAData : List UInt16) : UInt64 :=
  shiftOr (kATAData.getD 61 0).toUInt32 (kATAData.getD 60 0).toUInt32

/-- `BootDeviceATA::GetDiskSize`. -/
def BootDeviceATA.getDiskSize (kATAData : List UInt16) : UInt64 :=
  BootDeviceATA.getSectorsCount kATAData * ataSectorSz

namespace AhciPort

/-- `drv_get_sector_count`. -/
def drvGetSectorCount (kCurrentDiskSectorCount : Lba) : UInt64 := kCurrentDiskSectorCount

/-- `drv_get_size`. -/
def drvGetSize (kCurrentDiskSectorCount : Lba) : UInt64 :=
  drvGetSectorCount kCurrentDiskSectorCount * kAHCISectorSize

end AhciPort

/-! ### Words through an `int` -/

section Words

theorem toNat_signExtended (x : UInt32) :
    x.toInt32.toInt64.toUInt64.toNat = if x.toNat < 2 ^ 31 then x.toNat else x.toNat + (2 ^ 64 - 2 ^ 32) := by
  have hx := x.toNat_lt
  have hbits : x.toInt32.toInt64.toUInt64.toNat = (x.toBitVec.signExtend 64).toNat := rfl
  rw [hbits, BitVec.toNat_signExtend, BitVec.toNat_setWidth, BitVec.msb_eq_decide, UInt32.toNat_toBitVec,
    Nat.mod_eq_of_lt (by omega)]
  by_cases hsign : 2 ^ 31 ≤ x.toNat
  · rw [decide_eq_true hsign, if_pos rfl, if_neg (by omega)]
  · rw [decide_eq_false hsign, if_neg Bool.false_ne_true, if_pos (by omega), Nat.add_zero]

theorem charInt_toNat (word : UInt16) :
    word.toUInt8.toInt8.toInt32.toUInt32.toNat =
      if word.toNat % 256 < 128 then word.toNat % 256 else word.toNat % 256 + (2 ^ 32 - 2 ^ 8) := by
  have hbyte : word.toUInt8.toNat = word.toNat % 256 := by simp
  rw [← hbyte]
  generalize word.toUInt8 = b
  have hb := b.toNat_lt
  have hbits : b.toInt8.toInt32.toUInt32.toNat = (b.toBitVec.signExtend 32).toNat := rfl
  rw [hbits, BitVec.toNat_signExtend, BitVec.toNat_setWidth, BitVec.msb_eq_decide, UInt8.toNat_toBitVec,
    Nat.mod_eq_of_lt (by omega)]
  by_cases hsign : 2 ^ 7 ≤ b.toNat
  · rw [decide_eq_true hsign, if_pos rfl, if_neg (by omega)]
  · rw [decide_eq_false hsign, if_neg Bool.false_ne_true, if_pos (by omega), Nat.add_zero]

theorem shiftOr_eq_iff {hi lo : UInt32} {w61 w60 : Nat} (hw61 : w61 < 65536) (hw60 : w60 < 65536)
    (hlo : lo.toNat < 65536 ∨ 2 ^ 31 ≤ lo.toNat) :
    (shiftOr hi lo).toNat = 65536 * w61 + w60 ↔ lo.toNat = w60 ∧ hi.toNat % 65536 = w61 ∧ w61 < 32768 := by
  have hhi := hi.toNat_lt
  have hor : ((hi <<< 16) ||| lo).toNat = (hi.toNat % 65536) <<< 16 ||| lo.toNat := by
    have hshift : (hi <<< 16).toNat = (hi.toNat % 65536) <<< 16 := by
      simp only [UInt32.toNat_shiftLeft, UInt32.reduceToNat, Nat.shiftLeft_eq, Nat.reduceMod]
      omega
    rw [UInt32.toNat_or, hshift]
  rw [shiftOr, toNat_signExtended, hor]
  rcases hlo with hlo | hlo
  · rw [← Nat.shiftLeft_add_eq_or_of_lt hlo, Nat.shiftLeft_eq]
    split
    · omega
    · omega
  · have hge : lo.toNat ≤ (hi.toNat % 65536) <<< 16 ||| lo.toNat := Nat.right_le_or
    rw [if_neg (by omega)]
    omega

end Words

/-! ### Agreement -/

/-- The 28-bit capacity of an identify block. -/
def capacity (block : Nat → UInt16) : Nat := (block 61).toNat * 65536 + (block 60).toNat

/-- Each driver, given the block by its device, has its capacity, and 512 bytes a sector. -/
structure SameSize (fuel : Nat) (block : Nat → UInt16) (kernelBus bootBus : AtaBus) (port : AhciPort)
    (data : UInt64) : Prop where
  ata : ∃ kATAData, (Ata.drvStdInit fuel kernelBus.io kernelBus).1 = .ok (some kATAData) ∧
    (Ata.drvGetSectorCount kATAData).toNat = capacity block ∧
    (Ata.drvGetSize kATAData).toNat = capacity block * 512
  boot : ∃ kATAData, (bootAtaInit fuel bootBus.io bootBus).1 = .ok (some kATAData) ∧
    (BootDeviceATA.getSectorsCount kATAData).toNat = capacity block ∧
    (BootDeviceATA.getDiskSize kATAData).toNat = capacity block * 512
  ahci : ∃ count, (AhciPort.drvCalculateDiskGeometry fuel data port).1 = .ok count ∧
    (AhciPort.drvGetSectorCount count).toNat = capacity block ∧
    (AhciPort.drvGetSize count).toNat = capacity block * 512

section Agreement

variable {fuel : Nat} {block : Nat → UInt16}

theorem capacity_lt (block : Nat → UInt16) : capacity block < 2 ^ 32 := by
  have h61 := (block 61).toNat_lt
  have h60 := (block 60).toNat_lt
  rw [capacity]
  omega

theorem size_of_count {count : UInt64} {n : Nat} (hn : n < 2 ^ 32) :
    count.toNat = n ∧ (count * 512).toNat = n * 512 ↔ count.toNat = n := by
  constructor
  · exact fun h => h.1
  · rintro rfl
    refine ⟨rfl, ?_⟩
    rw [UInt64.toNat_mul]
    exact Nat.mod_eq_of_lt (by simp only [UInt64.reduceToNat]; omega)

theorem exists_some_iff {α : Type} {a : α} {x : Exec (Option α)} {p : α → Prop} (h : x = .ok (some a)) :
    (∃ a, x = .ok (some a) ∧ p a) ↔ p a := by
  subst h
  simp

theorem getD_words {α : Type} (f : Nat → α) (d : α) {i : Nat} (hi : i < kATADataLen) :
    ((List.range kATADataLen).map f).getD i d = f i := by
  rw [List.getD_eq_getElem _ _ (by simpa using hi)]
  simp

theorem ata_iff (hfuel : 0 < fuel) (bus : AtaBus) (hblock : bus.identifyBlock = block) :
    (∃ kATAData, (Ata.drvStdInit fuel bus.io bus).1 = .ok (some kATAData) ∧
      (Ata.drvGetSectorCount kATAData).toNat = capacity block ∧
      (Ata.drvGetSize kATAData).toNat = capacity block * 512) ↔
      (block 61).toNat < 128 ∧ (block 60).toNat < 128 := by
  obtain ⟨bus', hinit⟩ := AtaBus.init_returns bus hfuel rfl
  have hdata : (Ata.drvStdInit fuel bus.io bus).1 =
      .ok (some ((List.range kATADataLen).map fun i => (block i).toUInt8.toInt8)) := by
    rw [Ata.drvStdInit, Call.bind_of_ok hinit, hblock]
    show Except.ok (some (List.map _ (List.map block (List.range kATADataLen)))) = _
    rw [List.map_map]
    rfl
  have h61 := (block 61).toNat_lt
  have h60 := (block 60).toNat_lt
  have hlo := charInt_toNat (block 60)
  have hhi := charInt_toNat (block 61)
  rw [exists_some_iff hdata]
  simp only [Ata.drvGetSize, ataSectorSz, size_of_count (capacity_lt block)]
  rw [Ata.drvGetSectorCount, getD_words _ _ (by decide), getD_words _ _ (by decide), capacity,
    Nat.mul_comm _ 65536, shiftOr_eq_iff h61 h60 (by rw [hlo]; split <;> omega), hlo, hhi]
  split
  · split
    · omega
    · omega
  · omega

theorem boot_iff (hfuel : 0 < fuel) (bus : AtaBus) (hblock : bus.identifyBlock = block) :
    (∃ kATAData, (bootAtaInit fuel bus.io bus).1 = .ok (some kATAData) ∧
      (BootDeviceATA.getSectorsCount kATAData).toNat = capacity block ∧
      (BootDeviceATA.getDiskSize kATAData).toNat = capacity block * 512) ↔ (block 61).toNat < 32768 := by
  obtain ⟨bus', hinit⟩ := AtaBus.init_returns bus hfuel rfl
  have hdata : (bootAtaInit fuel bus.io bus).1 = .ok (some ((List.range kATADataLen).map block)) := by
    rw [bootAtaInit, hinit, hblock]
  have h61 := (block 61).toNat_lt
  have h60 := (block 60).toNat_lt
  rw [exists_some_iff hdata]
  simp only [BootDeviceATA.getDiskSize, ataSectorSz, size_of_count (capacity_lt block)]
  rw [BootDeviceATA.getSectorsCount, getD_words _ _ (by decide), getD_words _ _ (by decide), capacity,
    Nat.mul_comm _ 65536, shiftOr_eq_iff h61 h60 (.inl (by simpa using h60))]
  rw [UInt16.toNat_toUInt32, UInt16.toNat_toUInt32, Nat.mod_eq_of_lt h61]
  exact ⟨fun h => h.2.2, fun h => ⟨rfl, rfl, h⟩⟩

theorem ahci_iff {port : AhciPort} (hfuel : 0 < fuel) (hblock : port.identifyBlock = block)
    (hfree : port.drvFindCmdSlot.isSome) (hready : port.Tfd &&& (kAhciSRBsy ||| kAhciSRDrq) = 0) (data : UInt64) :
    (∃ count, (AhciPort.drvCalculateDiskGeometry fuel data port).1 = .ok count ∧
      (AhciPort.drvGetSectorCount count).toNat = capacity block ∧
      (AhciPort.drvGetSize count).toNat = capacity block * 512) ↔
      (block 60).toNat < 256 ∧ (block 30).toNat = (block 61).toNat * 256 + (block 60).toNat := by
  have h60 := (block 60).toNat_lt
  have h30 := (block 30).toNat_lt
  have hcount := AhciPort.drvCalculateDiskGeometry_returns hfuel hfree hready data
  have hvalue : (((port.identifyBlock 30 >>> 8).toUInt8.toUInt64 <<< 16) |||
      (port.identifyBlock 30).toUInt8.toUInt64).toNat =
      (block 30).toNat / 256 * 65536 + (block 30).toNat % 256 := by
    have hlow : (block 30).toUInt8.toUInt64.toNat = (block 30).toNat % 256 := by simp
    have hhigh : ((block 30 >>> 8).toUInt8.toUInt64 <<< 16).toNat = ((block 30).toNat / 256) <<< 16 := by
      simp only [UInt64.toNat_shiftLeft, UInt8.toNat_toUInt64, UInt16.toNat_toUInt8, UInt16.toNat_shiftRight,
        UInt16.reduceToNat, UInt64.reduceToNat, Nat.shiftRight_eq_div_pow, Nat.shiftLeft_eq, Nat.reduceMod]
      omega
    rw [hblock, UInt64.toNat_or, hhigh, hlow, ← Nat.shiftLeft_add_eq_or_of_lt (by omega), Nat.shiftLeft_eq]
  constructor
  · rintro ⟨count, hret, hcapacity, -⟩
    rw [hcount] at hret
    cases hret
    rw [AhciPort.drvGetSectorCount, hvalue, capacity] at hcapacity
    omega
  · rintro ⟨hsmall, hword⟩
    refine ⟨_, hcount, (size_of_count (capacity_lt block)).mpr ?_⟩
    rw [AhciPort.drvGetSectorCount, hvalue, capacity]
    omega

/-- The drivers agree on the capacity exactly when both words are below 128 and word 30 has them for its bytes. -/
theorem sameSize_iff (hfuel : 0 < fuel) (kernelBus bootBus : AtaBus) (port : AhciPort)
    (hkernel : kernelBus.identifyBlock = block) (hboot : bootBus.identifyBlock = block)
    (hahci : port.identifyBlock = block) (hfree : port.drvFindCmdSlot.isSome)
    (hready : port.Tfd &&& (kAhciSRBsy ||| kAhciSRDrq) = 0) (data : UInt64) :
    SameSize fuel block kernelBus bootBus port data ↔
      (block 61).toNat < 128 ∧ (block 60).toNat < 128 ∧
        (block 30).toNat = (block 61).toNat * 256 + (block 60).toNat := by
  have hata := ata_iff hfuel kernelBus hkernel
  have hbootAta := boot_iff hfuel bootBus hboot
  have hport := ahci_iff hfuel hahci hfree hready data
  constructor
  · rintro ⟨h1, -, h3⟩
    obtain ⟨h61, h60⟩ := hata.mp h1
    exact ⟨h61, h60, (hport.mp h3).2⟩
  · rintro ⟨h61, h60, h30⟩
    exact ⟨hata.mpr ⟨h61, h60⟩, hbootAta.mpr (by omega), hport.mpr ⟨by omega, h30⟩⟩

end Agreement

/-- A device on the primary bus that answers with `block`. -/
def busOf (block : Nat → UInt16) : AtaBus := { Ata.zeroedBus with identifyBlock := block }

/-- The identify block of a disk of 4 GiB, the smallest that is formatted. -/
def fourGiBBlock : Nat → UInt16 := fun i => if i = 61 then 128 else 0

/-- The kernel's ATA driver takes its high word for a negative one. -/
theorem four_gib_not_sameSize :
    ¬ SameSize 1 fourGiBBlock (busOf fourGiBBlock) (busOf fourGiBBlock) (AhciPort.idle fourGiBBlock) 4096 := by
  intro h
  have hwords := (ata_iff Nat.one_pos _ rfl).mp h.ata
  exact absurd hwords.1 (by decide)

/-- A block of 65538 sectors whose word 30 is 258. -/
def smallBlock : Nat → UInt16 := fun i => if i = 61 then 1 else if i = 60 then 2 else if i = 30 then 258 else 0

theorem small_sameSize :
    SameSize 1 smallBlock (busOf smallBlock) (busOf smallBlock) (AhciPort.idle smallBlock) 4096 :=
  (sameSize_iff Nat.one_pos (busOf smallBlock) (busOf smallBlock) (AhciPort.idle smallBlock) rfl rfl rfl
    (by decide) (by decide) 4096).mpr (by decide)

end OpenNE

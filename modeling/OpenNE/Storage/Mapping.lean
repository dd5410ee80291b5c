import OpenNE.Storage.Ata
import OpenNE.Storage.BootAta
import OpenNE.Storage.Ahci

/-!
# Disk addresses and sectors

What each driver programs for `n` bytes at the address `a`. The ATA drivers divide the address by the sector
size, which the boot loader takes from its caller, and round the number of sectors up past the size; the AHCI
driver programs the address as it is, and the sector size as the number of sectors.
-/

namespace OpenNE

/-- The number of sectors `[a, a + n)` touches. -/
def sectorsTouched (a n : Nat) : Nat := (a + n - 1) / 512 + 1 - a / 512

/-- The call has the ATA device execute one command, for `count` sectors from `start` on. -/
def ProgramsAta {α : Type} (call : Call AtaBus α) (bus : AtaBus) (start count : Nat) : Prop :=
  ∃ command, (call bus).2.issued = bus.issued ++ [⟨command, start, count⟩]

def ProgramsBoot {α : Type} (call : Call BootDeviceATA α) (dev : BootDeviceATA) (start count : Nat) : Prop :=
  ∃ command, (call dev).2.device.issued = dev.device.issued ++ [⟨command, start, count⟩]

/-- The call has the AHCI device take one frame, for `count` sectors from `start` on. -/
def ProgramsAhci {α : Type} (call : Call AhciPort α) (port : AhciPort) (start count : Nat) : Prop :=
  ∃ fis, (call port).2.issued = port.issued ++ [fis] ∧ fis.lba = start ∧ fis.count = count

/-- The devices and arguments of the three drivers: the kernel's, with the memory a packet points to, and the boot
loader's, with the sector size its caller passes. -/
structure Drivers where
  fuel : Nat
  bus : AtaBus
  master : UInt8
  port : AhciPort
  content : UInt64
  boot : BootDeviceATA
  sectorSz : UInt64

namespace Drivers

/-- The three program the sectors touched by a read of `n` bytes at `a`. -/
def SameReads (d : Drivers) (a : Lba) (n : Nat) : Prop :=
  ProgramsAta (Ata.ioDrvInput d.fuel d.bus.io d.master { fPacketLba := a, fPacketSize := n }) d.bus
      (a.toNat / 512) (sectorsTouched a.toNat n) ∧
    ProgramsAhci (AhciPort.ioDrvInput d.fuel { fPacketLba := a, fPacketSize := n } d.content) d.port
      (a.toNat / 512) (sectorsTouched a.toNat n) ∧
    ProgramsBoot (BootDeviceATA.read d.fuel true d.sectorSz) { d.boot with mBase := a, mSize := .ofNat n }
      (a.toNat / 512) (sectorsTouched a.toNat n)

/-- The same of a write of the bytes `content`. -/
def SameWrites (d : Drivers) (a : Lba) (content : List UInt8) : Prop :=
  ProgramsAta (Ata.ioDrvOutput d.fuel d.bus.io d.master { fPacketLba := a, fPacketSize := content.length } content)
      d.bus (a.toNat / 512) (sectorsTouched a.toNat content.length) ∧
    ProgramsAhci (AhciPort.ioDrvOutput d.fuel { fPacketLba := a, fPacketSize := content.length } d.content) d.port
      (a.toNat / 512) (sectorsTouched a.toNat content.length) ∧
    ProgramsBoot (BootDeviceATA.write d.fuel (some content) d.sectorSz)
      { d.boot with mBase := a, mSize := .ofNat content.length }
      (a.toNat / 512) (sectorsTouched a.toNat content.length)

end Drivers

/-! ### What each driver programs -/

section Programs

variable {fuel : Nat}

theorem Ata.ioDrvInput_programs (hfuel : 0 < fuel) (bus : AtaBus) (master : UInt8) (pckt : DrivePacket) :
    (Ata.ioDrvInput fuel bus.io master pckt bus).2.issued = bus.issued ++
      [AtaBus.commandFor ataCmdReadPio pckt.fPacketLba ataSectorSz (.ofNat pckt.fPacketSize)] := by
  obtain ⟨bus', hread, hafter⟩ := AtaBus.pioRead_returns hfuel (Eq.refl bus.io) pckt.fPacketLba master
    ataSectorSz (.ofNat pckt.fPacketSize)
  rw [Ata.ioDrvInput, Ata.drvStdRead, hread]
  exact hafter.issued

theorem Ata.ioDrvOutput_programs (hfuel : 0 < fuel) (bus : AtaBus) (master : UInt8) {pckt : DrivePacket}
    (hwritable : pckt.fPacketReadOnly = false) (content : List UInt8) :
    (Ata.ioDrvOutput fuel bus.io master pckt content bus).2.issued = bus.issued ++
      [AtaBus.commandFor ataCmdWritePio pckt.fPacketLba ataSectorSz (.ofNat content.length)] := by
  obtain ⟨bus', hwrite, hafter⟩ := AtaBus.pioWrite_returns hfuel (Eq.refl bus.io) pckt.fPacketLba master
    ataSectorSz content
  rw [Ata.ioDrvOutput, hwritable, Ata.drvStdWrite, if_neg Bool.false_ne_true, hwrite]
  exact hafter.issued

theorem BootDeviceATA.read_programs (hfuel : 0 < fuel) {dev : BootDeviceATA} (hdetected : dev.kATADetected = true)
    (hbus : dev.device.io = dev.mBus) {sectorSz : UInt64} (hsectorSz : ¬ sectorSz < 1) :
    (BootDeviceATA.read fuel true sectorSz dev).2.device.issued = dev.device.issued ++
      [AtaBus.commandFor ataCmdReadPio dev.mBase sectorSz dev.mSize] := by
  obtain ⟨bus', hread, hafter⟩ := AtaBus.pioRead_returns hfuel hbus dev.mBase dev.mMaster sectorSz dev.mSize
  have hsector : ¬(true = false ∨ sectorSz < 1) := by
    rintro (h | h)
    · cases h
    · exact hsectorSz h
  rw [BootDeviceATA.read, Call.gets_bind, id, hdetected, if_neg (by decide), Call.modify_bind, if_neg hsector]
  rw [BootDeviceATA.onDevice, bootAtaRead, hread]
  exact hafter.issued

theorem AtaBus.commandFor_count_le (command : UInt8) (lba sectorSz size : UInt64) :
    (AtaBus.commandFor command lba sectorSz size).count ≤ 256 := by
  rw [AtaBus.commandFor, AtaBus.sectorCount]
  split
  · exact Nat.le_refl 256
  · exact (UInt8.toNat_lt _).le

theorem AhciPort.count_of_programs {write : Bool} {lba buffer size : UInt64} {port : AhciPort} {start count : Nat}
    (h : ProgramsAhci (AhciPort.drvStdInputOutput fuel write false lba buffer kAHCISectorSize size) port start
      count) : count = 512 := by
  obtain ⟨fis, hissued, -, hcount⟩ := h
  rcases AhciPort.drvStdInputOutput_issued fuel write false lba buffer kAHCISectorSize size port with
    hnone | ⟨fis', hone⟩
  · rw [hnone] at hissued
    simp at hissued
  · rw [hone] at hissued
    have hfis : AhciPort.commandFrame write false lba kAHCISectorSize fis' = fis := by simpa using hissued
    rw [← hcount, ← hfis, AhciPort.commandFrame_count]

theorem Drivers.reads_differ (d : Drivers) (hfuel : 0 < d.fuel) (a : Lba) (n : Nat) : ¬ d.SameReads a n := by
  rintro ⟨⟨command, hata⟩, hahci, -⟩
  have h512 := AhciPort.count_of_programs hahci
  have hcount := AtaBus.commandFor_count_le ataCmdReadPio a ataSectorSz (.ofNat n)
  rw [Ata.ioDrvInput_programs hfuel] at hata
  have hsame := List.append_cancel_left hata
  simp only [List.cons.injEq, and_true] at hsame
  rw [hsame, h512] at hcount
  exact absurd (show 512 ≤ 256 from hcount) (by decide)

theorem Drivers.writes_differ (d : Drivers) (hfuel : 0 < d.fuel) (a : Lba) (content : List UInt8) :
    ¬ d.SameWrites a content := by
  rintro ⟨⟨command, hata⟩, hahci, -⟩
  have h512 := AhciPort.count_of_programs hahci
  have hcount := AtaBus.commandFor_count_le ataCmdWritePio a ataSectorSz (.ofNat content.length)
  rw [Ata.ioDrvOutput_programs hfuel _ _ rfl] at hata
  have hsame := List.append_cancel_left hata
  simp only [List.cons.injEq, and_true] at hsame
  rw [hsame, h512] at hcount
  exact absurd (show 512 ≤ 256 from hcount) (by decide)

end Programs

/-- Whatever the address and the size, the three drivers never program the sectors touched: the one asks for 512
sectors, the others for at most 256. -/
theorem Drivers.never_same (d : Drivers) (hfuel : 0 < d.fuel) (a : Lba) :
    (∀ n, ¬ d.SameReads a n) ∧ ∀ content, ¬ d.SameWrites a content :=
  ⟨fun n => d.reads_differ hfuel a n, fun content => d.writes_differ hfuel a content⟩

/-- Zeroed disks behind idle controllers; the boot loader's caller passes the sector size. -/
def idleDrivers : Drivers where
  fuel := 1
  bus := Ata.zeroedBus
  master := ataMaster
  port := .idle fun _ => 0
  content := 4096
  boot := { kATADetected := true, device := Ata.zeroedBus }
  sectorSz := ataSectorSz

/-- The packet of a superblock. -/
def superBlockPacket : DrivePacket := { fPacketLba := 1024, fPacketSize := 512 }

theorem idle_ahci_programs :
    ProgramsAhci (AhciPort.ioDrvInput 1 superBlockPacket 4096) (AhciPort.idle fun _ => 0) 1024 512 := by
  have hslot : (AhciPort.idle fun _ => 0).drvFindCmdSlot = some 0 := by decide
  have hrun := AhciPort.commandIn_returns 512 Nat.one_pos hslot (by decide) rfl (by decide) false
    false 1024 4096 kAHCISectorSize
  rw [← AhciPort.drvStdInputOutput_of_slot hslot] at hrun
  refine ⟨AhciPort.commandFrame false false 1024 kAHCISectorSize ((AhciPort.idle fun _ => 0).frames 0), ?_, ?_,
    ?_⟩
  · rw [AhciPort.ioDrvInput, AhciPort.drvStdRead]
    exact congrArg (fun r => r.2.issued) hrun
  · rw [AhciPort.commandFrame_lba]
    rfl
  · exact AhciPort.commandFrame_count ..

/-- A read of the superblock: sector 2 and one more for the ATA drivers, 512 sectors from sector 1024 on for the
AHCI driver. -/
theorem superblock_read_differs :
    ProgramsAta (Ata.ioDrvInput 1 ataPrimaryIo ataMaster superBlockPacket) Ata.zeroedBus 2 2 ∧
      ProgramsBoot (BootDeviceATA.read 1 true ataSectorSz) { idleDrivers.boot with mBase := 1024, mSize := 512 }
        2 2 ∧
      ProgramsAhci (AhciPort.ioDrvInput 1 superBlockPacket 4096) (AhciPort.idle fun _ => 0) 1024 512 ∧
      sectorsTouched 1024 512 = 1 ∧ ¬ idleDrivers.SameReads 1024 512 := by
  refine ⟨⟨ataCmdReadPio, ?_⟩, ⟨ataCmdReadPio, ?_⟩, idle_ahci_programs, rfl,
    idleDrivers.reads_differ Nat.one_pos 1024 512⟩
  · rw [show ataPrimaryIo = Ata.zeroedBus.io from rfl, Ata.ioDrvInput_programs Nat.one_pos]
    rfl
  · rw [BootDeviceATA.read_programs Nat.one_pos rfl rfl (by decide)]
    rfl

theorem superblock_never_same : ¬ idleDrivers.SameReads 1024 512 :=
  (idleDrivers.never_same Nat.one_pos 1024).1 512

end OpenNE

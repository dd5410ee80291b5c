import OpenNE.Storage.AtaBus

/-!
# The boot loader's ATA driver (`Boot/src/HEL/AMD64/BootATA.cc`, `BootKit/HW/ATA.h`)

The same code as the kernel's, behind a device object that keeps the address and the size of its next transfer.
-/

namespace OpenNE

open AtaBus

/-- `boot_ata_read`. -/
def bootAtaRead (fuel : Nat) (lba : UInt64) (io : UInt16) (master : UInt8) (sectorSz size : UInt64) :
    Call AtaBus (List UInt8) :=
  pioRead fuel lba io master sectorSz size

/-- `boot_ata_write`. -/
def bootAtaWrite (fuel : Nat) (lba : UInt64) (io : UInt16) (master : UInt8) (sectorSz : UInt64)
    (buf : List UInt8) : Call AtaBus Unit :=
  pioWrite fuel lba io master sectorSz buf

/-- `BootDeviceATA` and the device behind it. -/
structure BootDeviceATA where
  mBase : UInt64 := 1024
  mSize : UInt64 := 1024
  mBus : UInt16 := ataPrimaryIo
  mMaster : UInt8 := 0
  mErr : Bool := false
  kATADetected : Bool
  device : AtaBus

namespace BootDeviceATA

variable {α : Type}

/-- A call on the device. -/
def onDevice (call : Call AtaBus α) : Call BootDeviceATA α := fun s =>
  ((call s.device).1, { s with device := (call s.device).2 })

/-- `BootDeviceATA::Read` into a buffer (`true`) or a null pointer; the bytes put into the buffer. -/
def read (fuel : Nat) (buf : Bool) (sectorSz : UInt64) : Call BootDeviceATA (List UInt8) := do
  let s ← Call.gets id
  if s.kATADetected = false then
    Call.modify fun s => { s with mErr := true }
    return []
  else
    Call.modify fun s => { s with mErr := false }
    if buf = false ∨ sectorSz < 1 then return []
    else onDevice (bootAtaRead fuel s.mBase s.mBus s.mMaster sectorSz s.mSize)

/-- `BootDeviceATA::Write` of the first `mSize` bytes of a buffer, or of a null pointer. -/
def write (fuel : Nat) (buf : Option (List UInt8)) (sectorSz : UInt64) : Call BootDeviceATA Unit := do
  let s ← Call.gets id
  if s.kATADetected = false then Call.modify fun s => { s with mErr := true }
  else
    Call.modify fun s => { s with mErr := false }
    match buf with
    | none => Call.modify fun s => { s with mErr := true }
    | some content =>
      if sectorSz < 1 ∨ s.mSize < 1 then Call.modify fun s => { s with mErr := true }
      else onDevice (bootAtaWrite fuel s.mBase s.mBus s.mMaster sectorSz (content.take s.mSize.toNat))

end BootDeviceATA

end OpenNE

import OpenNE.Base.Call
import OpenNE.Base.Store
import Mathlib.Data.Nat.Bitwise

/-!
# An ATA device and programmed input and output (`Mod/ATA/ATA.h`)

The device is an array of 512-byte sectors behind the registers of a bus. A command starts a transfer at the
28-bit address in the address registers, for the number of sectors in the sector count register; its data port
moves one 16-bit word per access. `HALKit/AMD64/Storage/ATA.cc` and the boot loader's `BootATA.cc` drive it
with the same code, which is here under the names the two share.
-/

namespace OpenNE

def ataSrBsy : UInt8 := 0x80
def ataSrDrdy : UInt8 := 0x40
def ataSrErr : UInt8 := 0x01

def ataCmdReadPio : UInt8 := 0x20
def ataCmdWritePio : UInt8 := 0x30
def ataCmdIdentify : UInt8 := 0xEC

def ataRegData : UInt16 := 0x00
def ataRegNein : UInt16 := 0x01
def ataRegSecCount0 : UInt16 := 0x02
def ataRegLba0 : UInt16 := 0x03
def ataRegLba1 : UInt16 := 0x04
def ataRegLba2 : UInt16 := 0x05
def ataRegHddevsel : UInt16 := 0x06
def ataRegCommand : UInt16 := 0x07
def ataRegStatus : UInt16 := 0x07
def ataRegLba3 : UInt16 := 0x09

def ataPrimaryIo : UInt16 := 0x1F0
def ataPrimarySel : UInt8 := 0xA0
def ataSecondarySel : UInt8 := 0xB0
def ataMaster : UInt8 := 0x00
def ataSectorSz : UInt64 := 512

/-- The number of words of an identify block. -/
def kATADataLen : Nat := 256

/-! ### The device -/

/-- What the data port is connected to: nothing, `left` words of the disk from byte `next` on, or the identify
block from word `next` on. -/
inductive AtaTransfer where
  | idle
  | read (next left : Nat)
  | write (next left : Nat)
  | identify (next : Nat)

/-- A command as the device took it from its registers. -/
structure AtaCommand where
  command : UInt8
  lba : Nat
  count : Nat
  deriving DecidableEq

structure AtaBus where
  io : UInt16
  disk : Store
  sectors : Nat
  identifyBlock : Nat → UInt16
  /-- what the data port gives when there is nothing to transfer -/
  floating : UInt16
  regs : UInt16 → UInt8
  transfer : AtaTransfer
  /-- the commands executed so far -/
  issued : List AtaCommand

namespace AtaBus

/-- The address in the registers: bits 24 to 27 are the low bits of the drive select register. -/
def lba28 (bus : AtaBus) : Nat :=
  (bus.regs ataRegLba0).toNat + 2 ^ 8 * (bus.regs ataRegLba1).toNat +
    2 ^ 16 * (bus.regs ataRegLba2).toNat + 2 ^ 24 * (bus.regs ataRegHddevsel &&& 0x0F).toNat

/-- The number of sectors in the register, where 0 stands for 256. -/
def sectorCount (count : UInt8) : Nat := if count = 0 then 256 else count.toNat

/-- What a command connects the data port to. -/
def transferOf (command : UInt8) (lba count : Nat) : AtaTransfer :=
  if command = ataCmdReadPio then .read (512 * lba) (256 * count)
  else if command = ataCmdWritePio then .write (512 * lba) (256 * count)
  else if command = ataCmdIdentify then .identify 0
  else .idle

def execute (command : UInt8) (bus : AtaBus) : AtaBus :=
  let count := sectorCount (bus.regs ataRegSecCount0)
  { bus with
    transfer := transferOf command bus.lba28 count
    issued := bus.issued ++ [⟨command, bus.lba28, count⟩] }

/-- The word at byte `next` of the disk. -/
def wordAt (bus : AtaBus) (next : Nat) : UInt16 :=
  if next < 512 * bus.sectors then (bus.disk next).toUInt16 ||| (bus.disk (next + 1)).toUInt16 <<< 8
  else bus.floating

def putWord (next : Nat) (word : UInt16) (bus : AtaBus) : AtaBus :=
  if next < 512 * bus.sectors then
    { bus with disk := bus.disk.write next [word.toUInt8, (word >>> 8).toUInt8] }
  else bus

def withRegs (regs : UInt16 → UInt8) (bus : AtaBus) : AtaBus := { bus with regs := regs }

def putReg (reg : UInt16) (value : UInt8) (bus : AtaBus) : AtaBus :=
  bus.withRegs (Function.update bus.regs reg value)

/-! ### Ports -/

/-- `rt_in8` of the status register: the device is ready and not busy. -/
def rtIn8 (_port : UInt16) : Call AtaBus UInt8 := pure ataSrDrdy

/-- `rt_out8`. -/
def rtOut8 (port : UInt16) (value : UInt8) : Call AtaBus Unit :=
  Call.modify fun bus =>
    if port = bus.io + ataRegCommand then bus.execute value
    else bus.putReg (port - bus.io) value

/-- The word the data port gives next, and the device once it has. -/
def nextWord (bus : AtaBus) : UInt16 × AtaBus :=
  match bus.transfer with
  | .read next (left + 1) => (bus.wordAt next, { bus with transfer := .read (next + 2) left })
  | .identify next =>
    if next < kATADataLen then (bus.identifyBlock next, { bus with transfer := .identify (next + 1) })
    else (bus.floating, bus)
  | _ => (bus.floating, bus)

/-- The device once the data port was given `word`. -/
def takeWord (word : UInt16) (bus : AtaBus) : AtaBus :=
  match bus.transfer with
  | .write next (left + 1) => { bus.putWord next word with transfer := .write (next + 2) left }
  | _ => bus

/-- `rt_in16` of the data port. -/
def rtIn16 (_port : UInt16) : Call AtaBus UInt16 := fun bus => (.ok bus.nextWord.1, bus.nextWord.2)

/-- `rt_out16` to the data port. -/
def rtOut16 (_port : UInt16) (word : UInt16) : Call AtaBus Unit := Call.modify (takeWord word)

/-! ### The drivers' code -/

/-- One read of the status that goes on while the device is busy. -/
def busyRound (io : UInt16) : Unit → Call AtaBus (Unit ⊕ Unit) := fun _ => do
  let statRdy ← rtIn8 (io + ataRegStatus)
  if statRdy &&& ataSrBsy ≠ 0 then return .inl () else return .inr ()

/-- One that goes on until there is an error or the device is ready. -/
def readyRound (io : UInt16) : Unit → Call AtaBus (Unit ⊕ Bool) := fun _ => do
  let statRdy ← rtIn8 (io + ataRegStatus)
  if statRdy &&& ataSrErr ≠ 0 then return .inr false
  else if statRdy &&& ataSrDrdy = 0 then return .inl ()
  else return .inr true

/-- `drv_std_wait_io`. -/
def waitIo (fuel : Nat) (io : UInt16) : Call AtaBus Bool := do
  Call.all (fun _ => do let _ ← rtIn8 (io + ataRegStatus)) (List.range 400)
  Call.rounds (busyRound io) fuel ()
  Call.rounds (readyRound io) fuel ()

/-- `drv_std_select`. -/
def select (bus : UInt16) : Call AtaBus Unit :=
  if bus = ataPrimaryIo then rtOut8 (bus + ataRegHddevsel) ataPrimarySel
  else rtOut8 (bus + ataRegHddevsel) ataSecondarySel

/-- What `drv_std_read` and `drv_std_write` do before their loops. -/
def program (fuel : Nat) (command : UInt8) (lba : UInt64) (io : UInt16) (master : UInt8)
    (sectorSz size : UInt64) : Call AtaBus Unit := do
  let lba := lba / sectorSz
  let head : UInt8 := if master = 0 then 0xE0 else 0xF0
  let _ ← waitIo fuel io
  select io
  rtOut8 (io + ataRegHddevsel) (head ||| ((lba >>> 24) &&& 0x0F).toUInt8)
  rtOut8 (io + ataRegSecCount0) ((size + sectorSz) / sectorSz).toUInt8
  rtOut8 (io + ataRegLba0) (lba &&& 0xFF).toUInt8
  rtOut8 (io + ataRegLba1) (lba >>> 8).toUInt8
  rtOut8 (io + ataRegLba2) (lba >>> 16).toUInt8
  rtOut8 (io + ataRegLba3) (lba >>> 24).toUInt8
  rtOut8 (io + ataRegCommand) command
  let _ ← waitIo fuel io

/-- The words of a read loop, each stored in a `Char` of the buffer. -/
def readLoop (fuel : Nat) (io : UInt16) : Nat → Call AtaBus (List UInt8)
  | 0 => pure []
  | size + 1 => do
    let _ ← waitIo fuel io
    let word ← rtIn16 (io + ataRegData)
    let _ ← waitIo fuel io
    let buf ← readLoop fuel io size
    return word.toUInt8 :: buf

/-- The word a `Char` of the buffer is converted to. -/
def charWord (c : UInt8) : UInt16 := c.toInt8.toInt16.toUInt16

/-- The write loop over the `Char`s of the buffer. -/
def writeLoop (fuel : Nat) (io : UInt16) : List UInt8 → Call AtaBus Unit
  | [] => pure ()
  | c :: buf => do
    let _ ← waitIo fuel io
    rtOut16 (io + ataRegData) (charWord c)
    let _ ← waitIo fuel io
    writeLoop fuel io buf

/-- `drv_std_read` into a buffer of `size` bytes. -/
def pioRead (fuel : Nat) (lba : UInt64) (io : UInt16) (master : UInt8) (sectorSz size : UInt64) :
    Call AtaBus (List UInt8) := do
  program fuel ataCmdReadPio lba io master sectorSz size
  readLoop fuel io size.toNat

/-- `drv_std_write` of a buffer. -/
def pioWrite (fuel : Nat) (lba : UInt64) (io : UInt16) (master : UInt8) (sectorSz : UInt64)
    (buf : List UInt8) : Call AtaBus Unit := do
  program fuel ataCmdWritePio lba io master sectorSz (UInt64.ofNat buf.length)
  writeLoop fuel io buf
  let _ ← waitIo fuel io

/-- One read of the status before the identify command. -/
def identifyRound (io : UInt16) : Unit → Call AtaBus (Unit ⊕ Bool) := fun _ => do
  let statRdy ← rtIn8 (io + ataRegStatus)
  if statRdy &&& ataSrErr ≠ 0 then return .inr false
  else if statRdy &&& ataSrBsy ≠ 0 then return .inl ()
  else return .inr true

/-- The words of the identify block. -/
def identifyLoop (io : UInt16) : Nat → Call AtaBus (List UInt16)
  | 0 => pure []
  | n + 1 => do
    let word ← rtIn16 (io + ataRegData)
    let words ← identifyLoop io n
    return word :: words

/-- `drv_std_init` of a bus where nothing was detected yet: the words for `kATAData`. -/
def init (fuel : Nat) (bus : UInt16) : Call AtaBus (Option (List UInt16)) := do
  select bus
  rtOut8 (bus + ataRegNein) 1
  if ← Call.rounds (identifyRound bus) fuel () then
    rtOut8 (bus + ataRegCommand) ataCmdIdentify
    let _ ← waitIo fuel bus
    let words ← identifyLoop bus kATADataLen
    return some words
  else return none

/-! ### What the code does to a device that is ready -/

section Ready

variable {fuel : Nat} {io : UInt16} {bus : AtaBus}

@[simp] theorem withRegs_regs (regs : UInt16 → UInt8) : (bus.withRegs regs).regs = regs := rfl

@[simp] theorem withRegs_withRegs (regs regs' : UInt16 → UInt8) :
    (bus.withRegs regs).withRegs regs' = bus.withRegs regs' := rfl

@[simp] theorem putReg_io (reg : UInt16) (value : UInt8) : (bus.putReg reg value).io = bus.io := rfl

theorem waitIo_returns (hfuel : 0 < fuel) : waitIo fuel io bus = (.ok true, bus) := by
  obtain ⟨fuel, rfl⟩ : ∃ k, fuel = k + 1 := ⟨fuel - 1, by omega⟩
  have hpolls : ∀ ops : List Nat,
      Call.all (fun _ => do let _ ← rtIn8 (io + ataRegStatus)) ops bus = (.ok (), bus) := by
    intro ops
    induction ops with
    | nil => rfl
    | cons op ops ih => exact ih
  rw [waitIo, Call.bind_of_ok (hpolls _)]
  rfl

theorem waitIo_bind {α : Type} {next : Bool → Call AtaBus α} (hfuel : 0 < fuel) :
    (waitIo fuel io >>= next) bus = next true bus :=
  Call.bind_of_ok (waitIo_returns hfuel)

theorem rtOut8_bind {α : Type} {next : Unit → Call AtaBus α} {reg : UInt16} (value : UInt8)
    (hio : bus.io = io) (hreg : reg ≠ ataRegCommand) :
    (rtOut8 (io + reg) value >>= next) bus = next () (bus.putReg reg value) := by
  subst hio
  have hport : bus.io + reg ≠ bus.io + ataRegCommand := fun h => hreg ((UInt16.add_right_inj _).mp h)
  have hdecode : bus.io + reg - bus.io = reg := by
    rw [UInt16.add_comm, UInt16.add_sub_cancel]
  apply Call.bind_of_ok
  rw [rtOut8, Call.modify, if_neg hport, hdecode]

theorem rtOut8_command_bind {α : Type} {next : Unit → Call AtaBus α} (command : UInt8) (hio : bus.io = io) :
    (rtOut8 (io + ataRegCommand) command >>= next) bus = next () (bus.execute command) := by
  apply Call.bind_of_ok
  rw [rtOut8, Call.modify, if_pos (by rw [hio])]

theorem select_bind {α : Type} {next : Unit → Call AtaBus α} (bus : AtaBus) (hio : bus.io = io) :
    ∃ value, (select io >>= next) bus = next () (bus.putReg ataRegHddevsel value) := by
  by_cases hprimary : io = ataPrimaryIo
  · refine ⟨ataPrimarySel, ?_⟩
    rw [select, if_pos hprimary, rtOut8_bind _ hio (by decide)]
  · refine ⟨ataSecondarySel, ?_⟩
    rw [select, if_neg hprimary, rtOut8_bind _ hio (by decide)]

/-! ### The command a transfer is started with -/

/-- The command for `size` bytes at `lba`: the sector number is cut to 28 bits, the sector count to 8. -/
def commandFor (command : UInt8) (lba sectorSz size : UInt64) : AtaCommand :=
  ⟨command, (lba / sectorSz).toNat % 2 ^ 28, sectorCount ((size + sectorSz) / sectorSz).toUInt8⟩

/-- The device once it took the command. -/
def started (command : AtaCommand) (bus : AtaBus) : AtaBus :=
  { bus with
    transfer := transferOf command.command command.lba command.count
    issued := bus.issued ++ [command] }

theorem drive_nibble (head nibble : UInt8) (hhead : head = 0xE0 ∨ head = 0xF0) :
    (head ||| nibble) &&& 0x0F = nibble &&& 0x0F := by
  have hlow : head.toNat &&& 15 = 0 := by
    rcases hhead with rfl | rfl <;> rfl
  apply UInt8.toNat_inj.mp
  simp only [UInt8.toNat_and, UInt8.toNat_or, UInt8.reduceToNat]
  rw [Nat.and_or_distrib_right, hlow, Nat.zero_or]

theorem lba28_toNat (lba : UInt64) :
    (lba &&& 0xFF).toUInt8.toNat + 2 ^ 8 * (lba >>> 8).toUInt8.toNat + 2 ^ 16 * (lba >>> 16).toUInt8.toNat +
      2 ^ 24 * (((lba >>> 24) &&& 0x0F).toUInt8 &&& 0x0F).toNat = lba.toNat % 2 ^ 28 := by
  have h0 : (lba &&& 0xFF).toUInt8.toNat = lba.toNat % 2 ^ 8 := by
    simp [UInt64.toNat_toUInt8, Nat.and_two_pow_sub_one_eq_mod _ 8]
  have h1 : (lba >>> 8).toUInt8.toNat = lba.toNat / 2 ^ 8 % 2 ^ 8 := by
    simp [Nat.shiftRight_eq_div_pow]
  have h2 : (lba >>> 16).toUInt8.toNat = lba.toNat / 2 ^ 16 % 2 ^ 8 := by
    simp [Nat.shiftRight_eq_div_pow]
  have h3 : (((lba >>> 24) &&& 0x0F).toUInt8 &&& 0x0F).toNat = lba.toNat / 2 ^ 24 % 2 ^ 4 := by
    simp [UInt64.toNat_toUInt8, Nat.and_two_pow_sub_one_eq_mod _ 4, Nat.shiftRight_eq_div_pow]
  rw [h0, h1, h2, h3]
  omega

theorem execute_eq_started (command : AtaCommand) (hlba : bus.lba28 = command.lba)
    (hcount : sectorCount (bus.regs ataRegSecCount0) = command.count) :
    bus.execute command.command = bus.started command := by
  rw [execute, started, hlba, hcount]

theorem program_bind {α : Type} (next : Unit → Call AtaBus α) (hfuel : 0 < fuel) (hio : bus.io = io)
    (command : UInt8) (lba : UInt64) (master : UInt8) (sectorSz size : UInt64) :
    ∃ regs, (program fuel command lba io master sectorSz size >>= next) bus =
      next () ((bus.withRegs regs).started (commandFor command lba sectorSz size)) := by
  obtain ⟨regs, hregs⟩ : ∃ regs, program fuel command lba io master sectorSz size bus =
      (.ok (), (bus.withRegs regs).started (commandFor command lba sectorSz size)) := by
    rw [program, waitIo_bind hfuel]
    obtain ⟨value, hselect⟩ := select_bind bus hio
    rw [hselect, rtOut8_bind, rtOut8_bind, rtOut8_bind, rtOut8_bind, rtOut8_bind, rtOut8_bind,
      rtOut8_command_bind, waitIo_bind hfuel]
    · simp only [putReg, withRegs_regs, withRegs_withRegs]
      have hhead : (if master = 0 then 0xE0 else 0xF0 : UInt8) = 0xE0 ∨
          (if master = 0 then 0xE0 else 0xF0 : UInt8) = 0xF0 := by
        by_cases hmaster : master = 0
        · exact .inl (if_pos hmaster)
        · exact .inr (if_neg hmaster)
      refine ⟨_, congrArg (Prod.mk _) (execute_eq_started (commandFor command lba sectorSz size) ?_ ?_)⟩
      · rw [lba28]
        simp only [withRegs_regs, Function.update_apply]
        have hlba := lba28_toNat (lba / sectorSz)
        rw [← drive_nibble _ _ hhead] at hlba
        exact hlba
      · rfl
    all_goals first | decide | simp only [putReg_io, hio]
  exact ⟨regs, Call.bind_of_ok hregs⟩

theorem rtIn16_bind {α : Type} {next : UInt16 → Call AtaBus α} (port : UInt16) :
    (rtIn16 port >>= next) bus = next bus.nextWord.1 bus.nextWord.2 :=
  Call.bind_of_ok rfl

theorem rtOut16_bind {α : Type} {next : Unit → Call AtaBus α} (port word : UInt16) :
    (rtOut16 port word >>= next) bus = next () (bus.takeWord word) :=
  Call.bind_of_ok rfl

/-! ### Transfers -/

def withTransfer (transfer : AtaTransfer) (bus : AtaBus) : AtaBus := { bus with transfer := transfer }

def withDisk (disk : Store) (bus : AtaBus) : AtaBus := { bus with disk := disk }

/-- What the data port gives at access `i` of a read of `left` words from byte `next` on. -/
def received (next left i : Nat) (bus : AtaBus) : UInt16 :=
  if i < left then bus.wordAt (next + 2 * i) else bus.floating

theorem readLoop_returns (hfuel : 0 < fuel) (n : Nat) :
    ∀ (next left : Nat) (bus : AtaBus), bus.transfer = .read next left →
      ∃ transfer, readLoop fuel io n bus =
        (.ok ((List.range n).map fun i => (bus.received next left i).toUInt8), bus.withTransfer transfer) := by
  induction n with
  | zero => exact fun next left bus _ => ⟨bus.transfer, rfl⟩
  | succ n ih =>
    intro next left bus htransfer
    rw [readLoop, waitIo_bind hfuel, rtIn16_bind, waitIo_bind hfuel, List.range_succ_eq_map, List.map_cons,
      List.map_map]
    cases left with
    | zero =>
      have hword : bus.nextWord = (bus.floating, bus) := by
        rw [nextWord, htransfer]
      obtain ⟨transfer, hrest⟩ := ih next 0 bus htransfer
      refine ⟨transfer, ?_⟩
      rw [hword, Call.bind_of_ok hrest]
      rfl
    | succ left =>
      have hword : bus.nextWord = (bus.wordAt next, bus.withTransfer (.read (next + 2) left)) := by
        rw [nextWord, htransfer]
        rfl
      obtain ⟨transfer, hrest⟩ := ih (next + 2) left (bus.withTransfer (.read (next + 2) left)) rfl
      refine ⟨transfer, ?_⟩
      have hshift : ∀ i, (bus.withTransfer (.read (next + 2) left)).received (next + 2) left i =
          bus.received next (left + 1) (i + 1) := by
        intro i
        simp only [received, Nat.add_lt_add_iff_right, show next + 2 + 2 * i = next + 2 * (i + 1) by omega]
        rfl
      rw [hword, Call.bind_of_ok hrest]
      simp only [hshift]
      rfl

/-- The high byte of the word a `Char` is converted to. -/
def signByte (c : UInt8) : UInt8 := if c < 128 then 0 else 255

theorem charWord_bytes (c : UInt8) : (charWord c).toUInt8 = c ∧ (charWord c >>> 8).toUInt8 = signByte c := by
  have hall : ∀ n : Fin 256, (charWord (.ofFin n)).toUInt8 = .ofFin n ∧
      (charWord (.ofFin n) >>> 8).toUInt8 = signByte (.ofFin n) := by decide +kernel
  exact hall c.toFin

/-- A disk of `size` bytes with the first `words` bytes of `buf` laid down from `next` on, each as a word. -/
def spread (size next words : Nat) (buf : List UInt8) (disk : Store) : Store := fun p =>
  if next ≤ p ∧ p < next + 2 * words ∧ p < size then
    if (p - next) % 2 = 0 then buf.getD ((p - next) / 2) 0 else signByte (buf.getD ((p - next) / 2) 0)
  else disk p

theorem spread_low {size next words k : Nat} {buf : List UInt8} {disk : Store} (hk : k < words)
    (hsize : next + 2 * k < size) : spread size next words buf disk (next + 2 * k) = buf.getD k 0 := by
  rw [spread, if_pos (by omega), if_pos (by omega), show (next + 2 * k - next) / 2 = k by omega]

theorem spread_high {size next words k : Nat} {buf : List UInt8} {disk : Store} (hk : k < words)
    (hsize : next + 2 * k + 1 < size) :
    spread size next words buf disk (next + 2 * k + 1) = signByte (buf.getD k 0) := by
  rw [spread, if_pos ⟨by omega, by omega, hsize⟩, if_neg (by omega),
    show (next + 2 * k + 1 - next) / 2 = k by omega]

theorem spread_outside {size next words p : Nat} {buf : List UInt8} {disk : Store}
    (h : p < next ∨ next + 2 * words ≤ p ∨ size ≤ p) : spread size next words buf disk p = disk p := by
  rw [spread, if_neg (by omega)]

theorem spread_cons (size next words : Nat) (c : UInt8) (buf : List UInt8) (disk : Store) (hnext : next % 2 = 0)
    (hsize : size % 2 = 0) :
    spread size (next + 2) words buf
      (if next < size then disk.write next [(charWord c).toUInt8, (charWord c >>> 8).toUInt8] else disk) =
    spread size next (words + 1) (c :: buf) disk := by
  obtain ⟨hlow, hhigh⟩ := charWord_bytes c
  rw [hlow, hhigh]
  generalize hfirst : (if next < size then disk.write next [c, signByte c] else disk) = first
  have hkept : ∀ p, p < next ∨ next + 2 ≤ p ∨ size ≤ p → first p = disk p := by
    intro p hp
    rw [← hfirst]
    split
    · exact Store.write_apply_outside (by simp only [List.length_cons, List.length_nil]; omega)
    · rfl
  funext p
  by_cases hout : p < next ∨ next + 2 * (words + 1) ≤ p ∨ size ≤ p
  · rw [spread_outside hout, spread_outside (by omega), hkept p (by omega)]
  · have hfits : next < size := by omega
    rw [if_pos hfits] at hfirst
    obtain ⟨k, rfl | rfl⟩ : ∃ k, p = next + 2 * k ∨ p = next + 2 * k + 1 := ⟨(p - next) / 2, by omega⟩
    · rw [spread_low (by omega) (by omega)]
      cases k with
      | zero =>
        rw [spread_outside (by omega), ← hfirst]
        exact Store.write_apply_inside (i := 0) (by simp)
      | succ k =>
        rw [show next + 2 * (k + 1) = next + 2 + 2 * k by omega, spread_low (by omega) (by omega),
          List.getD_cons_succ]
    · rw [spread_high (by omega) (by omega)]
      cases k with
      | zero =>
        rw [spread_outside (by omega), ← hfirst]
        exact Store.write_apply_inside (i := 1) (by simp)
      | succ k =>
        rw [show next + 2 * (k + 1) + 1 = next + 2 + 2 * k + 1 by omega, spread_high (by omega) (by omega),
          List.getD_cons_succ]

theorem writeLoop_returns (hfuel : 0 < fuel) (buf : List UInt8) :
    ∀ (next left : Nat) (bus : AtaBus), bus.transfer = .write next left → next % 2 = 0 →
      ∃ transfer, writeLoop fuel io buf bus = (.ok (), (bus.withDisk
        (spread (512 * bus.sectors) next (min left buf.length) buf bus.disk)).withTransfer transfer) := by
  induction buf with
  | nil =>
    intro next left bus _ _
    refine ⟨bus.transfer, ?_⟩
    have hnone : spread (512 * bus.sectors) next (min left 0) [] bus.disk = bus.disk := by
      funext p
      exact spread_outside (by omega)
    rw [List.length_nil, hnone]
    rfl
  | cons c buf ih =>
    intro next left bus htransfer hnext
    rw [writeLoop, waitIo_bind hfuel, rtOut16_bind, waitIo_bind hfuel]
    cases left with
    | zero =>
      have hword : bus.takeWord (charWord c) = bus := by
        rw [takeWord, htransfer]
      obtain ⟨transfer, hrest⟩ := ih next 0 bus htransfer hnext
      refine ⟨transfer, ?_⟩
      rw [hword, hrest, Nat.zero_min, Nat.zero_min]
      congr 3
      funext p
      rw [spread_outside (by omega), spread_outside (by omega)]
    | succ left =>
      have hword : bus.takeWord (charWord c) =
          (bus.putWord next (charWord c)).withTransfer (.write (next + 2) left) := by
        rw [takeWord, htransfer]
        rfl
      have hput : bus.putWord next (charWord c) = bus.withDisk (if next < 512 * bus.sectors then
          bus.disk.write next [(charWord c).toUInt8, (charWord c >>> 8).toUInt8] else bus.disk) := by
        rw [putWord]
        split
        · rfl
        · rfl
      obtain ⟨transfer, hrest⟩ := ih (next + 2) left (bus.takeWord (charWord c)) (by rw [hword]; rfl) (by omega)
      refine ⟨transfer, ?_⟩
      rw [hrest, hword, hput, List.length_cons, Nat.add_min_add_right,
        ← spread_cons _ _ _ _ _ _ hnext (by omega)]
      rfl

/-- What a transfer leaves of the device: the disk, and a command more. -/
structure After (command : AtaCommand) (disk : Store) (bus bus' : AtaBus) : Prop where
  io : bus'.io = bus.io
  sectors : bus'.sectors = bus.sectors
  identifyBlock : bus'.identifyBlock = bus.identifyBlock
  floating : bus'.floating = bus.floating
  disk : bus'.disk = disk
  issued : bus'.issued = bus.issued ++ [command]

theorem pioRead_returns (hfuel : 0 < fuel) (hio : bus.io = io) (lba : UInt64) (master : UInt8)
    (sectorSz size : UInt64) :
    ∃ bus', pioRead fuel lba io master sectorSz size bus =
        (.ok ((List.range size.toNat).map fun i => (bus.received
          (512 * (commandFor ataCmdReadPio lba sectorSz size).lba)
          (256 * (commandFor ataCmdReadPio lba sectorSz size).count) i).toUInt8), bus') ∧
      After (commandFor ataCmdReadPio lba sectorSz size) bus.disk bus bus' := by
  obtain ⟨regs, hprogram⟩ := program_bind (fun _ => readLoop fuel io size.toNat) hfuel hio
    ataCmdReadPio lba master sectorSz size
  obtain ⟨transfer, hloop⟩ := readLoop_returns hfuel size.toNat _ _
    ((bus.withRegs regs).started (commandFor ataCmdReadPio lba sectorSz size)) rfl
  refine ⟨_, hprogram.trans hloop, ?_⟩
  · exact ⟨rfl, rfl, rfl, rfl, rfl, rfl⟩

theorem pioWrite_returns (hfuel : 0 < fuel) (hio : bus.io = io) (lba : UInt64) (master : UInt8)
    (sectorSz : UInt64) (buf : List UInt8) :
    ∃ bus', pioWrite fuel lba io master sectorSz buf bus = (.ok (), bus') ∧
      After (commandFor ataCmdWritePio lba sectorSz (.ofNat buf.length))
        (spread (512 * bus.sectors) (512 * (commandFor ataCmdWritePio lba sectorSz (.ofNat buf.length)).lba)
          (min (256 * (commandFor ataCmdWritePio lba sectorSz (.ofNat buf.length)).count) buf.length) buf bus.disk)
        bus bus' := by
  obtain ⟨regs, hprogram⟩ := program_bind (fun _ => do writeLoop fuel io buf; let _ ← waitIo fuel io) hfuel hio
    ataCmdWritePio lba master sectorSz (.ofNat buf.length)
  obtain ⟨transfer, hloop⟩ := writeLoop_returns hfuel buf _ _
    ((bus.withRegs regs).started (commandFor ataCmdWritePio lba sectorSz (.ofNat buf.length))) rfl (by omega)
  refine ⟨_, hprogram.trans ((Call.bind_of_ok hloop).trans (waitIo_bind hfuel)), ?_⟩
  · exact ⟨rfl, rfl, rfl, rfl, rfl, rfl⟩

theorem identifyLoop_returns (io : UInt16) (n : Nat) :
    ∀ (next : Nat) (bus : AtaBus), bus.transfer = .identify next → next + n ≤ kATADataLen →
      ∃ bus', identifyLoop io n bus = (.ok ((List.range n).map fun i => bus.identifyBlock (next + i)), bus') := by
  induction n with
  | zero => exact fun next bus _ _ => ⟨bus, rfl⟩
  | succ n ih =>
    intro next bus htransfer hnext
    have hword : bus.nextWord = (bus.identifyBlock next, bus.withTransfer (.identify (next + 1))) := by
      rw [nextWord, htransfer]
      exact if_pos (by omega)
    obtain ⟨bus', hrest⟩ := ih (next + 1) (bus.withTransfer (.identify (next + 1))) rfl (by omega)
    refine ⟨bus', ?_⟩
    have hshift : ∀ i, next + 1 + i = next + (i + 1) := by omega
    rw [identifyLoop, rtIn16_bind, hword, Call.bind_of_ok hrest, List.range_succ_eq_map, List.map_cons,
      List.map_map]
    simp only [hshift]
    rfl

theorem init_returns (bus : AtaBus) (hfuel : 0 < fuel) (hio : bus.io = io) :
    ∃ bus', init fuel io bus = (.ok (some ((List.range kATADataLen).map bus.identifyBlock)), bus') := by
  have hready : ∀ bus : AtaBus, Call.rounds (identifyRound io) fuel () bus = (.ok true, bus) := by
    obtain ⟨fuel, rfl⟩ : ∃ k, fuel = k + 1 := ⟨fuel - 1, by omega⟩
    exact fun _ => rfl
  obtain ⟨value, hselect⟩ := select_bind bus hio
  rw [init, hselect, rtOut8_bind _ (by rw [putReg_io, hio]) (by decide), Call.bind_of_ok (hready _), if_pos rfl,
    rtOut8_command_bind _ (by rw [putReg_io, putReg_io, hio]), waitIo_bind hfuel]
  obtain ⟨bus', hloop⟩ := identifyLoop_returns io kATADataLen 0 (((bus.putReg ataRegHddevsel value).putReg
    ataRegNein 1).execute ataCmdIdentify) rfl (by omega)
  refine ⟨bus', ?_⟩
  rw [Call.bind_of_ok hloop]
  simp only [Nat.zero_add]
  rfl

end Ready

end AtaBus

end OpenNE

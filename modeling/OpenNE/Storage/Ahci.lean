import OpenNE.Base.Call
import OpenNE.NeFS.Packet
import Mathlib.Data.Nat.Bitwise

/-!
# The kernel's AHCI driver (`HALKit/AMD64/Storage/SATA.cc`, `Mod/AHCI/AHCI.h`)

A command is a frame in the command table of a free slot: the driver fills it in, issues the slot and waits
for the device to clear it. The device here takes the frame of an issued slot at once; `issued` are the frames
it took.
-/

namespace OpenNE

def kAHCISectorSize : UInt64 := 512

def kFISTypeRegH2D : UInt8 := 0x27

def kAHCICmdIdentify : UInt8 := 0xEC
def kAHCICmdReadDmaEx : UInt8 := 0x25
def kAHCICmdWriteDmaEx : UInt8 := 0x35

def kSataLBAMode : UInt8 := 0x40
def kHBAErrTaskFile : UInt32 := 0x40000000
def kAhciSRBsy : UInt32 := 0x80
def kAhciSRDrq : UInt32 := 0x08

/-- `FisRegH2D`, the fields a command is made of. -/
structure FisRegH2D where
  FisType : UInt8
  CmdOrCtrl : Bool
  Command : UInt8
  Lba0 : UInt8
  Lba1 : UInt8
  Lba2 : UInt8
  Device : UInt8
  Lba3 : UInt8
  Lba4 : UInt8
  Lba5 : UInt8
  CountLow : UInt8
  CountHigh : UInt8

/-- The sector a frame names. -/
def FisRegH2D.lba (fis : FisRegH2D) : Nat :=
  fis.Lba0.toNat + 2 ^ 8 * fis.Lba1.toNat + 2 ^ 16 * fis.Lba2.toNat + 2 ^ 24 * fis.Lba3.toNat +
    2 ^ 32 * fis.Lba4.toNat + 2 ^ 40 * fis.Lba5.toNat

/-- The number of sectors it asks for, where 0 stands for 65536. -/
def FisRegH2D.count (fis : FisRegH2D) : Nat :=
  if fis.CountLow = 0 ∧ fis.CountHigh = 0 then 65536 else fis.CountLow.toNat + 2 ^ 8 * fis.CountHigh.toNat

/-- `HbaCmdHeader`. -/
structure HbaCmdHeader where
  Cfl : UInt8
  Write : Bool
  Prdtl : UInt16

/-- `HbaPrdtEntry`. -/
structure HbaPrdtEntry where
  Dba : UInt32
  Dbau : UInt32
  Dbc : UInt32
  InterruptBit : Bool

/-- The port the driver uses, with what the command list and the command tables of its slots hold. The device
delivers `identifyBlock` into `memory`. -/
structure AhciPort where
  Cap : UInt32
  Sact : UInt32
  Ci : UInt32
  Tfd : UInt32
  Is : UInt32
  headers : Nat → HbaCmdHeader
  frames : Nat → FisRegH2D
  prdt : Nat → List HbaPrdtEntry
  identifyBlock : Nat → UInt16
  memory : Store
  issued : List FisRegH2D

namespace AhciPort

/-- A port with 32 slots and no command in any of them. -/
def idle (identifyBlock : Nat → UInt16) : AhciPort where
  Cap := 31
  Sact := 0
  Ci := 0
  Tfd := 0x50
  Is := 0
  headers := fun _ => ⟨0, false, 8⟩
  frames := fun _ => ⟨0, false, 0, 0, 0, 0, 0, 0, 0, 0, 0, 0⟩
  prdt := fun _ => []
  identifyBlock := identifyBlock
  memory := fun _ => 0
  issued := []

/-- `drv_find_cmd_slot`, on the slots in use that are left to look at. -/
def freeSlot (slots : UInt32) (i : Nat) : Nat → Option Nat
  | 0 => none
  | left + 1 => if slots &&& 1 = 0 then some i else freeSlot (slots >>> 1) (i + 1) left

def drvFindCmdSlot (port : AhciPort) : Option Nat :=
  freeSlot (port.Sact ||| port.Ci) 0 ((port.Cap &&& 0x1F) + 1).toNat

/-- The entries written for a buffer. `Dbc` has 22 bits. -/
def prdtEntries (buffer sizeBuffer : UInt64) : Nat → List HbaPrdtEntry
  | 0 => []
  | n + 1 =>
    { Dba := buffer.toUInt32
      Dbau := (buffer >>> 32).toUInt32
      Dbc := (sizeBuffer - 1).toUInt32 &&& 0x3FFFFF
      InterruptBit := true } :: prdtEntries (buffer + 4096) (sizeBuffer - 16) n

/-- The frame of a command in place of what was in the table. -/
def commandFrame (write identify : Bool) (lba sectorSz : UInt64) (fis : FisRegH2D) : FisRegH2D :=
  { fis with
    FisType := kFISTypeRegH2D
    CmdOrCtrl := true
    Command := if identify then kAHCICmdIdentify else if write then kAHCICmdWriteDmaEx else kAHCICmdReadDmaEx
    Lba0 := lba.toUInt8
    Lba1 := (lba >>> 8).toUInt8
    Lba2 := (lba >>> 16).toUInt8
    Lba3 := (lba >>> 24).toUInt8
    Device := kSataLBAMode
    CountLow := (sectorSz &&& 0xFF).toUInt8
    CountHigh := ((sectorSz >>> 8) &&& 0xFF).toUInt8 }

/-- The port with the command set up in `slot`. -/
def prepared (slot : Nat) (write : Bool) (prdtl : UInt16) (entries : List HbaPrdtEntry) (fis : FisRegH2D)
    (port : AhciPort) : AhciPort :=
  { port with
    headers := Function.update port.headers slot ⟨5, write, prdtl⟩
    prdt := Function.update port.prdt slot entries
    frames := Function.update port.frames slot fis }

/-- The 512 bytes of the identify block. -/
def identifyBytes (port : AhciPort) : List UInt8 :=
  (List.range 512).map fun i =>
    if i % 2 = 0 then (port.identifyBlock (i / 2)).toUInt8 else (port.identifyBlock (i / 2) >>> 8).toUInt8

/-- What the command of `slot` makes of the memory. -/
def delivered (slot : Nat) (port : AhciPort) : Store :=
  match port.prdt slot with
  | [] => port.memory
  | entry :: _ =>
    if (port.frames slot).Command = kAHCICmdIdentify then
      port.memory.write (entry.Dba.toNat + 2 ^ 32 * entry.Dbau.toNat) port.identifyBytes
    else port.memory

/-- `Ci |= 1 << slot`: the device takes the frame and clears the slot. -/
def issue (slot : Nat) (port : AhciPort) : AhciPort :=
  { port with
    memory := port.delivered slot
    issued := port.issued ++ [port.frames slot] }

/-- One round of the wait for the task file. -/
def readyRound : Unit → Call AhciPort (Unit ⊕ Unit) := fun _ => do
  let tfd ← Call.gets Tfd
  if tfd &&& (kAhciSRBsy ||| kAhciSRDrq) ≠ 0 then return .inl () else return .inr ()

/-- One round of the wait for the slot. -/
def issuedRound (slot : Nat) : Unit → Call AhciPort (Unit ⊕ Unit) := fun _ => do
  let port ← Call.gets id
  if port.Ci &&& (1 <<< slot.toUInt32) = 0 then return .inr ()
  else if port.Is &&& kHBAErrTaskFile ≠ 0 then Call.stop .panic
  else return .inl ()

/-- `drv_std_input_output` once `slot` was found. A descriptor table length of 0 makes the loop over the
descriptors run through the memory. -/
def commandIn (fuel : Nat) (slot : Nat) (write identify : Bool) (lba buffer sectorSz sizeBuffer : UInt64) :
    Call AhciPort Unit :=
  let prdtl : UInt16 := ((sizeBuffer - 1) >>> 4).toUInt16 + 1
  if prdtl = 0 then Call.stop .fault
  else do
    let fis ← Call.gets fun port => port.frames slot
    Call.modify (prepared slot write prdtl (prdtEntries buffer sizeBuffer (prdtl.toNat - 1))
      (commandFrame write identify lba sectorSz fis))
    Call.rounds readyRound fuel ()
    Call.modify (issue slot)
    Call.rounds (issuedRound slot) fuel ()

/-- `drv_std_input_output<Write, YES, Identify>`. -/
def drvStdInputOutput (fuel : Nat) (write identify : Bool) (lba buffer sectorSz sizeBuffer : UInt64) :
    Call AhciPort Unit := do
  match ← Call.gets drvFindCmdSlot with
  | none => return ()
  | some slot => commandIn fuel slot write identify lba buffer sectorSz sizeBuffer

/-- `drv_std_read`. -/
def drvStdRead (fuel : Nat) (lba buffer sectorSz sizeBuffer : UInt64) : Call AhciPort Unit :=
  drvStdInputOutput fuel false false lba buffer sectorSz sizeBuffer

/-- `drv_std_write`. -/
def drvStdWrite (fuel : Nat) (lba buffer sectorSz sizeBuffer : UInt64) : Call AhciPort Unit :=
  drvStdInputOutput fuel true false lba buffer sectorSz sizeBuffer

/-- `io_drv_input` of an AHCI build, into the memory at `content`. -/
def ioDrvInput (fuel : Nat) (pckt : DrivePacket) (content : UInt64) : Call AhciPort Unit :=
  drvStdRead fuel pckt.fPacketLba content kAHCISectorSize (.ofNat pckt.fPacketSize)

/-- `io_drv_output`. -/
def ioDrvOutput (fuel : Nat) (pckt : DrivePacket) (content : UInt64) : Call AhciPort Unit :=
  if pckt.fPacketReadOnly then pure ()
  else drvStdWrite fuel pckt.fPacketLba content kAHCISectorSize (.ofNat pckt.fPacketSize)

/-- `drv_calculate_disk_geometry` with `identify_data` at `data`: the new `kCurrentDiskSectorCount`. -/
def drvCalculateDiskGeometry (fuel : Nat) (data : UInt64) : Call AhciPort Lba := do
  Call.modify fun port => { port with memory := port.memory.write data.toNat (List.replicate 4096 0) }
  drvStdInputOutput fuel false true 0 data 0 8192
  let memory ← Call.gets AhciPort.memory
  return ((memory (data.toNat + 61)).toUInt64 <<< 16) ||| (memory (data.toNat + 60)).toUInt64

/-! ### What a command programs -/

section Programs

variable {fuel : Nat} {port : AhciPort}

theorem readyRound_keeps (port : AhciPort) : Call.Keeps (· = port) (fun _ => True) (readyRound ()) := by
  apply Call.Keeps.seq (.gets fun _ _ => trivial)
  intro tfd
  split
  · exact .pure trivial
  · exact .pure trivial

theorem issuedRound_keeps (port : AhciPort) (slot : Nat) :
    Call.Keeps (· = port) (fun _ => True) (issuedRound slot ()) := by
  apply Call.Keeps.seq (.gets fun _ _ => trivial)
  intro port'
  split
  · exact .pure trivial
  · split
    · exact .stop _
    · exact .pure trivial

theorem rounds_unchanged {body : Unit → Call AhciPort (Unit ⊕ Unit)} (fuel : Nat) (port : AhciPort)
    (hbody : Call.Keeps (· = port) (fun _ => True) (body ())) :
    Call.Keeps (· = port) (fun _ => True) (Call.rounds body fuel ()) := by
  have hnext : ∀ t : Unit, True → Call.Keeps (· = port) (Sum.elim (fun _ => True) fun _ => True) (body t) := by
    rintro ⟨⟩ - s hs
    refine ⟨(hbody s hs).1, ?_⟩
    rintro (t | t) _
    · trivial
    · trivial
  exact .rounds hnext fuel trivial

theorem commandIn_issued (fuel slot : Nat) (write identify : Bool) (lba buffer sectorSz sizeBuffer : UInt64) :
    (commandIn fuel slot write identify lba buffer sectorSz sizeBuffer port).2.issued = port.issued ∨
      (commandIn fuel slot write identify lba buffer sectorSz sizeBuffer port).2.issued =
        port.issued ++ [commandFrame write identify lba sectorSz (port.frames slot)] := by
  rw [commandIn]
  generalize ((sizeBuffer - 1) >>> 4).toUInt16 + 1 = prdtl
  by_cases hnone : prdtl = 0
  · rw [if_pos hnone]
    exact .inl rfl
  · rw [if_neg hnone, Call.gets_bind, Call.modify_bind]
    generalize hport' : prepared slot write prdtl (prdtEntries buffer sizeBuffer (prdtl.toNat - 1))
      (commandFrame write identify lba sectorSz (port.frames slot)) port = port'
    have hissued : port'.issued = port.issued := by
      rw [← hport']
      rfl
    have hframe : port'.frames slot = commandFrame write identify lba sectorSz (port.frames slot) := by
      rw [← hport']
      exact Function.update_self ..
    have hwait := (rounds_unchanged fuel port' (readyRound_keeps port') port' rfl).1
    rcases hready : Call.rounds readyRound fuel () port' with ⟨e | ⟨⟩, port₁⟩
    · rw [hready] at hwait
      refine .inl ?_
      rw [Call.bind_of_error hready, show port₁ = port' from hwait, hissued]
    · rw [hready] at hwait
      obtain rfl : port₁ = port' := hwait
      refine .inr ?_
      rw [Call.bind_of_ok hready, Call.modify_bind]
      have hlast := (rounds_unchanged fuel (issue slot port₁) (issuedRound_keeps _ slot) _ rfl).1
      rw [show (Call.rounds (issuedRound slot) fuel () (issue slot port₁)).2 = issue slot port₁ from hlast, issue,
        hissued, hframe]

theorem drvStdInputOutput_issued (fuel : Nat) (write identify : Bool) (lba buffer sectorSz sizeBuffer : UInt64)
    (port : AhciPort) :
    (drvStdInputOutput fuel write identify lba buffer sectorSz sizeBuffer port).2.issued = port.issued ∨
      ∃ fis, (drvStdInputOutput fuel write identify lba buffer sectorSz sizeBuffer port).2.issued =
        port.issued ++ [commandFrame write identify lba sectorSz fis] := by
  rw [drvStdInputOutput, Call.gets_bind]
  cases port.drvFindCmdSlot with
  | none => exact .inl rfl
  | some slot =>
    rcases commandIn_issued fuel slot write identify lba buffer sectorSz sizeBuffer with hnone | hone
    · exact .inl hnone
    · exact .inr ⟨_, hone⟩

theorem commandFrame_count (write identify : Bool) (lba : UInt64) (fis : FisRegH2D) :
    (commandFrame write identify lba kAHCISectorSize fis).count = 512 := by
  have hlow : (kAHCISectorSize &&& 0xFF).toUInt8 = 0 := by decide
  have hhigh : ((kAHCISectorSize >>> 8) &&& 0xFF).toUInt8 = 2 := by decide
  simp only [FisRegH2D.count, commandFrame, hlow, hhigh]
  decide

theorem commandFrame_lba (write identify : Bool) (lba sectorSz : UInt64) (fis : FisRegH2D) :
    (commandFrame write identify lba sectorSz fis).lba =
      lba.toNat % 2 ^ 32 + 2 ^ 32 * fis.Lba4.toNat + 2 ^ 40 * fis.Lba5.toNat := by
  have h0 : lba.toUInt8.toNat = lba.toNat % 2 ^ 8 := by simp
  have h1 : (lba >>> 8).toUInt8.toNat = lba.toNat / 2 ^ 8 % 2 ^ 8 := by simp [Nat.shiftRight_eq_div_pow]
  have h2 : (lba >>> 16).toUInt8.toNat = lba.toNat / 2 ^ 16 % 2 ^ 8 := by simp [Nat.shiftRight_eq_div_pow]
  have h3 : (lba >>> 24).toUInt8.toNat = lba.toNat / 2 ^ 24 % 2 ^ 8 := by simp [Nat.shiftRight_eq_div_pow]
  simp only [commandFrame, FisRegH2D.lba, h0, h1, h2, h3]
  omega

/-! ### A device that is ready -/

theorem freeSlot_testBit {all : UInt32} (left : Nat) :
    ∀ {slots : UInt32} {i slot : Nat}, slots.toNat = all.toNat >>> i → freeSlot slots i left = some slot →
      all.toNat.testBit slot = false ∧ slot < i + left := by
  induction left with
  | zero =>
    intro slots i slot _ h
    cases h
  | succ left ih =>
    intro slots i slot hslots h
    rw [freeSlot] at h
    split at h
    · next hfree =>
      cases h
      refine ⟨?_, by omega⟩
      have hbit := congrArg UInt32.toNat hfree
      rw [UInt32.toNat_and, hslots] at hbit
      simpa [Nat.testBit, Nat.and_comm] using hbit
    · obtain ⟨hbit, hslot⟩ := ih (by
        rw [UInt32.toNat_shiftRight, hslots, ← Nat.shiftRight_add]
        rfl) h
      exact ⟨hbit, by omega⟩

theorem drvFindCmdSlot_free {slot : Nat} (h : port.drvFindCmdSlot = some slot) :
    port.Ci &&& (1 <<< slot.toUInt32) = 0 := by
  obtain ⟨hbit, hslot⟩ := freeSlot_testBit _ (Nat.shiftRight_zero).symm h
  have hslots : ((port.Cap &&& 0x1F) + 1).toNat ≤ 32 := by
    have hlow : (port.Cap &&& 0x1F).toNat ≤ 31 := by
      rw [UInt32.toNat_and]
      exact Nat.and_le_right
    rw [UInt32.toNat_add]
    exact (Nat.mod_le _ _).trans (Nat.succ_le_succ hlow)
  have hshift : (1 <<< slot.toUInt32 : UInt32).toNat = 2 ^ slot := by
    have hsmall : 2 ^ slot < 2 ^ 32 := Nat.pow_lt_pow_right (by decide) (by omega)
    have hslot' : slot.toUInt32.toNat % 32 = slot := by
      simp only [Nat.toUInt32_eq, UInt32.toNat_ofNat']
      omega
    rw [UInt32.toNat_shiftLeft, hslot', Nat.shiftLeft_eq]
    simpa using hsmall
  have hci : port.Ci.toNat.testBit slot = false := by
    rw [UInt32.toNat_or, Nat.testBit_or, Bool.or_eq_false_iff] at hbit
    exact hbit.2
  apply UInt32.toNat_inj.mp
  rw [UInt32.toNat_and, hshift, Nat.and_comm, Nat.two_pow_and, hci]
  exact Nat.mul_zero _

theorem drvStdInputOutput_of_slot {fuel slot : Nat} (hslot : port.drvFindCmdSlot = some slot)
    (write identify : Bool) (lba buffer sectorSz sizeBuffer : UInt64) :
    drvStdInputOutput fuel write identify lba buffer sectorSz sizeBuffer port =
      commandIn fuel slot write identify lba buffer sectorSz sizeBuffer port := by
  rw [drvStdInputOutput, Call.gets_bind, hslot]

theorem commandIn_returns {fuel slot : Nat} {prdtl : UInt16} (sizeBuffer : UInt64) (hfuel : 0 < fuel)
    (hslot : port.drvFindCmdSlot = some slot) (hready : port.Tfd &&& (kAhciSRBsy ||| kAhciSRDrq) = 0)
    (hprdtl : ((sizeBuffer - 1) >>> 4).toUInt16 + 1 = prdtl) (hsome : prdtl ≠ 0) (write identify : Bool)
    (lba buffer sectorSz : UInt64) :
    commandIn fuel slot write identify lba buffer sectorSz sizeBuffer port =
      (.ok (), issue slot (prepared slot write prdtl (prdtEntries buffer sizeBuffer (prdtl.toNat - 1))
        (commandFrame write identify lba sectorSz (port.frames slot)) port)) := by
  obtain ⟨fuel, rfl⟩ : ∃ k, fuel = k + 1 := ⟨fuel - 1, by omega⟩
  have hci := drvFindCmdSlot_free hslot
  rw [commandIn, hprdtl, if_neg hsome, Call.gets_bind, Call.modify_bind]
  generalize hport' : prepared slot write prdtl (prdtEntries buffer sizeBuffer (prdtl.toNat - 1))
    (commandFrame write identify lba sectorSz (port.frames slot)) port = port'
  have htfd : port'.Tfd = port.Tfd := by
    rw [← hport']
    rfl
  have hci' : (issue slot port').Ci = port.Ci := by
    rw [← hport']
    rfl
  have hwait : Call.rounds readyRound (fuel + 1) () port' = (.ok (), port') := by
    have hround : readyRound () port' = (.ok (.inr ()), port') := by
      rw [readyRound, Call.gets_bind, htfd, if_neg (not_not_intro hready)]
      rfl
    exact Call.bind_of_ok hround
  have hdone : Call.rounds (issuedRound slot) (fuel + 1) () (issue slot port') = (.ok (), issue slot port') := by
    have hround : issuedRound slot () (issue slot port') = (.ok (.inr ()), issue slot port') := by
      rw [issuedRound, Call.gets_bind, id, hci', if_pos hci]
      rfl
    exact Call.bind_of_ok hround
  rw [Call.bind_of_ok hwait, Call.modify_bind, hdone]

/-! ### The identify block -/

theorem dma_address (data : UInt64) :
    data.toUInt32.toNat + 2 ^ 32 * (data >>> 32).toUInt32.toNat = data.toNat := by
  have hlow : data.toUInt32.toNat = data.toNat % 2 ^ 32 := by simp
  have hhigh : (data >>> 32).toUInt32.toNat = data.toNat / 2 ^ 32 % 2 ^ 32 := by
    simp [Nat.shiftRight_eq_div_pow]
  have := data.toNat_lt
  rw [hlow, hhigh]
  omega

theorem issue_memory (slot : Nat) (prdtl : UInt16) (buffer sizeBuffer lba sectorSz : UInt64) (n : Nat)
    (fis : FisRegH2D) :
    (issue slot (prepared slot false prdtl (prdtEntries buffer sizeBuffer (n + 1))
      (commandFrame false true lba sectorSz fis) port)).memory =
      port.memory.write buffer.toNat port.identifyBytes := by
  simp only [issue, delivered, prepared, Function.update_self, prdtEntries, commandFrame, if_pos, dma_address]
  rfl

theorem identifyBytes_apply (store : Store) (a i : Nat) (hi : i < 512) :
    store.write a port.identifyBytes (a + i) =
      if i % 2 = 0 then (port.identifyBlock (i / 2)).toUInt8 else (port.identifyBlock (i / 2) >>> 8).toUInt8 := by
  have hlength : i < port.identifyBytes.length := by
    simp only [identifyBytes, List.length_map, List.length_range]
    exact hi
  rw [Store.write_apply_inside hlength]
  simp only [identifyBytes, List.getElem_map, List.getElem_range]

theorem drvCalculateDiskGeometry_returns {fuel : Nat} (hfuel : 0 < fuel)
    (hfree : port.drvFindCmdSlot.isSome) (hready : port.Tfd &&& (kAhciSRBsy ||| kAhciSRDrq) = 0)
    (data : UInt64) :
    (drvCalculateDiskGeometry fuel data port).1 =
      .ok (((port.identifyBlock 30 >>> 8).toUInt8.toUInt64 <<< 16) ||| (port.identifyBlock 30).toUInt8.toUInt64) := by
  obtain ⟨slot, hslot⟩ := Option.isSome_iff_exists.mp hfree
  rw [drvCalculateDiskGeometry, Call.modify_bind]
  generalize hzeroed :
    ({ port with memory := port.memory.write data.toNat (List.replicate 4096 0) } : AhciPort) = zeroed
  have hslot' : zeroed.drvFindCmdSlot = some slot := by
    rw [← hzeroed]
    exact hslot
  have hready' : zeroed.Tfd &&& (kAhciSRBsy ||| kAhciSRDrq) = 0 := by
    rw [← hzeroed]
    exact hready
  have hcommand : drvStdInputOutput fuel false true 0 data 0 8192 zeroed =
      (.ok (), issue slot (prepared slot false 512 (prdtEntries data 8192 511)
        (commandFrame false true 0 0 (zeroed.frames slot)) zeroed)) := by
    rw [drvStdInputOutput_of_slot hslot']
    exact commandIn_returns 8192 hfuel hslot' hready' (by decide) (by decide) false true 0 data 0
  have hblock : zeroed.identifyBlock = port.identifyBlock := by
    rw [← hzeroed]
  rw [Call.bind_of_ok hcommand, Call.gets_bind, issue_memory slot 512 data 8192 0 0 510,
    identifyBytes_apply _ _ 61 (by decide), identifyBytes_apply _ _ 60 (by decide), hblock]
  rfl

end Programs

end AhciPort

end OpenNE

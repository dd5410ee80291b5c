import OpenNE.Storage.AtaBus
import OpenNE.NeFS.Packet

/-!
# The kernel's ATA driver (`HALKit/AMD64/Storage/ATA.cc`, `src/DriveMgr.cc`)

`io_drv_input` and `io_drv_output` in an ATA build, on the device of `AtaBus`. The file system is written
against a byte-addressed store; the driver lays every byte of a packet down as a word of its own, from the start
of a sector on. `Contract` is what the store promises along a sequence of packets, and `AllLined` when the
driver keeps it.
-/

namespace OpenNE

namespace Ata

open AtaBus

/-- `drv_std_read`. -/
def drvStdRead (fuel : Nat) (lba : UInt64) (io : UInt16) (master : UInt8) (sectorSz size : UInt64) :
    Call AtaBus (List UInt8) :=
  pioRead fuel lba io master sectorSz size

/-- `drv_std_write`. -/
def drvStdWrite (fuel : Nat) (lba : UInt64) (io : UInt16) (master : UInt8) (sectorSz : UInt64)
    (buf : List UInt8) : Call AtaBus Unit :=
  pioWrite fuel lba io master sectorSz buf

/-- `io_drv_input`. -/
def ioDrvInput (fuel : Nat) (kATAIo : UInt16) (kATAMaster : UInt8) (pckt : DrivePacket) :
    Call AtaBus (List UInt8) :=
  drvStdRead fuel pckt.fPacketLba kATAIo kATAMaster ataSectorSz (.ofNat pckt.fPacketSize)

/-- `io_drv_output` of the bytes behind `fPacketContent`. -/
def ioDrvOutput (fuel : Nat) (kATAIo : UInt16) (kATAMaster : UInt8) (pckt : DrivePacket)
    (content : List UInt8) : Call AtaBus Unit :=
  if pckt.fPacketReadOnly then pure ()
  else drvStdWrite fuel pckt.fPacketLba kATAIo kATAMaster ataSectorSz content

/-! ### Packets on the disk -/

/-- Where the transfer of a packet starts: its sector, of which 28 bits reach the device. -/
def startByte (lba : Lba) : Nat := 512 * (lba.toNat / 512 % 2 ^ 28)

/-- The number of words of a transfer of `size` bytes. -/
def transferWords (size : Nat) : Nat := 256 * (size / 512 + 1)

theorem sectorCount_of_size {size : Nat} (hsize : size ≤ 65536) :
    sectorCount ((UInt64.ofNat size + ataSectorSz) / ataSectorSz).toUInt8 = size / 512 + 1 := by
  have hcount : ((UInt64.ofNat size + ataSectorSz) / ataSectorSz).toUInt8.toNat = size / 512 + 1 := by
    simp only [UInt64.toNat_toUInt8, UInt64.toNat_div, UInt64.toNat_add, UInt64.toNat_ofNat', ataSectorSz,
      UInt64.reduceToNat]
    omega
  rw [sectorCount, if_neg, hcount]
  intro hzero
  rw [hzero] at hcount
  simp at hcount

theorem commandFor_lba (command : UInt8) (lba : Lba) (size : UInt64) :
    512 * (commandFor command lba ataSectorSz size).lba = startByte lba := by
  rw [commandFor, startByte, UInt64.toNat_div]
  rfl

theorem commandFor_count {command : UInt8} {lba : Lba} {size : Nat} (hsize : size ≤ 65536) :
    256 * (commandFor command lba ataSectorSz (.ofNat size)).count = transferWords size := by
  rw [commandFor, sectorCount_of_size hsize, transferWords]

section Packets

variable {fuel : Nat} {io : UInt16} {bus : AtaBus} {pckt : DrivePacket}

theorem ioDrvInput_returns (master : UInt8) (hfuel : 0 < fuel) (hio : bus.io = io)
    (hsize : pckt.fPacketSize ≤ 65536) :
    ∃ bus', ioDrvInput fuel io master pckt bus =
        (.ok ((List.range pckt.fPacketSize).map fun i => (bus.received (startByte pckt.fPacketLba)
          (transferWords pckt.fPacketSize) i).toUInt8), bus') ∧
      ∃ command, After command bus.disk bus bus' := by
  obtain ⟨bus', hread, hafter⟩ := pioRead_returns hfuel hio pckt.fPacketLba master ataSectorSz
    (.ofNat pckt.fPacketSize)
  have hnat : (UInt64.ofNat pckt.fPacketSize).toNat = pckt.fPacketSize := by
    rw [UInt64.toNat_ofNat']
    omega
  rw [commandFor_lba, commandFor_count hsize, hnat] at hread
  exact ⟨bus', hread, _, hafter⟩

theorem ioDrvOutput_returns {content : List UInt8} (master : UInt8) (hfuel : 0 < fuel) (hio : bus.io = io)
    (hwritable : pckt.fPacketReadOnly = false) (hsize : content.length ≤ 65536) :
    ∃ bus', ioDrvOutput fuel io master pckt content bus = (.ok (), bus') ∧
      ∃ command, After command (spread (512 * bus.sectors) (startByte pckt.fPacketLba)
        (min (transferWords content.length) content.length) content bus.disk) bus bus' := by
  obtain ⟨bus', hwrite, hafter⟩ := pioWrite_returns hfuel hio pckt.fPacketLba master ataSectorSz content
  rw [commandFor_lba, commandFor_count hsize] at hafter
  refine ⟨bus', ?_, _, hafter⟩
  rw [ioDrvOutput, hwritable]
  exact hwrite

end Packets

/-! ### The contract of the store -/

/-- A packet handed to `io_drv_input` or `io_drv_output`. -/
inductive DrvOp where
  | input (pckt : DrivePacket)
  | output (pckt : DrivePacket) (content : List UInt8)

namespace DrvOp

/-- At least one byte, at most 64 KiB, all of them on a disk of `sectors` sectors. -/
def Inside (sectors : Nat) : DrvOp → Prop
  | .input pckt => 0 < pckt.fPacketSize ∧ pckt.fPacketSize ≤ 65536 ∧
      pckt.fPacketLba.toNat + pckt.fPacketSize ≤ 512 * sectors
  | .output pckt content => 0 < pckt.fPacketSize ∧ pckt.fPacketSize ≤ 65536 ∧
      pckt.fPacketLba.toNat + pckt.fPacketSize ≤ 512 * sectors ∧ content.length = pckt.fPacketSize

def run (fuel : Nat) (io : UInt16) (master : UInt8) : DrvOp → Call AtaBus (List UInt8)
  | .input pckt => ioDrvInput fuel io master pckt
  | .output pckt content => do
    ioDrvOutput fuel io master pckt content
    return []

/-- The byte-addressed store after the packet. -/
def stored (store : Store) : DrvOp → Store
  | .input _ => store
  | .output pckt content =>
    if pckt.fPacketReadOnly then store else store.write pckt.fPacketLba.toNat content

/-- An input returned what the store holds; an output left the disk around its range alone. -/
def Honoured (store : Store) (bus : AtaBus) (r : Exec (List UInt8) × AtaBus) : DrvOp → Prop
  | .input pckt => r.1 = .ok (store.read pckt.fPacketLba.toNat pckt.fPacketSize)
  | .output pckt _ => r.1 = .ok [] ∧
      ∀ x, x < pckt.fPacketLba.toNat ∨ pckt.fPacketLba.toNat + pckt.fPacketSize ≤ x → r.2.disk x = bus.disk x

end DrvOp

/-- Every packet of the sequence is honoured, where `store` holds what was output so far. -/
def Contract (fuel : Nat) (io : UInt16) (master : UInt8) : AtaBus → Store → List DrvOp → Prop
  | _, _, [] => True
  | bus, store, op :: ops =>
    op.Honoured store bus (op.run fuel io master bus) ∧
      Contract fuel io master (op.run fuel io master bus).2 (op.stored store) ops

/-! ### When the words and the bytes fall together -/

namespace DrvOp

/-- Every byte of an input lies within the transfer, and the disk holds it at the place of its word; every word of
an output lies in the range of the packet, or past the disk, or finds its bytes on the disk already. -/
def Lined (sectors : Nat) (disk store : Store) : DrvOp → Prop
  | .input pckt => ∀ i < pckt.fPacketSize,
      i < transferWords pckt.fPacketSize ∧ startByte pckt.fPacketLba + 2 * i < 512 * sectors ∧
        disk (startByte pckt.fPacketLba + 2 * i) = store (pckt.fPacketLba.toNat + i)
  | .output pckt content => pckt.fPacketReadOnly = true ∨
      ∀ x, startByte pckt.fPacketLba ≤ x →
        x < startByte pckt.fPacketLba + 2 * min (transferWords pckt.fPacketSize) pckt.fPacketSize →
        x < 512 * sectors →
        (pckt.fPacketLba.toNat ≤ x ∧ x < pckt.fPacketLba.toNat + pckt.fPacketSize) ∨
          disk x = if (x - startByte pckt.fPacketLba) % 2 = 0
            then content.getD ((x - startByte pckt.fPacketLba) / 2) 0
            else signByte (content.getD ((x - startByte pckt.fPacketLba) / 2) 0)

/-- What the disk of `sectors` sectors holds after the packet. -/
def laid (sectors : Nat) (disk : Store) : DrvOp → Store
  | .input _ => disk
  | .output pckt content =>
    if pckt.fPacketReadOnly then disk
    else spread (512 * sectors) (startByte pckt.fPacketLba)
      (min (transferWords content.length) content.length) content disk

end DrvOp

/-- The condition along a sequence of packets. -/
def AllLined (sectors : Nat) : Store → Store → List DrvOp → Prop
  | _, _, [] => True
  | disk, store, op :: ops =>
    op.Lined sectors disk store ∧ AllLined sectors (op.laid sectors disk) (op.stored store) ops

section Contract

variable {fuel : Nat} {io : UInt16} {master : UInt8} {sectors : Nat} {disk store : Store}

/-- The bus of a device of `sectors` sectors holding `disk`. -/
structure Holds (io : UInt16) (sectors : Nat) (disk : Store) (floating : UInt16) (bus : AtaBus) : Prop where
  io : bus.io = io
  sectors : bus.sectors = sectors
  disk : bus.disk = disk
  floating : bus.floating = floating

theorem holds_after {floating : UInt16} {bus bus' : AtaBus} {command : AtaCommand} {disk' : Store}
    (h : Holds io sectors disk floating bus) (hafter : After command disk' bus bus') :
    Holds io sectors disk' floating bus' :=
  ⟨hafter.io.trans h.io, hafter.sectors.trans h.sectors, hafter.disk, hafter.floating.trans h.floating⟩

theorem run_input {floating : UInt16} {bus : AtaBus} (master : UInt8) (hfuel : 0 < fuel)
    (h : Holds io sectors disk floating bus) {pckt : DrivePacket} (hop : (DrvOp.input pckt).Inside sectors) :
    ∃ bus', (DrvOp.input pckt).run fuel io master bus =
        (.ok ((List.range pckt.fPacketSize).map fun i => (bus.received (startByte pckt.fPacketLba)
          (transferWords pckt.fPacketSize) i).toUInt8), bus') ∧
      Holds io sectors disk floating bus' := by
  obtain ⟨bus', hrun, command, hafter⟩ := ioDrvInput_returns master hfuel h.io hop.2.1
  rw [h.disk] at hafter
  exact ⟨bus', hrun, holds_after h hafter⟩

theorem run_output {floating : UInt16} {bus : AtaBus} (master : UInt8) (hfuel : 0 < fuel)
    (h : Holds io sectors disk floating bus) {pckt : DrivePacket} {content : List UInt8}
    (hop : (DrvOp.output pckt content).Inside sectors) :
    ∃ bus', (DrvOp.output pckt content).run fuel io master bus = (.ok [], bus') ∧
      Holds io sectors ((DrvOp.output pckt content).laid sectors disk) floating bus' := by
  obtain ⟨_, hsize, _, hlength⟩ := hop
  by_cases hreadOnly : pckt.fPacketReadOnly = true
  · refine ⟨bus, ?_, ?_⟩
    · show (ioDrvOutput fuel io master pckt content >>= fun _ => pure []) bus = _
      rw [ioDrvOutput, if_pos hreadOnly]
      rfl
    · rw [DrvOp.laid, if_pos hreadOnly]
      exact h
  · obtain ⟨bus', hrun, command, hafter⟩ := ioDrvOutput_returns master hfuel h.io
      (Bool.eq_false_iff.mpr hreadOnly) (hlength.trans_le hsize)
    rw [h.disk, h.sectors] at hafter
    refine ⟨bus', Call.bind_of_ok hrun, ?_⟩
    rw [DrvOp.laid, if_neg hreadOnly]
    exact holds_after h hafter

theorem run_holds {floating : UInt16} {bus : AtaBus} (master : UInt8) (hfuel : 0 < fuel)
    (h : Holds io sectors disk floating bus) {op : DrvOp} (hop : op.Inside sectors) :
    Holds io sectors (op.laid sectors disk) floating (op.run fuel io master bus).2 := by
  cases op with
  | input pckt =>
    obtain ⟨bus', hrun, hbus'⟩ := run_input master hfuel h hop
    rw [hrun]
    exact hbus'
  | output pckt content =>
    obtain ⟨bus', hrun, hbus'⟩ := run_output master hfuel h hop
    rw [hrun]
    exact hbus'

theorem wordAt_low {bus : AtaBus} {next : Nat} (hnext : next < 512 * bus.sectors) :
    (bus.wordAt next).toUInt8 = bus.disk next := by
  rw [wordAt, if_pos hnext]
  apply UInt8.toNat_inj.mp
  have hlow := (bus.disk next).toNat_lt
  simp only [UInt16.toNat_toUInt8, UInt16.toNat_or, UInt16.toNat_shiftLeft, UInt8.toNat_toUInt16]
  rw [Nat.or_mod_two_pow, Nat.mod_eq_of_lt hlow]
  have hhigh : (bus.disk (next + 1)).toNat <<< ((8 : UInt16).toNat % 16) % 2 ^ 16 % 2 ^ 8 = 0 := by
    simp only [UInt16.reduceToNat, Nat.shiftLeft_eq, Nat.reduceMod, Nat.reducePow]
    omega
  rw [hhigh, Nat.or_zero]

theorem received_eq_iff {bus : UInt16 → AtaBus} (h : ∀ floating, Holds io sectors disk floating (bus floating))
    (next left i : Nat) (b : UInt8) :
    (∀ floating, ((bus floating).received next left i).toUInt8 = b) ↔
      i < left ∧ next + 2 * i < 512 * sectors ∧ disk (next + 2 * i) = b := by
  constructor
  · intro hall
    by_cases hin : i < left ∧ next + 2 * i < 512 * sectors
    · refine ⟨hin.1, hin.2, ?_⟩
      have h0 := hall 0
      rw [received, if_pos hin.1, wordAt_low (by rw [(h 0).sectors]; exact hin.2), (h 0).disk] at h0
      exact h0
    · have hfloats : ∀ floating, (bus floating).received next left i = floating := by
        intro floating
        rw [received, wordAt, (h floating).sectors, (h floating).floating]
        split
        · rw [if_neg (by omega)]
        · rfl
      have h0 := hall 0
      have h1 := hall 1
      rw [hfloats] at h0 h1
      rw [← h0] at h1
      exact absurd h1 (by decide)
  · rintro ⟨hleft, hsectors, hbyte⟩ floating
    rw [received, if_pos hleft, wordAt_low (by rw [(h floating).sectors]; exact hsectors), (h floating).disk]
    exact hbyte

theorem honoured_iff_lined (hfuel : 0 < fuel) {bus : UInt16 → AtaBus}
    (h : ∀ floating, Holds io sectors disk floating (bus floating)) {op : DrvOp} (hop : op.Inside sectors) :
    (∀ floating, op.Honoured store (bus floating) (op.run fuel io master (bus floating))) ↔
      op.Lined sectors disk store := by
  cases op with
  | input pckt =>
    have hreturned : ∀ floating, (DrvOp.input pckt).Honoured store (bus floating)
        ((DrvOp.input pckt).run fuel io master (bus floating)) ↔
        ∀ i < pckt.fPacketSize, ((bus floating).received (startByte pckt.fPacketLba)
          (transferWords pckt.fPacketSize) i).toUInt8 = store (pckt.fPacketLba.toNat + i) := by
      intro floating
      obtain ⟨bus', hrun, -⟩ := run_input master hfuel (h floating) hop
      rw [hrun]
      simp [DrvOp.Honoured, Store.read]
    simp only [hreturned, DrvOp.Lined]
    constructor
    · intro hall i hi
      exact (received_eq_iff h _ _ i _).mp fun floating => hall floating i hi
    · intro hall floating i hi
      exact (received_eq_iff h _ _ i _).mpr (hall i hi) floating
  | output pckt content =>
    obtain ⟨_, _, _, hlength⟩ := id hop
    have hleft : ∀ floating, (DrvOp.output pckt content).Honoured store (bus floating)
        ((DrvOp.output pckt content).run fuel io master (bus floating)) ↔
        ∀ x, x < pckt.fPacketLba.toNat ∨ pckt.fPacketLba.toNat + pckt.fPacketSize ≤ x →
          (DrvOp.output pckt content).laid sectors disk x = disk x := by
      intro floating
      obtain ⟨bus', hrun, hbus'⟩ := run_output master hfuel (h floating) hop
      rw [hrun, DrvOp.Honoured, hbus'.disk, (h floating).disk]
      exact and_iff_right rfl
    simp only [hleft, forall_const, DrvOp.Lined, DrvOp.laid]
    by_cases hreadOnly : pckt.fPacketReadOnly = true
    · simp [hreadOnly]
    · rw [if_neg hreadOnly, hlength, or_iff_right hreadOnly]
      simp only [spread]
      constructor
      · intro hall x hstart hend hsectors
        by_cases hrange : pckt.fPacketLba.toNat ≤ x ∧ x < pckt.fPacketLba.toNat + pckt.fPacketSize
        · exact .inl hrange
        · have hx := hall x (by omega)
          rw [if_pos ⟨hstart, hend, hsectors⟩] at hx
          exact .inr hx.symm
      · intro hall x hout
        by_cases hin : startByte pckt.fPacketLba ≤ x ∧
            x < startByte pckt.fPacketLba + 2 * min (transferWords pckt.fPacketSize) pckt.fPacketSize ∧
            x < 512 * sectors
        · rw [if_pos hin]
          rcases hall x hin.1 hin.2.1 hin.2.2 with hrange | hbyte
          · omega
          · exact hbyte.symm
        · rw [if_neg hin]

theorem contract_iff_allLined (hfuel : 0 < fuel) {ops : List DrvOp} (hops : ∀ op ∈ ops, op.Inside sectors)
    {bus : UInt16 → AtaBus} (h : ∀ floating, Holds io sectors disk floating (bus floating)) :
    (∀ floating, Contract fuel io master (bus floating) store ops) ↔ AllLined sectors disk store ops := by
  induction ops generalizing bus disk store with
  | nil => exact ⟨fun _ => trivial, fun _ _ => trivial⟩
  | cons op ops ih =>
    have hop : op.Inside sectors := hops op (by simp)
    have hlater : ∀ op' ∈ ops, op'.Inside sectors := fun op' hop' => hops op' (by simp [hop'])
    have hbus : ∀ floating, Holds io sectors (op.laid sectors disk) floating
        (op.run fuel io master (bus floating)).2 := fun floating => run_holds master hfuel (h floating) hop
    exact forall_and.trans (and_congr (honoured_iff_lined hfuel h hop) (ih hlater hbus))

end Contract

/-! ### The packets that are right on every disk -/

section Kinds

variable {sectors : Nat} {pckt : DrivePacket}

theorem startByte_le (lba : Lba) : startByte lba ≤ lba.toNat := by
  rw [startByte]
  omega

theorem startByte_eq_iff (lba : Lba) : startByte lba = lba.toNat ↔ 512 ∣ lba.toNat ∧ lba.toNat < 2 ^ 37 := by
  rw [startByte]
  omega

theorem input_lined_iff (hin : (DrvOp.input pckt).Inside sectors) :
    (∀ disk, (DrvOp.input pckt).Lined sectors disk disk) ↔
      pckt.fPacketSize = 1 ∧ 512 ∣ pckt.fPacketLba.toNat ∧ pckt.fPacketLba.toNat < 2 ^ 37 := by
  obtain ⟨hpos, hsize, hend⟩ := hin
  have hle := startByte_le pckt.fPacketLba
  rw [← startByte_eq_iff]
  constructor
  · intro hall
    have hsame : ∀ i < pckt.fPacketSize, startByte pckt.fPacketLba + 2 * i = pckt.fPacketLba.toNat + i := by
      intro i hi
      have hbyte := (hall (fun x => if x = pckt.fPacketLba.toNat + i then 1 else 0) i hi).2.2
      by_contra hne
      simp [hne] at hbyte
    have h0 := hsame 0 hpos
    refine ⟨?_, by omega⟩
    by_contra hmore
    have h1 := hsame 1 (by omega)
    omega
  · rintro ⟨hone, hstart⟩ disk i hi
    obtain rfl : i = 0 := by omega
    refine ⟨?_, by omega, by rw [hstart]⟩
    rw [transferWords]
    omega

theorem output_lined_iff (hpos : 0 < pckt.fPacketSize)
    (hend : pckt.fPacketLba.toNat + pckt.fPacketSize ≤ 512 * sectors) :
    (∀ disk content, content.length = pckt.fPacketSize → (DrvOp.output pckt content).Lined sectors disk disk) ↔
      pckt.fPacketReadOnly = true ∨ 512 ∣ pckt.fPacketLba.toNat ∧ pckt.fPacketLba.toNat < 2 ^ 37 ∧
        pckt.fPacketLba.toNat + pckt.fPacketSize = 512 * sectors := by
  have hle := startByte_le pckt.fPacketLba
  have hwords : pckt.fPacketSize < 2 * min (transferWords pckt.fPacketSize) pckt.fPacketSize := by
    rw [transferWords]
    omega
  rw [← and_assoc, ← startByte_eq_iff]
  constructor
  · intro hall
    by_contra hnot
    obtain ⟨hwritable, hrange⟩ := not_or.mp hnot
    -- zeroes laid down on a disk of ones show up wherever they are outside of the range
    have hdisturb : ∀ x, startByte pckt.fPacketLba ≤ x →
        x < startByte pckt.fPacketLba + 2 * min (transferWords pckt.fPacketSize) pckt.fPacketSize →
        x < 512 * sectors → pckt.fPacketLba.toNat ≤ x ∧ x < pckt.fPacketLba.toNat + pckt.fPacketSize := by
      intro x hstart hlast hdisk
      have hx := (hall (fun _ => 1) (List.replicate pckt.fPacketSize 0) (by simp)).resolve_left hwritable x
        hstart hlast hdisk
      refine hx.resolve_right ?_
      intro hone
      simp [signByte] at hone
    have h0 := hdisturb (startByte pckt.fPacketLba) le_rfl (by omega) (by omega)
    have h1 := hdisturb (pckt.fPacketLba.toNat + pckt.fPacketSize)
    omega
  · rintro (hreadOnly | ⟨hstart, hlast⟩) disk content _
    · exact .inl hreadOnly
    · exact .inr fun x hx _ hsectors => .inl (by omega)

end Kinds

/-! ### The driver as a byte-addressed store -/

/-- A sequence of packets is served as by a byte-addressed store exactly when it is lined up. A single input is on
every disk only where it is the first byte of a sector, a single output only where it fills the disk to the
end. -/
theorem ata_store_iff {fuel : Nat} (hfuel : 0 < fuel) (bus : AtaBus) (master : UInt8) (ops : List DrvOp)
    (hops : ∀ op ∈ ops, op.Inside bus.sectors) :
    ((∀ floating, Contract fuel bus.io master { bus with floating := floating } bus.disk ops) ↔
        AllLined bus.sectors bus.disk bus.disk ops) ∧
      (∀ pckt, (DrvOp.input pckt).Inside bus.sectors →
        ((∀ disk, AllLined bus.sectors disk disk [.input pckt]) ↔
          pckt.fPacketSize = 1 ∧ 512 ∣ pckt.fPacketLba.toNat ∧ pckt.fPacketLba.toNat < 2 ^ 37)) ∧
      ∀ pckt, 0 < pckt.fPacketSize → pckt.fPacketLba.toNat + pckt.fPacketSize ≤ 512 * bus.sectors →
        ((∀ disk content, content.length = pckt.fPacketSize →
          AllLined bus.sectors disk disk [.output pckt content]) ↔
          pckt.fPacketReadOnly = true ∨ 512 ∣ pckt.fPacketLba.toNat ∧ pckt.fPacketLba.toNat < 2 ^ 37 ∧
            pckt.fPacketLba.toNat + pckt.fPacketSize = 512 * bus.sectors) := by
  refine ⟨?_, ?_, ?_⟩
  · exact contract_iff_allLined hfuel hops fun _ => ⟨rfl, rfl, rfl, rfl⟩
  · intro pckt hin
    simp only [AllLined, and_true]
    exact input_lined_iff hin
  · intro pckt hpos hend
    simp only [AllLined, and_true]
    exact output_lined_iff hpos hend

/-- A zeroed disk of 16 sectors on the primary bus. -/
def zeroedBus : AtaBus where
  io := ataPrimaryIo
  disk := fun _ => 0
  sectors := 16
  identifyBlock := fun _ => 0
  floating := 0xFFFF
  regs := fun _ => 0
  transfer := .idle
  issued := []

/-- Four bytes for the second catalog slot. -/
def slotOutput : DrvOp := .output { fPacketLba := 4616, fPacketSize := 4 } [1, 2, 3, 4]

theorem zeroedBus_holds : Holds ataPrimaryIo 16 (fun _ => 0) 0xFFFF zeroedBus := ⟨rfl, rfl, rfl, rfl⟩

/-- They end up in front of the slot. -/
theorem ata_output_disturbs :
    slotOutput.Inside zeroedBus.sectors ∧
      ¬ Contract 1 ataPrimaryIo ataMaster zeroedBus zeroedBus.disk [slotOutput] := by
  have hinside : slotOutput.Inside 16 := ⟨by decide, by decide, by decide, rfl⟩
  refine ⟨hinside, ?_⟩
  rintro ⟨⟨-, hkept⟩, -⟩
  have hbus := run_holds ataMaster Nat.one_pos zeroedBus_holds hinside
  have hbyte := (congrFun hbus.disk 4608).symm.trans (hkept 4608 (.inl (by decide)))
  exact absurd hbyte (by decide)

/-- One byte below 128 at the start of a sector, read back: its word has a zero for the second byte. -/
def letterOps : List DrvOp :=
  [.output { fPacketLba := 512, fPacketSize := 1 } [65], .input { fPacketLba := 512, fPacketSize := 1 }]

theorem letterOps_inside : ∀ op ∈ letterOps, op.Inside zeroedBus.sectors := by
  intro op hop
  simp only [letterOps, List.mem_cons, List.not_mem_nil, or_false] at hop
  rcases hop with rfl | rfl
  · exact ⟨by decide, by decide, by decide, rfl⟩
  · exact ⟨by decide, by decide, by decide⟩

theorem letterOps_lined : AllLined zeroedBus.sectors zeroedBus.disk zeroedBus.disk letterOps := by
  refine ⟨.inr ?_, ?_, trivial⟩
  · intro x hstart hend hsectors
    have hx : 512 ≤ x ∧ x < 514 := ⟨hstart, hend⟩
    obtain rfl | rfl : x = 512 ∨ x = 513 := by omega
    · exact .inl (by decide)
    · exact .inr (by decide)
  · intro i hi
    obtain rfl : i = 0 := Nat.lt_one_iff.mp hi
    exact ⟨by decide, by decide, by decide⟩

theorem ata_store_letter : Contract 1 ataPrimaryIo ataMaster zeroedBus zeroedBus.disk letterOps :=
  (ata_store_iff Nat.one_pos zeroedBus ataMaster letterOps letterOps_inside).1.mpr letterOps_lined 0xFFFF

end Ata

end OpenNE

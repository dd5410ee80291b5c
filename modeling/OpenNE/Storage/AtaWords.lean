import OpenNE.Base.Run
import OpenNE.Storage.Ata

/-!
# The store behind the ATA driver (`HALKit/AMD64/Storage/ATA.cc`, `src/DriveMgr.cc`)

The driver does not keep a byte for every address of the disk. It keeps one for every word: the bytes of a packet lie
in the low halves of the words from the start of its sector on, and those that a transfer has no room for are lost.
Seen so, `io_drv_input` and `io_drv_output` are a byte store, over whole runs and from any disk (`ata_run`).
-/

namespace OpenNE

namespace Ata

open AtaBus

/-! ### The store of words -/

/-- The low halves of the words of a disk. -/
def lowBytes (disk : Store) : Store := fun word => disk (2 * word)

/-- The word that a packet at an address begins with. -/
def wordOf (lba : Lba) : Nat := 256 * (lba.toNat / 512 % 2 ^ 28)

/-- How many of the bytes of a packet are transferred. -/
def kept (size : Nat) : Nat := min (transferWords size) size

end Ata

/-- A call of `io_drv_input` with what it returned, or one of `io_drv_output`. -/
inductive DrvCall where
  | input (pckt : DrivePacket) (answer : List UInt8)
  | output (pckt : DrivePacket) (content : List UInt8)

namespace DrvCall

open Ata

/-- At most 64 KiB, of which the device can reach what is transferred. -/
def Reaches (sectors : Nat) : DrvCall → Prop
  | input pckt _ => pckt.fPacketSize ≤ 65536 ∧ wordOf pckt.fPacketLba + kept pckt.fPacketSize ≤ 256 * sectors
  | output pckt content => content.length ≤ 65536 ∧ wordOf pckt.fPacketLba + kept content.length ≤ 256 * sectors

end DrvCall

namespace Ata

open AtaBus

/-- The driver's call. -/
def DrvStep (fuel : Nat) (io : UInt16) (master : UInt8) (bus : AtaBus) : DrvCall → AtaBus → Prop
  | .input pckt answer, bus' => ioDrvInput fuel io master pckt bus = (.ok answer, bus')
  | .output pckt content, bus' => ioDrvOutput fuel io master pckt content bus = (.ok (), bus')

/-- The same of the store: what is not transferred is not stored, and is read as the port floats. -/
def WordStep (floating : UInt16) (words : Store) : DrvCall → Store → Prop
  | .input pckt answer, words' => words' = words ∧
      answer = words.read (wordOf pckt.fPacketLba) (kept pckt.fPacketSize) ++
        List.replicate (pckt.fPacketSize - kept pckt.fPacketSize) floating.toUInt8
  | .output pckt content, words' => words' = if pckt.fPacketReadOnly then words
      else words.write (wordOf pckt.fPacketLba) (content.take (kept content.length))

section Words

variable {fuel : Nat} {bus bus' : AtaBus} {sectors : Nat} {floating : UInt16}

theorem startByte_eq (lba : Lba) : startByte lba = 2 * wordOf lba := by
  rw [startByte, wordOf]
  omega

theorem lowBytes_spread {words : Nat} {content : List UInt8} {disk : Store} {first : Nat}
    (hlen : words ≤ content.length) (hfits : first + words ≤ 256 * sectors) :
    lowBytes (spread (512 * sectors) (2 * first) words content disk) =
      (lowBytes disk).write first (content.take words) := by
  funext word
  rw [lowBytes, Store.write, List.length_take, Nat.min_eq_left hlen]
  by_cases hin : first ≤ word ∧ word < first + words
  · rw [if_pos hin]
    obtain ⟨k, rfl⟩ := Nat.exists_eq_add_of_le hin.1
    rw [Nat.mul_add, spread_low (by omega) (by omega), Nat.add_sub_cancel_left, List.getD_eq_getElem?_getD,
      List.getD_eq_getElem?_getD, List.getElem?_take_of_lt (by omega)]
  · rw [if_neg hin]
    exact spread_outside (by omega)

theorem received_map {next left size : Nat} (hfits : next + min left size ≤ 256 * bus.sectors) :
    ((List.range size).map fun i => (bus.received (2 * next) left i).toUInt8) =
      (lowBytes bus.disk).read next (min left size) ++
        List.replicate (size - min left size) bus.floating.toUInt8 := by
  have hsplit : size = min left size + (size - min left size) := by omega
  have hfloats : ∀ i ∈ List.range (size - min left size),
      (bus.received (2 * next) left (min left size + i)).toUInt8 = bus.floating.toUInt8 := by
    intro i hi
    have hlt := List.mem_range.mp hi
    rw [received, if_neg (by omega)]
  rw [hsplit, List.range_add, List.map_append, List.map_map, ← hsplit]
  congr 1
  · apply List.map_congr_left
    intro i hi
    have hlt := List.mem_range.mp hi
    rw [received, if_pos (by omega), wordAt_low (by omega), lowBytes, Nat.mul_add]
  · rw [← List.length_range (n := size - min left size), ← List.map_const', List.length_range]
    exact List.map_congr_left hfloats

end Words

/-! ### Runs -/

section Runs

variable {fuel : Nat} {bus bus' : AtaBus} {op : DrvCall} {words words' : Store}

/-- The bus holds the store. -/
structure Keeps (io : UInt16) (sectors : Nat) (floating : UInt16) (bus : AtaBus) (words : Store) : Prop where
  io : bus.io = io
  sectors : bus.sectors = sectors
  floating : bus.floating = floating
  words : lowBytes bus.disk = words

variable {io floating : UInt16} {sectors : Nat}

theorem Keeps.after {command : AtaCommand} {disk' : Store} (h : Keeps io sectors floating bus words)
    (hafter : After command disk' bus bus') (hwords : lowBytes disk' = words') :
    Keeps io sectors floating bus' words' :=
  ⟨hafter.io.trans h.io, hafter.sectors.trans h.sectors, hafter.floating.trans h.floating,
    (congrArg lowBytes hafter.disk).trans hwords⟩

theorem Keeps.input (master : UInt8) (hfuel : 0 < fuel) (h : Keeps io sectors floating bus words) {pckt : DrivePacket}
    (hsize : pckt.fPacketSize ≤ 65536) (hfits : wordOf pckt.fPacketLba + kept pckt.fPacketSize ≤ 256 * sectors) :
    ∃ bus', ioDrvInput fuel io master pckt bus =
        (.ok (words.read (wordOf pckt.fPacketLba) (kept pckt.fPacketSize) ++
          List.replicate (pckt.fPacketSize - kept pckt.fPacketSize) floating.toUInt8), bus') ∧
      Keeps io sectors floating bus' words := by
  obtain ⟨bus', hread, command, hafter⟩ := ioDrvInput_returns master hfuel h.io hsize
  refine ⟨bus', ?_, h.after hafter h.words⟩
  rw [hread, startByte_eq, received_map (by rw [h.sectors]; exact hfits), h.words, h.floating]
  rfl

theorem Keeps.output (master : UInt8) (hfuel : 0 < fuel) (h : Keeps io sectors floating bus words)
    {pckt : DrivePacket} {content : List UInt8} (hsize : content.length ≤ 65536)
    (hfits : wordOf pckt.fPacketLba + kept content.length ≤ 256 * sectors) :
    ∃ bus', ioDrvOutput fuel io master pckt content bus = (.ok (), bus') ∧
      Keeps io sectors floating bus' (if pckt.fPacketReadOnly then words
        else words.write (wordOf pckt.fPacketLba) (content.take (kept content.length))) := by
  by_cases hreadOnly : pckt.fPacketReadOnly = true
  · have hnone : ioDrvOutput fuel io master pckt content bus = (.ok (), bus) := by
      rw [ioDrvOutput, if_pos hreadOnly]
      rfl
    refine ⟨bus, hnone, ?_⟩
    rw [if_pos hreadOnly]
    exact h
  · obtain ⟨bus', hwrite, command, hafter⟩ :=
      ioDrvOutput_returns master hfuel h.io (Bool.eq_false_iff.mpr hreadOnly) hsize
    refine ⟨bus', hwrite, ?_⟩
    rw [if_neg hreadOnly]
    rw [h.sectors, startByte_eq] at hafter
    refine h.after hafter ?_
    rw [← h.words]
    exact lowBytes_spread (Nat.min_le_right _ _) hfits

/-- The driver's step is the store's. -/
theorem Keeps.step (master : UInt8) (hfuel : 0 < fuel) (h : Keeps io sectors floating bus words)
    (hstep : DrvStep fuel io master bus op bus') (hreaches : op.Reaches sectors) :
    ∃ words', WordStep floating words op words' ∧ Keeps io sectors floating bus' words' := by
  cases op with
  | input pckt answer =>
    obtain ⟨bus'', hread, hkeeps⟩ := h.input master hfuel hreaches.1 hreaches.2
    obtain ⟨hanswer, rfl⟩ := Prod.mk.inj (hstep.symm.trans hread)
    exact ⟨words, ⟨rfl, Except.ok.inj hanswer⟩, hkeeps⟩
  | output pckt content =>
    obtain ⟨bus'', hwrite, hkeeps⟩ := h.output master hfuel hreaches.1 hreaches.2
    obtain ⟨-, rfl⟩ := Prod.mk.inj (hstep.symm.trans hwrite)
    exact ⟨_, rfl, hkeeps⟩

theorem Keeps.follow (master : UInt8) (hfuel : 0 < fuel) (h : Keeps io sectors floating bus words)
    (hstep : WordStep floating words op words') (hreaches : op.Reaches sectors) :
    ∃ bus', DrvStep fuel io master bus op bus' ∧ Keeps io sectors floating bus' words' := by
  cases op with
  | input pckt answer =>
    obtain ⟨rfl, rfl⟩ := hstep
    exact h.input master hfuel hreaches.1 hreaches.2
  | output pckt content =>
    cases hstep
    exact h.output master hfuel hreaches.1 hreaches.2

/-- On any device, a run of the driver's calls is a run of the store of its words, answer for answer, and a run of the
store is one of the driver's. -/
theorem ata_run (hfuel : 0 < fuel) (master : UInt8) (bus : AtaBus) (ops : List DrvCall) (words' : Store) :
    (∃ bus', Run (Guarded (DrvStep fuel bus.io master) fun _ op => op.Reaches bus.sectors) bus ops bus' ∧
      lowBytes bus'.disk = words') ↔
    Run (Guarded (WordStep bus.floating) fun _ op => op.Reaches bus.sectors) (lowBytes bus.disk) ops words' := by
  have hstart : Keeps bus.io bus.sectors bus.floating bus (lowBytes bus.disk) := ⟨rfl, rfl, rfl, rfl⟩
  constructor
  · rintro ⟨bus', hrun, rfl⟩
    have hfollows : ∀ s t op s', Keeps bus.io bus.sectors bus.floating s t →
        Guarded (DrvStep fuel bus.io master) (fun _ op => op.Reaches bus.sectors) s op s' →
        ∃ t', Guarded (WordStep bus.floating) (fun _ op => op.Reaches bus.sectors) t op t' ∧
          Keeps bus.io bus.sectors bus.floating s' t' := by
      intro s t op s' hkeeps hstep
      obtain ⟨t', hnext, hkeeps'⟩ := hkeeps.step master hfuel hstep.1 hstep.2
      exact ⟨t', ⟨hnext, hstep.2⟩, hkeeps'⟩
    obtain ⟨words', hwords, hkeeps⟩ := hrun.simulate _ hfollows hstart
    rw [hkeeps.words]
    exact hwords
  · intro hrun
    have hfollows : ∀ t s op t', Keeps bus.io bus.sectors bus.floating s t →
        Guarded (WordStep bus.floating) (fun _ op => op.Reaches bus.sectors) t op t' →
        ∃ s', Guarded (DrvStep fuel bus.io master) (fun _ op => op.Reaches bus.sectors) s op s' ∧
          Keeps bus.io bus.sectors bus.floating s' t' := by
      intro t s op t' hkeeps hstep
      obtain ⟨s', hnext, hkeeps'⟩ := hkeeps.follow master hfuel hstep.1 hstep.2
      exact ⟨s', ⟨hnext, hstep.2⟩, hkeeps'⟩
    obtain ⟨bus', hbus, hkeeps⟩ := hrun.simulate (fun t s => Keeps bus.io bus.sectors bus.floating s t) hfollows hstart
    exact ⟨bus', hbus, hkeeps.words⟩

/-- A disk of two sectors. -/
def smallBus : AtaBus where
  io := ataPrimaryIo
  disk := fun _ => 0
  sectors := 2
  identifyBlock := fun _ => 0
  floating := 0xFFFF
  regs := fun _ => 0
  transfer := .idle
  issued := []

/-- Two bytes at address 5 are read back there, and at the start of the sector too. -/
theorem ata_run_smallBus :
    ∃ bus', Run (Guarded (DrvStep 1 smallBus.io ataMaster) fun _ op => op.Reaches smallBus.sectors) smallBus
      [.output { fPacketLba := 5, fPacketSize := 2 } [7, 8], .input { fPacketLba := 0, fPacketSize := 2 } [7, 8]]
      bus' ∧ lowBytes bus'.disk = (lowBytes smallBus.disk).write 0 [7, 8] := by
  refine (ata_run (by decide) ataMaster smallBus _ _).mpr ?_
  have hwrite : Run (Guarded (WordStep smallBus.floating) fun _ op => op.Reaches smallBus.sectors)
      (lowBytes smallBus.disk) [.output { fPacketLba := 5, fPacketSize := 2 } [7, 8]]
      ((lowBytes smallBus.disk).write 0 [7, 8]) := Run.one ⟨rfl, by decide, by decide⟩
  exact hwrite.snoc ⟨⟨rfl, by decide⟩, by decide, by decide⟩

end Runs

end Ata

end OpenNE

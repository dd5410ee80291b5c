import OpenNE.Base.Span
import OpenNE.Storage.Ahci

/-!
# The descriptor table of a command

The header of a command says how many descriptors the device is to follow, `Prdtl` of them. The loop that fills the
table in stops one short of it: the last descriptor is whatever stood there (`tableEntry_last`). Of the others each
one but the first starts a page behind the one before and is 16 bytes shorter, while the first is as long as the
whole buffer, so no table of two and more describes the buffer either (`not_tiles`).
-/

namespace OpenNE

theorem Tiles.not_of_first {a b : Nat} {s t : Span} {rest : List Span} (hall : a + s.len = b) (ht : 0 < t.len) :
    ¬ Tiles a (s :: t :: rest) b := by
  rintro ⟨-, -, hrest⟩
  have hle := hrest.le_end
  omega

/-! ### A command and its table -/

namespace HbaPrdtEntry

/-- The memory a descriptor names: `Dbc` is one less than its bytes. -/
def span (entry : HbaPrdtEntry) : Span := ⟨entry.Dba.toNat + 2 ^ 32 * entry.Dbau.toNat, entry.Dbc.toNat + 1⟩

end HbaPrdtEntry

namespace AhciPort

/-- The part of `drv_std_input_output` that sets the command of `slot` up. -/
def buildCommand (slot : Nat) (write identify : Bool) (lba buffer sectorSz sizeBuffer : UInt64) :
    Call AhciPort Unit :=
  let prdtl : UInt16 := ((sizeBuffer - 1) >>> 4).toUInt16 + 1
  if prdtl = 0 then Call.stop .fault
  else do
    let fis ← Call.gets fun port => port.frames slot
    Call.modify (prepared slot write prdtl (prdtEntries buffer sizeBuffer (prdtl.toNat - 1))
      (commandFrame write identify lba sectorSz fis))

/-- The part that hands it to the device. -/
def sendCommand (fuel slot : Nat) : Call AhciPort Unit := do
  Call.rounds readyRound fuel ()
  Call.modify (issue slot)
  Call.rounds (issuedRound slot) fuel ()

/-- The descriptor `i` of a table in which `stale` stood and `written` was laid down. -/
def tableEntry (stale : Nat → HbaPrdtEntry) (written : List HbaPrdtEntry) (i : Nat) : HbaPrdtEntry :=
  written.getD i (stale i)

/-- The descriptors the device follows for the command of `slot`. -/
def followed (stale : Nat → HbaPrdtEntry) (slot : Nat) (port : AhciPort) : List HbaPrdtEntry :=
  (List.range (port.headers slot).Prdtl.toNat).map (tableEntry stale (port.prdt slot))

/-- The command of `slot` covers the buffer. -/
structure CoversBuffer (stale : Nat → HbaPrdtEntry) (slot : Nat) (buffer sizeBuffer : UInt64) (port : AhciPort) :
    Prop where
  tiles : Tiles buffer.toNat ((port.followed stale slot).map HbaPrdtEntry.span) (buffer.toNat + sizeBuffer.toNat)
  fits : ∀ entry ∈ port.followed stale slot, entry.Dbc.toNat < 2 ^ 22
  written : (port.headers slot).Prdtl.toNat ≤ (port.prdt slot).length

section Table

variable {fuel slot : Nat} {write identify : Bool} {lba buffer sectorSz sizeBuffer : UInt64} {port port' : AhciPort}
  {stale : Nat → HbaPrdtEntry}

theorem drvStdInputOutput_eq_build (hslot : port.drvFindCmdSlot = some slot) :
    drvStdInputOutput fuel write identify lba buffer sectorSz sizeBuffer port =
      (buildCommand slot write identify lba buffer sectorSz sizeBuffer >>= fun _ => sendCommand fuel slot) port := by
  rw [drvStdInputOutput_of_slot hslot, commandIn, buildCommand]
  by_cases hnone : ((sizeBuffer - 1) >>> 4).toUInt16 + 1 = 0
  · rw [if_pos hnone, if_pos hnone]
    exact (Call.bind_of_error rfl).symm
  · rw [if_neg hnone, if_neg hnone, Call.gets_bind, Call.modify_bind]
    exact (Call.bind_of_ok rfl).symm

theorem prdtEntries_length (buffer sizeBuffer : UInt64) (n : Nat) : (prdtEntries buffer sizeBuffer n).length = n := by
  induction n generalizing buffer sizeBuffer with
  | zero => rfl
  | succ n ih => rw [prdtEntries, List.length_cons, ih]

theorem buildCommand_eq_ok
    (h : buildCommand slot write identify lba buffer sectorSz sizeBuffer port = (.ok (), port')) :
    (port'.headers slot).Prdtl = ((sizeBuffer - 1) >>> 4).toUInt16 + 1 ∧ (port'.headers slot).Prdtl ≠ 0 ∧
      port'.prdt slot = prdtEntries buffer sizeBuffer ((port'.headers slot).Prdtl.toNat - 1) := by
  unfold buildCommand at h
  by_cases hnone : ((sizeBuffer - 1) >>> 4).toUInt16 + 1 = 0
  · rw [if_pos hnone] at h
    cases congrArg Prod.fst h
  · rw [if_neg hnone, Call.gets_bind] at h
    have hport : prepared slot write (((sizeBuffer - 1) >>> 4).toUInt16 + 1) _ _ port = port' := congrArg Prod.snd h
    have hheader : port'.headers slot = ⟨5, write, ((sizeBuffer - 1) >>> 4).toUInt16 + 1⟩ := by
      rw [← hport]
      exact Function.update_self ..
    rw [hheader]
    refine ⟨rfl, hnone, ?_⟩
    rw [← hport]
    exact Function.update_self ..

theorem prdtl_pos {prdtl : UInt16} (h : prdtl ≠ 0) : 0 < prdtl.toNat :=
  Nat.pos_of_ne_zero fun hzero => h (UInt16.toNat_inj.mp hzero)

theorem tableEntry_last (stale : Nat → HbaPrdtEntry)
    (h : buildCommand slot write identify lba buffer sectorSz sizeBuffer port = (.ok (), port')) :
    (port'.prdt slot).length + 1 = (port'.headers slot).Prdtl.toNat ∧
      (port'.followed stale slot).getLast? = some (stale ((port'.headers slot).Prdtl.toNat - 1)) := by
  obtain ⟨-, hsome, hprdt⟩ := buildCommand_eq_ok h
  have hpos := prdtl_pos hsome
  have hlength : (port'.prdt slot).length + 1 = (port'.headers slot).Prdtl.toNat := by
    rw [hprdt, prdtEntries_length]
    omega
  refine ⟨hlength, ?_⟩
  rw [followed, List.getLast?_map, List.getLast?_range, if_neg (by omega), Option.map_some, tableEntry,
    List.getD_eq_default _ _ (by omega)]

theorem not_tiles (stale : Nat → HbaPrdtEntry)
    (h : buildCommand slot write identify lba buffer sectorSz sizeBuffer port = (.ok (), port'))
    (htwo : 2 ≤ (port'.headers slot).Prdtl.toNat) (hpos : 0 < sizeBuffer) (hsize : sizeBuffer.toNat ≤ 2 ^ 22) :
    ¬ Tiles buffer.toNat ((port'.followed stale slot).map HbaPrdtEntry.span)
      (buffer.toNat + sizeBuffer.toNat) := by
  obtain ⟨-, -, hprdt⟩ := buildCommand_eq_ok h
  obtain ⟨n, hn⟩ : ∃ n, (port'.headers slot).Prdtl.toNat = n + 2 := ⟨_, (Nat.sub_add_cancel htwo).symm⟩
  have hbytes : ((sizeBuffer - 1).toUInt32 &&& 0x3FFFFF).toNat + 1 = sizeBuffer.toNat := by
    have hmask : (0x3FFFFF : UInt32).toNat = 2 ^ 22 - 1 := rfl
    have hless : (sizeBuffer - 1).toNat = sizeBuffer.toNat - 1 := UInt64.toNat_sub_of_le _ _ (by
      rw [UInt64.le_iff_toNat_le]
      exact UInt64.lt_iff_toNat_lt.mp hpos)
    have hpos' : 0 < sizeBuffer.toNat := UInt64.lt_iff_toNat_lt.mp hpos
    rw [UInt32.toNat_and, hmask, Nat.and_two_pow_sub_one_eq_mod, UInt64.toNat_toUInt32, hless]
    omega
  rw [followed, hn, hprdt, hn, List.range_succ_eq_map, List.range_succ_eq_map]
  simp only [List.map_cons]
  refine Tiles.not_of_first ?_ (Nat.succ_pos _)
  -- the first descriptor is as long as the buffer
  show buffer.toNat + (((sizeBuffer - 1).toUInt32 &&& 0x3FFFFF).toNat + 1) = _
  rw [hbytes]

end Table

end AhciPort

/-- A call that found a slot sets a command up and sends it. One descriptor less is written than the device is to
follow, the last one it follows is the one that stood there, and no command covers its buffer. -/
theorem scatter_never {port : AhciPort} {fuel slot : Nat} (hslot : port.drvFindCmdSlot = some slot)
    (write identify : Bool) (lba buffer sectorSz sizeBuffer : UInt64) (stale : Nat → HbaPrdtEntry) :
    AhciPort.drvStdInputOutput fuel write identify lba buffer sectorSz sizeBuffer port =
        (AhciPort.buildCommand slot write identify lba buffer sectorSz sizeBuffer >>= fun _ =>
          AhciPort.sendCommand fuel slot) port ∧
      (∀ port', AhciPort.buildCommand slot write identify lba buffer sectorSz sizeBuffer port = (.ok (), port') →
        (port'.prdt slot).length + 1 = (port'.headers slot).Prdtl.toNat ∧
          (port'.followed stale slot).getLast? = some (stale ((port'.headers slot).Prdtl.toNat - 1))) ∧
      ¬ ∃ port', AhciPort.buildCommand slot write identify lba buffer sectorSz sizeBuffer port = (.ok (), port') ∧
        port'.CoversBuffer stale slot buffer sizeBuffer := by
  refine ⟨AhciPort.drvStdInputOutput_eq_build hslot, fun port' => AhciPort.tableEntry_last stale, ?_⟩
  rintro ⟨port', hbuild, hcovers⟩
  have hlength := (AhciPort.tableEntry_last stale hbuild).1
  have hwritten := hcovers.written
  omega

/-- An idle port, and a buffer of one sector. -/
theorem scatter_never_idle :
    ¬ ∃ port', AhciPort.buildCommand 0 false false 0 0x10000 kAHCISectorSize 512 (AhciPort.idle fun _ => 0) =
        (.ok (), port') ∧ port'.CoversBuffer (fun _ => ⟨0, 0, 0, false⟩) 0 0x10000 512 :=
  (@scatter_never (AhciPort.idle fun _ => 0) 1 0 (by decide) false false 0 0x10000 kAHCISectorSize 512
    fun _ => ⟨0, 0, 0, false⟩).2.2

/-- For a sector 32 descriptors are announced and 31 written; the device follows the last one to wherever the memory
there says. -/
theorem sector_not_covered :
    ∃ port', AhciPort.buildCommand 0 false false 0 0x10000 kAHCISectorSize 512 (AhciPort.idle fun _ => 0) =
        (.ok (), port') ∧
      (port'.headers 0).Prdtl = 32 ∧ (port'.prdt 0).length = 31 ∧
      AhciPort.tableEntry (fun _ => ⟨0xBAD0000, 0, 511, false⟩) (port'.prdt 0) 31 = ⟨0xBAD0000, 0, 511, false⟩ ∧
      ¬ port'.CoversBuffer (fun _ => ⟨0xBAD0000, 0, 511, false⟩) 0 0x10000 512 := by
  refine ⟨_, rfl, rfl, rfl, rfl, fun hcovers => ?_⟩
  exact absurd hcovers.written (by decide)

end OpenNE

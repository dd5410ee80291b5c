import OpenNE.NeFS.Catalog
import Mathlib.Data.List.Nodup

/-!
# The catalog chain

Records stand at the slots `slot 0`, `slot 1`, …, each with the next slot as its sibling, and zeros follow
(`Chain`). Both traversals, the search along `NextSibling` and the search for a free slot in steps of
`catalogStride`, go through the same slots. Removed records stay in the chain: `Chain` knows of a record
only that some bit of `kNeFSFlagCreated` is set.
-/

namespace OpenNE

/-! ### Slots -/

/-- `StartCatalog + i * 4 * sizeof(NFS_CATALOG_STRUCT)`. -/
def slot (i : Nat) : Nat := kNeFSCatalogStartAddress.toNat + i * (4 * catalogSize)

/-- The slot as an address; the last one before `2 ^ 64` is followed by one below the first. -/
def slotLba (i : Nat) : Lba := UInt64.ofNat (slot i)

theorem slot_eq (i : Nat) : slot i = 2056 * i + 2560 := by
  show 2560 + i * 2056 = 2056 * i + 2560
  omega

theorem slotLba_zero : slotLba 0 = kNeFSCatalogStartAddress := rfl

theorem startAddress_toNat : kNeFSCatalogStartAddress.toNat = 2560 := rfl

theorem slotLba_toNat {i : Nat} (h : slot i < 2 ^ 64) : (slotLba i).toNat = slot i := by
  rw [slotLba, UInt64.toNat_ofNat', Nat.mod_eq_of_lt h]

theorem slotLba_add_stride (i : Nat) : slotLba i + catalogStride = slotLba (i + 1) := by
  have hstep : slot (i + 1) = slot i + 2056 := by
    rw [slot_eq, slot_eq]
    omega
  rw [slotLba, slotLba, hstep, UInt64.ofNat_add]
  rfl

theorem slotLba_wrap {i : Nat} (hfit : slot i < 2 ^ 64) (hnext : ¬slot (i + 1) < 2 ^ 64) :
    slotLba (i + 1) < kNeFSCatalogStartAddress := by
  rw [slot_eq] at hfit hnext
  rw [UInt64.lt_iff_toNat_lt, slotLba, UInt64.toNat_ofNat', slot_eq, startAddress_toNat]
  omega

theorem slotLba_not_lt {i : Nat} (h : slot i < 2 ^ 64) : ¬slotLba i < kNeFSCatalogStartAddress := by
  rw [UInt64.lt_iff_toNat_lt, slotLba_toNat h, slot_eq, startAddress_toNat]
  omega

theorem slotLba_inj {i j : Nat} (hi : slot i < 2 ^ 64) (hj : slot j < 2 ^ 64) (h : slotLba i = slotLba j) :
    i = j := by
  have heq := congrArg UInt64.toNat h
  rw [slotLba_toNat hi, slotLba_toNat hj, slot_eq, slot_eq] at heq
  omega

/-! ### Frames -/

section Frames

variable {d : Drive} {part : NfsSuperBlock} {temporary child catalog : NfsCatalogStruct} {i j x : Nat}

theorem superBlock_output_catalog {c : NfsCatalogStruct} (hi : slot i < 2 ^ 64) :
    (d.output NfsCatalogStruct.codec (slotLba i) c).superBlock = d.superBlock := by
  apply Drive.input_output_disjoint
  left
  rw [slotLba_toNat hi, slot_eq]
  show 1024 + 512 ≤ _
  omega

theorem catalogAt_output_superBlock {b : NfsSuperBlock} (hi : slot i < 2 ^ 64) :
    (d.output NfsSuperBlock.codec kNeFSRootCatalogStartAddress b).catalogAt (slotLba i) =
      d.catalogAt (slotLba i) := by
  apply Drive.input_output_disjoint
  right
  rw [slotLba_toNat hi, slot_eq]
  show 1024 + 512 ≤ _
  omega

theorem catalogAt_output_other {c : NfsCatalogStruct} (hi : slot i < 2 ^ 64) (hj : slot j < 2 ^ 64)
    (hij : i ≠ j) :
    (d.output NfsCatalogStruct.codec (slotLba i) c).catalogAt (slotLba j) = d.catalogAt (slotLba j) := by
  apply Drive.input_output_disjoint
  rw [slotLba_toNat hi, slotLba_toNat hj, slot_eq, slot_eq, catalog_codec_size, catalogSize]
  omega

theorem output_catalog_behind {c : NfsCatalogStruct} (hi : slot i < 2 ^ 64) (hx : slot (i + 1) ≤ x) :
    (d.output NfsCatalogStruct.codec (slotLba i) c).disk x = d.disk x := by
  rw [slot_eq] at hx
  have hend : slot i + catalogSize ≤ x := by
    rw [slot_eq, catalogSize]
    omega
  exact Drive.output_apply_outside (.inr (by rwa [slotLba_toNat hi]))

theorem output_superBlock_behind {b : NfsSuperBlock} (hx : slot i ≤ x) :
    (d.output NfsSuperBlock.codec kNeFSRootCatalogStartAddress b).disk x = d.disk x := by
  apply Drive.output_apply_outside
  right
  rw [slot_eq] at hx
  show 1024 + 512 ≤ _
  omega

theorem allocate_superBlock (hro : d.fPacketReadOnly = false) (hi : slot i < 2 ^ 64) :
    (d.allocateCatalog part temporary child (slotLba i)).superBlock = d.superBlock.catalogCreated := by
  unfold Drive.allocateCatalog
  rw [Drive.superBlock, Drive.input_output_same (by simpa), superBlock_output_catalog hi,
    superBlock_output_catalog hi]

theorem allocate_same (hro : d.fPacketReadOnly = false) (hi : slot i < 2 ^ 64) :
    (d.allocateCatalog part temporary child (slotLba i)).catalogAt (slotLba i) =
      child.placedAt part (slotLba i) := by
  unfold Drive.allocateCatalog
  rw [catalogAt_output_superBlock hi, Drive.catalogAt, Drive.input_output_same (by simpa)]

theorem allocate_other (hi : slot i < 2 ^ 64) (hj : slot j < 2 ^ 64) (hij : i ≠ j) :
    (d.allocateCatalog part temporary child (slotLba i)).catalogAt (slotLba j) = d.catalogAt (slotLba j) := by
  unfold Drive.allocateCatalog
  rw [catalogAt_output_superBlock hj, catalogAt_output_other hi hj hij, catalogAt_output_other hi hj hij]

theorem allocate_behind (hi : slot i < 2 ^ 64) (hx : slot (i + 1) ≤ x) :
    (d.allocateCatalog part temporary child (slotLba i)).disk x = d.disk x := by
  unfold Drive.allocateCatalog
  rw [output_superBlock_behind hx, output_catalog_behind hi hx, output_catalog_behind hi hx]

theorem release_superBlock (hro : d.fPacketReadOnly = false) (hi : slot i < 2 ^ 64) :
    (d.releaseCatalog catalog (slotLba i)).superBlock = d.superBlock.catalogRemoved := by
  unfold Drive.releaseCatalog
  rw [Drive.superBlock, Drive.input_output_same (by simpa), superBlock_output_catalog hi]

theorem release_same (hro : d.fPacketReadOnly = false) (hi : slot i < 2 ^ 64) :
    (d.releaseCatalog catalog (slotLba i)).catalogAt (slotLba i) = catalog.removed := by
  unfold Drive.releaseCatalog
  rw [catalogAt_output_superBlock hi, Drive.catalogAt, Drive.input_output_same hro]

theorem release_other (hi : slot i < 2 ^ 64) (hj : slot j < 2 ^ 64) (hij : i ≠ j) :
    (d.releaseCatalog catalog (slotLba i)).catalogAt (slotLba j) = d.catalogAt (slotLba j) := by
  unfold Drive.releaseCatalog
  rw [catalogAt_output_superBlock hj, catalogAt_output_other hi hj hij]

theorem release_behind (hi : slot i < 2 ^ 64) (hx : slot (i + 1) ≤ x) :
    (d.releaseCatalog catalog (slotLba i)).disk x = d.disk x := by
  unfold Drive.releaseCatalog
  rw [output_superBlock_behind hx, output_catalog_behind hi hx]

end Frames

/-! ### The invariant -/

/-- A catalog that was created: its name and kind. -/
structure Entry where
  name : CString
  kind : Int32
  deriving DecidableEq

/-- What every record made for `m` at slot `i` has, removed or not. -/
structure RecordOf (diskSize : UInt64) (i : Nat) (m : Entry) (c : NfsCatalogStruct) : Prop where
  nameField : c.Name = m.name.field kNeFSNodeNameLen
  short : m.name.length < kNeFSNodeNameLen
  created : c.hasCreated = true
  next : c.NextSibling = slotLba (i + 1)
  kind : c.Kind = m.kind
  dataFork : c.DataFork = diskSize - slotLba i
  resourceFork : c.ResourceFork = c.DataFork

theorem RecordOf.name {diskSize : UInt64} {i : Nat} {m : Entry} {c : NfsCatalogStruct}
    (h : RecordOf diskSize i m c) : c.nameString = .ok m.name :=
  NfsCatalogStruct.nameString_field h.short h.nameField

/-- The records of `made` stand at the first slots, in the order they were created; `fmt` is the superblock
the disk was formatted with. -/
structure Chain (fmt : NfsSuperBlock) (made : List Entry) (d : Drive) : Prop where
  writable : d.fPacketReadOnly = false
  start : d.superBlock.StartCatalog = kNeFSCatalogStartAddress
  diskSize : d.superBlock.DiskSize = fmt.DiskSize
  freeCatalog : made.length + d.superBlock.FreeCatalog.toNat = fmt.FreeCatalog.toNat
  fits : ∀ i < made.length, slot i < 2 ^ 64
  record : ∀ i (h : i < made.length), RecordOf fmt.DiskSize i made[i] (d.catalogAt (slotLba i))
  nonempty : ∀ m ∈ made, m.name.1 ≠ []
  distinct : (made.map Entry.name).Nodup
  kind : ∀ m ∈ made, m.kind = kNeFSCatalogKindDir ↔ m.name.1.getLast? = some kNeFSSeparator
  zeroed : ∀ x, slot made.length ≤ x → d.disk x = 0

/-- A formatted drive, its catalog area zeroed. -/
structure Formatted (d : Drive) : Prop where
  writable : d.fPacketReadOnly = false
  start : d.superBlock.StartCatalog = kNeFSCatalogStartAddress
  zeroed : ∀ x, kNeFSCatalogStartAddress.toNat ≤ x → d.disk x = 0

theorem Formatted.chain {d : Drive} (hd : Formatted d) : Chain d.superBlock [] d where
  writable := hd.writable
  start := hd.start
  diskSize := rfl
  freeCatalog := by simp
  fits := by simp
  record := by simp
  nonempty := by simp
  distinct := by simp
  kind := by simp
  zeroed := hd.zeroed

theorem Formatted.blank {part : NfsSuperBlock} (hstart : part.StartCatalog = kNeFSCatalogStartAddress) :
    Formatted (Drive.blank part) where
  writable := rfl
  start := by
    have h : (Drive.blank part).superBlock = part := Store.get_put_same
    rw [h, hstart]
  zeroed := by
    intro x hx
    show Store.put NfsSuperBlock.codec (fun _ => 0) 1024 part x = 0
    rw [startAddress_toNat] at hx
    rw [Store.put_apply_outside]
    right
    show 1024 + 512 ≤ x
    omega

theorem removed_hasCreated (c : NfsCatalogStruct) : c.removed.hasCreated = true := by
  have hbit : ∀ f : BitVec 16, (f &&& ~~~(71 : BitVec 16) ||| 70) &&& 71 ≠ 0 := by
    intro f h
    have := congrArg (fun b => b.getLsbD 1) h
    simp at this
  have hne : c.removed.Flags &&& kNeFSFlagCreated ≠ 0 := by
    intro h
    exact hbit c.Flags.toBitVec (congrArg UInt16.toBitVec h)
  simpa [NfsCatalogStruct.hasCreated] using hne

namespace Chain

variable {fmt : NfsSuperBlock} {made : List Entry} {d d' : Drive} {name : CString}

theorem zero_behind (hc : Chain fmt made d) (hslot : slot made.length < 2 ^ 64) :
    d.catalogAt (slotLba made.length) = NfsCatalogStruct.zero :=
  Drive.catalogAt_zeroed fun x hx => hc.zeroed x (by rwa [slotLba_toNat hslot] at hx)

/-! ### `FindCatalog` -/

theorem findRound_next (hc : Chain fmt made d) {i : Nat} (h : i < made.length) (hne : name ≠ made[i].name)
    (hnext : slot (i + 1) < 2 ^ 64) :
    findRound d name true d.superBlock (slotLba i) = .ok (.inl (slotLba (i + 1))) := by
  have hrec := hc.record i h
  unfold findRound
  simp only [hrec.name, Exec.ok_bind, hne, false_and, if_false, hrec.next, hc.start]
  rw [if_neg (slotLba_not_lt hnext)]

theorem findRound_hit (hc : Chain fmt made d) {i : Nat} (h : i < made.length) (heq : name = made[i].name) :
    findRound d name true d.superBlock (slotLba i) =
      .ok (.inr (some (d.catalogAt (slotLba i), slotLba i))) := by
  have hrec := hc.record i h
  unfold findRound
  simp [hrec.name, heq, hrec.created]

theorem findRound_wrap (hc : Chain fmt made d) {i : Nat} (h : i < made.length) (hne : name ≠ made[i].name)
    (hnext : ¬slot (i + 1) < 2 ^ 64) :
    findRound d name true d.superBlock (slotLba i) = .ok (.inr none) := by
  have hrec := hc.record i h
  unfold findRound
  simp only [hrec.name, Exec.ok_bind, hne, false_and, if_false, hrec.next, hc.start]
  rw [if_pos (slotLba_wrap (hc.fits i h) hnext)]

theorem findRound_behind (hc : Chain fmt made d) (hname : name.1 ≠ []) (hslot : slot made.length < 2 ^ 64) :
    findRound d name true d.superBlock (slotLba made.length) = .ok (.inr none) := by
  have hne : name ≠ ⟨[], by simp⟩ := fun h => hname (by rw [h])
  unfold findRound
  simp only [hc.zero_behind hslot, NfsCatalogStruct.nameString_zero, Exec.ok_bind, hne, false_and, if_false,
    hc.start]
  rfl

/-- What a search of the chain from slot `i` on may return. -/
def FoundFrom (d : Drive) (made : List Entry) (name : CString) (i : Nat) :
    Option (NfsCatalogStruct × Lba) → Prop
  | none => ∀ j (h : j < made.length), i ≤ j → name ≠ made[j].name
  | some (c, lba) => ∃ j, ∃ h : j < made.length, name = made[j].name ∧ c = d.catalogAt (slotLba j) ∧
      lba = slotLba j

theorem search_rounds (hc : Chain fmt made d) (hname : name.1 ≠ []) {i : Nat} (hi : i ≤ made.length)
    (hslot : slot i < 2 ^ 64) :
    ∃ n r, i + n ≤ made.length ∧ slot (i + n) < 2 ^ 64 ∧
      (∀ k < n, findRound d name true d.superBlock (slotLba (i + k)) = .ok (.inl (slotLba (i + (k + 1))))) ∧
      findRound d name true d.superBlock (slotLba (i + n)) = .ok (.inr r) ∧ FoundFrom d made name i r := by
  induction hrest : made.length - i generalizing i with
  | zero =>
    obtain rfl : i = made.length := by omega
    refine ⟨0, none, by simp, hslot, fun k hk => absurd hk (by omega), hc.findRound_behind hname hslot, ?_⟩
    intro j hj hle
    omega
  | succ rest ih =>
    have hlt : i < made.length := by omega
    by_cases heq : name = made[i].name
    · exact ⟨0, _, by omega, hslot, fun k hk => absurd hk (by omega), hc.findRound_hit hlt heq,
        i, hlt, heq, rfl, rfl⟩
    by_cases hnext : slot (i + 1) < 2 ^ 64
    · obtain ⟨n, r, hn, hfit, hrounds, hleave, hfound⟩ := ih (by omega) hnext (by omega)
      refine ⟨n + 1, r, by omega, by rwa [← Nat.add_assoc, Nat.add_right_comm], ?_, ?_, ?_⟩
      · intro k hk
        cases k with
        | zero => exact hc.findRound_next hlt heq hnext
        | succ k =>
          have hround := hrounds k (by omega)
          rwa [Nat.add_right_comm, Nat.add_assoc i, Nat.add_right_comm, Nat.add_assoc i] at hround
      · rwa [Nat.add_right_comm, Nat.add_assoc] at hleave
      · cases r with
        | some found => exact hfound
        | none =>
          intro j hj hle
          rcases Nat.eq_or_lt_of_le hle with rfl | hlt
          · exact heq
          · exact hfound j hj hlt
    · refine ⟨0, none, by omega, hslot, fun k hk => absurd hk (by omega), hc.findRound_wrap hlt heq hnext, ?_⟩
      intro j hj hle
      have hfit := hc.fits j hj
      rw [slot_eq] at hfit hnext
      obtain rfl : j = i := by omega
      exact heq

theorem search_nodup (hc : Chain fmt made d) (hname : name.1 ≠ []) (fuel : Nat) :
    (loopStates (findRound d name true d.superBlock) fuel kNeFSCatalogStartAddress).Nodup := by
  obtain ⟨n, r, hn, hfit, hrounds, hleave, -⟩ := hc.search_rounds hname (Nat.zero_le _) (by decide : slot 0 < 2 ^ 64)
  rw [← slotLba_zero]
  have hstates := loopStates_of_rounds (s := fun k => slotLba (0 + k)) hrounds hleave fuel
  rw [Nat.add_zero] at hstates
  rw [hstates]
  refine ((List.nodup_map_iff_inj_on List.nodup_range).mpr ?_).sublist (List.take_sublist _ _)
  intro j hj k hk heq
  rw [List.mem_range] at hj hk
  rw [slot_eq] at hfit
  refine Nat.add_left_cancel (slotLba_inj ?_ ?_ heq)
  · rw [slot_eq]
    omega
  · rw [slot_eq]
    omega

theorem search_returns (hc : Chain fmt made d) (hname : name.1 ≠ []) {i : Nat} (hi : i ≤ made.length)
    (hslot : slot i < 2 ^ 64) :
    ∃ r, FoundFrom d made name i r ∧
      ∀ fuel, made.length < fuel → searchCatalogList fuel d name true (slotLba i) = .ok r := by
  obtain ⟨n, r, hn, -, hrounds, hleave, hfound⟩ := hc.search_rounds hname hi hslot
  refine ⟨r, hfound, ?_⟩
  intro fuel hfuel
  have hloop := loop_of_rounds (s := fun k => slotLba (i + k)) hrounds hleave
  exact loop_mono (by omega : n + 1 ≤ fuel) hloop

theorem findCatalog_returns (hc : Chain fmt made d) (hname : name.1 ≠ []) :
    ∃ r, FoundFrom d made name 0 r ∧
      ∀ fuel out, made.length < fuel → findCatalog fuel d (some name) out true = .ok (foundAt r) := by
  obtain ⟨r, hfound, hret⟩ := hc.search_returns hname (Nat.zero_le _) (by decide : slot 0 < 2 ^ 64)
  refine ⟨r, hfound, ?_⟩
  intro fuel out hfuel
  simp only [findCatalog, hname, if_false]
  rw [← slotLba_zero, hret fuel hfuel]
  rfl

theorem findCatalog_eq (hc : Chain fmt made d) (hname : name.1 ≠ []) {fuel : Nat} {out : Lba}
    {r : Option NfsCatalogStruct × Lba} (h : findCatalog fuel d (some name) out true = .ok r) :
    ∃ f, FoundFrom d made name 0 f ∧ r = foundAt f := by
  obtain ⟨f, hfound, hret⟩ := hc.findCatalog_returns hname
  refine ⟨f, hfound, ?_⟩
  have hlong := hret (made.length + 1) out (Nat.lt_succ_self _)
  simp only [findCatalog, hname, if_false, searchCatalogList] at h hlong
  obtain ⟨f₁, hf₁, rfl⟩ := Exec.exists_of_map h
  obtain ⟨f₂, hf₂, heq⟩ := Exec.exists_of_map hlong
  rw [loop_unique hf₁ hf₂, heq]

theorem findCatalog_some (hc : Chain fmt made d) {fuel : Nat} {out lba : Lba} {c : NfsCatalogStruct}
    (h : findCatalog fuel d (some name) out true = .ok (some c, lba)) : FoundFrom d made name 0 (some (c, lba)) := by
  have hname : name.1 ≠ [] := by
    intro hnil
    simp only [findCatalog, hnil, if_true] at h
    cases h
  obtain ⟨f, hf, heq⟩ := hc.findCatalog_eq hname h
  rcases f with _ | ⟨c', lba'⟩
  · cases heq
  · cases heq
    exact hf

theorem findCatalog_none (hc : Chain fmt made d) (hname : name.1 ≠ []) {fuel : Nat} {out lba : Lba}
    (h : findCatalog fuel d (some name) out true = .ok (none, lba)) : FoundFrom d made name 0 none := by
  obtain ⟨f, hf, heq⟩ := hc.findCatalog_eq hname h
  rcases f with _ | ⟨c', lba'⟩
  · exact hf
  · cases heq

theorem name_new (h : FoundFrom d made name 0 none) : ∀ m ∈ made, name ≠ m.name := by
  intro m hm
  obtain ⟨i, hi, rfl⟩ := List.mem_iff_getElem.mp hm
  exact h i hi (Nat.zero_le i)

theorem index_unique (hc : Chain fmt made d) {i j : Nat} (hi : i < made.length) (hj : j < made.length)
    (h : made[i].name = made[j].name) : i = j := by
  have hi' : i < (made.map Entry.name).length := by rwa [List.length_map]
  have hj' : j < (made.map Entry.name).length := by rwa [List.length_map]
  have hsame : (made.map Entry.name)[i] = (made.map Entry.name)[j] := by rwa [List.getElem_map, List.getElem_map]
  exact hc.distinct.getElem_inj_iff.mp hsame

theorem found_iff {r : Option (NfsCatalogStruct × Lba)} (h : FoundFrom d made name 0 r) :
    (foundAt r).1.isSome = true ↔ name ∈ made.map Entry.name := by
  rcases r with _ | ⟨c, lba⟩
  · apply iff_of_false (by simp [foundAt])
    intro hmem
    obtain ⟨m, hm, heq⟩ := List.mem_map.mp hmem
    exact name_new h m hm heq.symm
  · obtain ⟨i, hi, heq, -⟩ := h
    exact iff_of_true rfl (List.mem_map.mpr ⟨made[i], List.getElem_mem hi, heq.symm⟩)

end Chain

end OpenNE

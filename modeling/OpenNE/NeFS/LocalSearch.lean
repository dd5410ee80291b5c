import OpenNE.NeFS.Capacity
import OpenNE.NeFS.RoundTrip
import OpenNE.NeFS.Stored
import OpenNE.NeFS.Untouched

/-!
# The local search of `FindCatalog`

A local search starts behind the record of the parent and falls back to the whole list. It gives up when the
parent is not found, so it misses the catalogs that `CreateCatalog` made without one; otherwise it finds what
the search of the whole list does (`local_search_iff`).
-/

namespace OpenNE

/-- Both forms of `FindCatalog` return, and the same. -/
def SameSearch (d : Drive) (name : CString) (outLba : Lba) (searchHidden : Bool) : Prop :=
  ∃ r enough, ∀ fuel, enough ≤ fuel → findCatalogLocal fuel d (some name) outLba searchHidden = .ok r ∧
    findCatalog fuel d (some name) outLba searchHidden = .ok r

/-- None of the records made is locked. -/
def Unlocked (made : List Entry) (d : Drive) : Prop :=
  ∀ i < made.length, (d.catalogAt (slotLba i)).Status ≠ kNeFSStatusLocked

theorem findRound_unlocked {d : Drive} {lba : Lba} (h : (d.catalogAt lba).Status ≠ kNeFSStatusLocked)
    (name : CString) (hidden : Bool) (part : NfsSuperBlock) :
    findRound d name hidden part lba = findRound d name true part lba := by
  unfold findRound
  simp only [beq_eq_false_iff_ne.mpr h, Bool.false_and]

namespace Chain

variable {fmt : NfsSuperBlock} {made : List Entry} {d : Drive} {name : CString} {hidden : Bool}

theorem unlocked_at (hc : Chain fmt made d) (hu : Unlocked made d) {i : Nat} (hi : i ≤ made.length)
    (hslot : slot i < 2 ^ 64) : (d.catalogAt (slotLba i)).Status ≠ kNeFSStatusLocked := by
  rcases Nat.lt_or_eq_of_le hi with hlt | rfl
  · exact hu i hlt
  · rw [hc.zero_behind hslot]
    decide

theorem search_unlocked (hc : Chain fmt made d) (hu : Unlocked made d) (hname : name.1 ≠ []) (hidden : Bool) {i : Nat}
    (hi : i ≤ made.length) (hslot : slot i < 2 ^ 64) :
    ∃ r, FoundFrom d made name i r ∧
      ∀ fuel, made.length < fuel → searchCatalogList fuel d name hidden (slotLba i) = .ok r := by
  obtain ⟨n, r, hn, hfit, hrounds, hleave, hfound⟩ := hc.search_rounds hname hi hslot
  have hsame : ∀ k ≤ n, findRound d name hidden d.superBlock (slotLba (i + k)) =
      findRound d name true d.superBlock (slotLba (i + k)) := by
    intro k hk
    apply findRound_unlocked
    apply hc.unlocked_at hu (by omega)
    rw [slot_eq] at hfit ⊢
    omega
  refine ⟨r, hfound, ?_⟩
  intro fuel hfuel
  have hnext : ∀ k < n, findRound d name hidden d.superBlock (slotLba (i + k)) = .ok (.inl (slotLba (i + (k + 1)))) :=
    fun k hk => (hsame k hk.le).trans (hrounds k hk)
  have hloop := loop_of_rounds hnext ((hsame n (Nat.le_refl n)).trans hleave)
  exact loop_mono (by omega : n + 1 ≤ fuel) hloop

theorem foundFrom_unique (hc : Chain fmt made d) {i : Nat} {found : NfsCatalogStruct × Lba}
    {r : Option (NfsCatalogStruct × Lba)} (hfrom : FoundFrom d made name i (some found))
    (hfirst : FoundFrom d made name 0 r) : r = some found := by
  obtain ⟨j, hj, hname, hrecord, hlba⟩ := hfrom
  rcases r with _ | ⟨c, lba⟩
  · exact absurd hname (hfirst j hj (Nat.zero_le j))
  · obtain ⟨k, hk, hname', hrecord', hlba'⟩ := hfirst
    obtain rfl : k = j := hc.index_unique hk hj (hname'.symm.trans hname)
    rw [hrecord', hlba', ← hrecord, ← hlba]

theorem sameSearch_iff (hc : Chain fmt made d) (hu : Unlocked made d) (hslot : slot made.length < 2 ^ 64)
    (hname : name.1 ≠ []) (hroot : name ≠ kNeFSRoot) {parent : CString} (hparent : parentName name = .ok parent)
    (outLba : Lba) : SameSearch d name outLba hidden ↔
      parent ∈ made.map Entry.name ∨ name ∉ made.map Entry.name := by
  obtain ⟨r, hr, hret⟩ := hc.search_unlocked hu hname hidden (Nat.zero_le _) (by decide : slot 0 < 2 ^ 64)
  rw [slotLba_zero] at hret
  obtain ⟨p, hp, hpret⟩ := hc.findCatalog_returns (parentName_eq_ok hparent).2
  have hfull : ∀ fuel, made.length < fuel → findCatalog fuel d (some name) outLba hidden = .ok (foundAt r) := by
    intro fuel hfuel
    simp only [findCatalog, hname, if_false]
    rw [hret fuel hfuel]
    rfl
  unfold SameSearch findCatalogLocal
  simp only [hname, hroot, if_false, hparent, Exec.ok_bind, ← found_iff hp, ← found_iff hr]
  rcases p with _ | ⟨c, lba⟩
  · -- the parent is not found, whatever the list holds
    have hlocal : ∀ fuel, made.length < fuel → findCatalog fuel d (some parent) outLba true = .ok (none, 0) :=
      fun fuel => hpret fuel outLba
    constructor
    · rintro ⟨found, enough, hboth⟩
      obtain ⟨hnone, hsome⟩ := hboth (max enough (made.length + 1)) (Nat.le_max_left _ _)
      rw [hlocal _ (Nat.le_max_right enough (made.length + 1))] at hnone
      rw [hfull _ (Nat.le_max_right enough (made.length + 1)), ← Except.ok.inj hnone] at hsome
      rw [Except.ok.inj hsome]
      simp
    · rintro (hknown | hunknown)
      · cases hknown
      · refine ⟨(none, 0), made.length + 1, fun fuel hfuel => ⟨?_, ?_⟩⟩
        · rw [hlocal fuel hfuel]
          rfl
        · rw [hfull fuel hfuel]
          rcases r with _ | found
          · rfl
          · exact absurd rfl hunknown
  · -- it is, and the list behind it is searched first
    obtain ⟨i, hi, -, rfl, rfl⟩ := hp
    have hnext : slot (i + 1) < 2 ^ 64 := by
      rw [slot_eq] at hslot ⊢
      omega
    refine iff_of_true ⟨foundAt r, made.length + 1, fun fuel hfuel => ⟨?_, hfull fuel hfuel⟩⟩ (.inl rfl)
    obtain ⟨q, hq, hqret⟩ := hc.search_unlocked hu hname hidden (Nat.succ_le_of_lt hi) hnext
    rw [hpret fuel outLba hfuel]
    simp only [foundAt, Exec.ok_bind, (hc.record i hi).next, hqret fuel hfuel, hc.start]
    rcases q with _ | found
    · dsimp only
      rw [hret fuel hfuel]
      rfl
    · rw [hc.foundFrom_unique hq hr]

end Chain

/-! ### Runs -/

theorem Unlocked.createStep {fmt : NfsSuperBlock} {s s' : Drive × List Entry} {call : CreateCall}
    (hc : Chain fmt s.2 s.1) (hu : Unlocked s.2 s.1) (h : CreateStep s call s') : Unlocked s'.2 s'.1 := by
  obtain ⟨fuel, r, hcall, hmade⟩ := h
  rcases r with _ | c
  · rw [hmade, createCatalog_none hcall]
    exact hu
  · obtain ⟨hfit, -, start, hdrive⟩ := hc.createCatalog_stores hcall
    intro i hi
    rw [hmade, Option.isSome_some, if_pos rfl, List.length_append, List.length_singleton] at hi
    rw [hdrive]
    rcases Nat.lt_or_eq_of_le (Nat.le_of_lt_succ hi) with hlt | rfl
    · rw [allocate_other hfit (hc.fits i hlt) (Nat.ne_of_gt hlt)]
      exact hu i hlt
    · rw [allocate_same hc.writable hfit]
      show (0 : UInt16) ≠ kNeFSStatusLocked
      decide

theorem Formatted.unlocked_of_creates {d : Drive} (hd : Formatted d) {calls : List CreateCall}
    {s : Drive × List Entry} (h : Run CreateStep (d, []) calls s) :
    Chain d.superBlock s.2 s.1 ∧ Unlocked s.2 s.1 :=
  have hfirst : Unlocked [] d := fun i hi => absurd hi (Nat.not_lt_zero i)
  h.invariant (fun s => Chain d.superBlock s.2 s.1 ∧ Unlocked s.2 s.1)
    (fun _ _ _ hs hstep => ⟨hs.1.createStep hstep, hs.2.createStep hs.1 hstep⟩) ⟨hd.chain, hfirst⟩

theorem Chain.slot_of_formattedBy {sectorCount : Nat} {d₀ d : Drive} (hd : FormattedBy sectorCount d₀)
    {made : List Entry} (hc : Chain d₀.superBlock made d) : slot made.length < 2 ^ 64 := by
  have hbytes := hd.bytes
  have hlen := hc.length_le
  rw [hd.freeCatalog, UInt64.toNat_ofNat', Nat.mod_eq_of_lt (by unfold catalogSize; omega), catalogSize] at hlen
  rw [slot_eq]
  omega

theorem BootFormatted.formattedBy {sectors : Nat} {d : Drive} (h : BootFormatted sectors d) :
    FormattedBy sectors d where
  toFormatted := h.formatted
  bytes := by
    have hlt := d.superBlock.DiskSize.toNat_lt
    rw [h.diskSize] at hlt
    omega
  diskSize := by
    rw [Nat.mul_comm, ← h.diskSize, UInt64.ofNat_toNat]
  freeCatalog := by
    rw [← h.freeCatalog, UInt64.ofNat_toNat]

theorem ValidName.not_root {name : CString} (h : ValidName name) : name ≠ kNeFSRoot := by
  obtain ⟨-, i, hi, -⟩ := h
  rintro rfl
  have hone : kNeFSRoot.length = 1 := rfl
  omega

/-- After any calls of `CreateCatalog` on a formatted disk the two forms of `FindCatalog` agree on a name exactly
when the parent of that name is on the disk or the name is not. -/
theorem local_search_iff (sectorCount : Nat) (d : Drive) (hd : FormattedBy sectorCount d) (calls : List CreateCall)
    (s : Drive × List Entry) (hrun : Run CreateStep (d, []) calls s) (name : CString) (hvalid : ValidName name)
    (outLba : Lba) (searchHidden : Bool) : SameSearch s.1 name outLba searchHidden ↔
      (∃ parent, parentName name = .ok parent ∧ parent ∈ s.2.map Entry.name) ∨ name ∉ s.2.map Entry.name := by
  obtain ⟨hc, hu⟩ := hd.unlocked_of_creates hrun
  obtain ⟨parent, hparent⟩ := hvalid.parentName
  rw [hc.sameSearch_iff hu (hc.slot_of_formattedBy hd) hvalid.nonempty hvalid.not_root hparent outLba]
  refine or_congr_left ⟨fun h => ⟨parent, hparent, h⟩, ?_⟩
  rintro ⟨parent', hparent', hmade⟩
  rwa [Except.ok.inj (hparent.symm.trans hparent')]

theorem fileName_valid : ValidName fileName := ⟨by decide, 0, by decide, rfl⟩

theorem local_search_iff_file : ∃ s, Run CreateStep (smallDrive, []) [fileCall] s ∧
    (SameSearch s.1 fileName 0 true ↔
      (∃ parent, parentName fileName = .ok parent ∧ parent ∈ s.2.map Entry.name) ∨
        fileName ∉ s.2.map Entry.name) := by
  obtain ⟨d, hrun⟩ := createRun_small
  exact ⟨_, hrun,
    local_search_iff 2056 smallDrive smallDrive_formatted [fileCall] _ hrun fileName fileName_valid 0 true⟩

/-- `CreateCatalog("/ab")` on a disk without a root catalog: a local search does not find `/ab`. -/
theorem local_search_misses : ∃ d, Run CreateStep (smallDrive, []) [fileCall]
    (d, [⟨fileName, kNeFSCatalogKindFile⟩]) ∧ ¬SameSearch d fileName 0 true := by
  obtain ⟨d, hrun⟩ := createRun_small
  obtain ⟨hc, hu⟩ := smallDrive_formatted.unlocked_of_creates hrun
  have hparent : parentName fileName = .ok kNeFSRoot := rfl
  refine ⟨d, hrun, ?_⟩
  rw [hc.sameSearch_iff hu (hc.slot_of_formattedBy smallDrive_formatted) fileName_valid.nonempty
    fileName_valid.not_root hparent 0]
  show ¬(kNeFSRoot ∈ [fileName] ∨ fileName ∉ [fileName])
  decide

end OpenNE

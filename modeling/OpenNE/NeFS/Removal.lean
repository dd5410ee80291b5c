import OpenNE.NeFS.CatalogRun

/-!
# Runs of `CreateCatalog` and `RemoveCatalog`

A removed record stays in the chain with `kNeFSFlagDeleted`, which shares bits with `kNeFSFlagCreated`, so
the searches still take it for a catalog; and a path that was never created makes `RemoveCatalog` read the
flags of a null catalog. In no state and for no path but the root does a removal do what it is for
(`removal_never_ok`).
-/

namespace OpenNE

namespace Chain

variable {fmt : NfsSuperBlock} {made : List Entry} {d d' : Drive} {name : CString}

theorem record_removed {diskSize : UInt64} {i : Nat} {m : Entry} {c : NfsCatalogStruct}
    (h : RecordOf diskSize i m c) : RecordOf diskSize i m c.removed where
  nameField := h.nameField
  short := h.short
  created := removed_hasCreated c
  next := h.next
  kind := h.kind
  dataFork := h.dataFork
  resourceFork := h.resourceFork

theorem release (hc : Chain fmt made d) {i : Nat} (h : i < made.length) :
    Chain fmt made (d.releaseCatalog (d.catalogAt (slotLba i)) (slotLba i)) where
  writable := by simpa [Drive.releaseCatalog] using hc.writable
  start := by
    rw [release_superBlock hc.writable (hc.fits i h)]
    exact hc.start
  diskSize := by
    rw [release_superBlock hc.writable (hc.fits i h)]
    exact hc.diskSize
  freeCatalog := by
    rw [release_superBlock hc.writable (hc.fits i h)]
    exact hc.freeCatalog
  fits := hc.fits
  record := by
    intro j hj
    by_cases hij : i = j
    · subst hij
      rw [release_same hc.writable (hc.fits i h)]
      exact record_removed (hc.record i h)
    · rw [release_other (hc.fits i h) (hc.fits j hj) hij]
      exact hc.record j hj
  nonempty := hc.nonempty
  distinct := hc.distinct
  kind := hc.kind
  zeroed := by
    intro x hx
    have hle : slot (i + 1) ≤ x := by
      apply Nat.le_trans _ hx
      rw [slot_eq, slot_eq]
      omega
    rw [release_behind (hc.fits i h) hle]
    exact hc.zeroed x hx

theorem removeCatalog_eq (hc : Chain fmt made d) {fuel : Nat} {b : Bool}
    (h : removeCatalog fuel d (some name) = .ok (d', b)) :
    (name = kNeFSRoot ∧ b = false ∧ d' = d) ∨
      ((∃ m ∈ made, m.name = name) ∧ b = true ∧ Chain fmt made d') := by
  unfold removeCatalog at h
  by_cases hroot : name = kNeFSRoot
  · simp only [hroot, if_true] at h
    cases h
    exact .inl ⟨hroot, rfl, rfl⟩
  simp only [hroot, if_false] at h
  obtain ⟨⟨catalog, outLba⟩, hfind, h⟩ := Exec.bind_eq_ok.mp h
  cases catalog with
  | none => cases h
  | some catalog =>
    obtain ⟨i, hi, hname, rfl, rfl⟩ := hc.findCatalog_some hfind
    simp only [(hc.record i hi).created, or_true, if_true] at h
    cases h
    exact .inr ⟨⟨made[i], List.getElem_mem hi, hname.symm⟩, rfl, hc.release hi⟩

theorem removeCatalog_returns (hc : Chain fmt made d) (hroot : name ≠ kNeFSRoot)
    (hmade : ∃ m ∈ made, m.name = name) :
    ∃ d', Chain fmt made d' ∧
      ∀ fuel, made.length < fuel → removeCatalog fuel d (some name) = .ok (d', true) := by
  obtain ⟨m, hm, rfl⟩ := hmade
  obtain ⟨f, hf, hret⟩ := hc.findCatalog_returns (hc.nonempty m hm)
  rcases f with _ | ⟨c, lba⟩
  · exact absurd rfl (name_new hf m hm)
  · obtain ⟨i, hi, -, rfl, rfl⟩ := hf
    refine ⟨_, hc.release hi, ?_⟩
    intro fuel hfuel
    unfold removeCatalog
    simp only [hroot, if_false]
    rw [hret fuel 0 hfuel]
    simp [foundAt, (hc.record i hi).created]

end Chain

/-! ### Runs -/

inductive CatalogOp where
  | create (name : CString) (flags kind : Int32)
  | remove (name : CString)

/-- A call that returns, on a drive and the catalogs that exist: those created and not removed since. -/
def CatalogStep (s : Drive × List Entry) (op : CatalogOp) (s' : Drive × List Entry) : Prop :=
  match op with
  | .create name flags kind => ∃ fuel r, createCatalog fuel s.1 (some name) flags kind = .ok (s'.1, r) ∧
      s'.2 = if r.isSome then s.2 ++ [⟨name, kind⟩] else s.2
  | .remove name => ∃ fuel b, removeCatalog fuel s.1 (some name) = .ok (s'.1, b) ∧
      s'.2 = if b then s.2.filter fun m => m.name ≠ name else s.2

/-- Every catalog that exists has its record in the chain. -/
def InChain (fmt : NfsSuperBlock) (s : Drive × List Entry) : Prop :=
  ∃ made, Chain fmt made s.1 ∧ ∀ m ∈ s.2, m ∈ made

theorem InChain.step {fmt : NfsSuperBlock} {s s' : Drive × List Entry} {op : CatalogOp}
    (h : InChain fmt s) (hstep : CatalogStep s op s') : InChain fmt s' := by
  obtain ⟨made, hc, hlive⟩ := h
  cases op with
  | create name flags kind =>
    obtain ⟨fuel, r, hcall, hs'⟩ := hstep
    rcases hc.createCatalog_eq hcall with heq | ⟨hsome, hchain⟩
    · obtain ⟨hsame, rfl⟩ := Prod.mk.inj heq
      refine ⟨made, by rwa [hsame], fun m hm => ?_⟩
      rw [hs'] at hm
      exact hlive m hm
    · refine ⟨_, hchain, ?_⟩
      intro m hm
      rw [hs', if_pos hsome] at hm
      rcases List.mem_append.mp hm with hm | hm
      · exact List.mem_append_left _ (hlive m hm)
      · exact List.mem_append_right _ hm
  | remove name =>
    obtain ⟨fuel, b, hcall, hs'⟩ := hstep
    rcases hc.removeCatalog_eq hcall with ⟨-, rfl, hsame⟩ | ⟨-, rfl, hchain⟩
    · refine ⟨made, by rwa [hsame], ?_⟩
      intro m hm
      rw [hs'] at hm
      exact hlive m hm
    · refine ⟨made, hchain, ?_⟩
      intro m hm
      rw [hs'] at hm
      exact hlive m (List.mem_of_mem_filter hm)

theorem Formatted.inChain_of_run {d : Drive} (hd : Formatted d) {ops : List CatalogOp}
    {s : Drive × List Entry} (h : Run CatalogStep (d, []) ops s) : InChain d.superBlock s :=
  h.invariant (InChain d.superBlock) (fun _ _ _ hs => hs.step) ⟨[], hd.chain, by simp⟩

/-- What removing `path` is for, where `live` are the catalogs that exist. -/
structure RemovalOk (d : Drive) (live : List Entry) (path : CString) : Prop where
  present : ∀ m ∈ live, m.name = path → ∃ fuel d', removeCatalog fuel d (some path) = .ok (d', true) ∧
    (∃ fuel lba, findCatalog fuel d' (some path) 0 true = .ok (none, lba)) ∧
    (∀ other, other ≠ path → ∀ fuel c lba, findCatalog fuel d (some other) 0 true = .ok (some c, lba) →
      ∃ fuel lba, findCatalog fuel d' (some other) 0 true = .ok (some c, lba)) ∧
    ∀ flags, ∃ fuel d'' c, createCatalog fuel d' (some path) flags m.kind = .ok (d'', some c)
  absent : (∀ m ∈ live, m.name ≠ path) → ∃ fuel, removeCatalog fuel d (some path) = .ok (d, false)

theorem InChain.not_removalOk {fmt : NfsSuperBlock} {s : Drive × List Entry} (h : InChain fmt s)
    {path : CString} (hpath : path ≠ kNeFSRoot) : ¬RemovalOk s.1 s.2 path := by
  obtain ⟨made, hc, hlive⟩ := h
  intro hok
  by_cases hex : ∃ m ∈ s.2, m.name = path
  · -- a catalog of that path exists: it is found after its removal
    obtain ⟨m, hm, hname⟩ := hex
    obtain ⟨fuel, d', hcall, ⟨fuel', lba, hfind⟩, -⟩ := hok.present m hm hname
    rcases hc.removeCatalog_eq hcall with ⟨hroot, -⟩ | ⟨-, -, hchain⟩
    · exact hpath hroot
    · subst hname
      have hnone := hchain.findCatalog_none (hc.nonempty m (hlive m hm)) hfind
      exact Chain.name_new hnone m (hlive m hm) rfl
  · -- it does not: the call returns true if it did once, and faults if it never did
    obtain ⟨fuel, hcall⟩ := hok.absent fun m hm hname => hex ⟨m, hm, hname⟩
    rcases hc.removeCatalog_eq hcall with ⟨hroot, -⟩ | ⟨-, hfalse, -⟩
    · exact hpath hroot
    · cases hfalse

/-- After no run from a formatted drive, and for no path but the root, does `RemoveCatalog` remove. -/
theorem removal_never_ok (d : Drive) (hd : Formatted d) (ops : List CatalogOp) (s : Drive × List Entry)
    (hrun : Run CatalogStep (d, []) ops s) (path : CString) (hpath : path ≠ kNeFSRoot) :
    ¬RemovalOk s.1 s.2 path :=
  (hd.inChain_of_run hrun).not_removalOk hpath

/-! ### A file that was created -/

theorem catalogRun_small : ∃ d', Run CatalogStep (smallDrive, []) [.create fileName 0 kNeFSCatalogKindFile]
    (d', [⟨fileName, kNeFSCatalogKindFile⟩]) := by
  obtain ⟨⟨d', r⟩, hcall, hsome⟩ := Exec.exists_of_map createCatalog_small
  exact ⟨d', Run.one ⟨1, r, hcall, by rw [if_pos hsome]; rfl⟩⟩

theorem removal_never_ok_file : ∃ s, Run CatalogStep (smallDrive, []) [.create fileName 0 kNeFSCatalogKindFile] s ∧
    ¬RemovalOk s.1 s.2 fileName := by
  obtain ⟨d', hrun⟩ := catalogRun_small
  exact ⟨_, hrun, removal_never_ok smallDrive (Formatted.blank rfl) _ _ hrun fileName (by decide)⟩

/-- `RemoveCatalog("/ab")` returns true and `FindCatalog("/ab")` still finds the record. -/
theorem removed_still_found : ∃ d d' fuel c lba,
    Run CatalogStep (smallDrive, []) [.create fileName 0 kNeFSCatalogKindFile]
      (d, [⟨fileName, kNeFSCatalogKindFile⟩]) ∧
    removeCatalog fuel d (some fileName) = .ok (d', true) ∧
    findCatalog fuel d' (some fileName) 0 true = .ok (some c, lba) ∧
    ¬RemovalOk d [⟨fileName, kNeFSCatalogKindFile⟩] fileName := by
  obtain ⟨d, hrun⟩ := catalogRun_small
  have hroot : fileName ≠ kNeFSRoot := by decide
  have hin := (Formatted.blank rfl : Formatted smallDrive).inChain_of_run hrun
  have hnot := hin.not_removalOk hroot
  obtain ⟨made, hc, hlive⟩ := hin
  have hm : (⟨fileName, kNeFSCatalogKindFile⟩ : Entry) ∈ made := hlive _ (by simp)
  obtain ⟨d', hc', hremove⟩ := hc.removeCatalog_returns hroot ⟨_, hm, rfl⟩
  obtain ⟨f, hf, hfind⟩ := hc'.findCatalog_returns (by decide : fileName.1 ≠ [])
  rcases f with _ | ⟨c, lba⟩
  · exact absurd rfl (Chain.name_new hf _ hm)
  · exact ⟨d, d', made.length + 1, c, lba, hrun, hremove _ (Nat.lt_succ_self _),
      hfind _ 0 (Nat.lt_succ_self _), hnot⟩

end OpenNE

import OpenNE.NeFS.CatalogRun

/-!
# What `CreateCatalog` returns

Of the three records it works on, `CreateCatalog` returns the one it read from the slot before the new record
went there. So what it returns is never what it stored (`returned_not_stored`); in a chain it is a zeroed
record, while the disk holds the right one (`Chain.createCatalog_stores`).
-/

namespace OpenNE

variable {fuel : Nat} {d d' : Drive} {name : CString} {flags kind : Int32} {c : NfsCatalogStruct}

/-- The record `c` is what `CreateCatalog` was asked for, and what the disk holds under that name. -/
structure Stored (d : Drive) (name : CString) (flags kind : Int32) (c : NfsCatalogStruct) : Prop where
  named : c.nameString = .ok name
  ofKind : c.Kind = kind
  catalogFlags : c.CatalogFlags = flags.toUInt32.toUInt16
  created : c.hasCreated = true
  found : ∃ fuel lba, findCatalog fuel d (some name) 0 true = .ok (some c, lba) ∧ d.catalogAt lba = c

/-! ### On any disk -/

theorem createRound_returned {part : NfsSuperBlock} {child : NfsCatalogStruct} {s : Lba × NfsCatalogStruct}
    (h : createRound d name part child s = .ok (.inr (d', some c))) : c.hasCreated = false ∨ d' = d := by
  unfold createRound at h
  split_ifs at h with hlow hfree
  · cases h
  · cases h
    exact .inl hfree
  · obtain ⟨temporaryName, -, h⟩ := Exec.bind_eq_ok.mp h
    split_ifs at h with hname
    · cases h
      exact .inr rfl
    · cases h

theorem createCatalogFrom_returned {outLba : Lba}
    (h : createCatalogFrom fuel d name flags kind outLba = .ok (d', some c)) : c.hasCreated = false ∨ d' = d := by
  unfold createCatalogFrom at h
  split_ifs at h with hfree
  · cases h
  · refine loop_invariant (fun _ => True) (fun r => ∀ c, r.2 = some c → c.hasCreated = false ∨ r.1 = d)
      (fun _ _ _ _ => trivial) ?_ trivial h c rfl
    rintro s ⟨d₁, c₁⟩ - hround c hc
    obtain rfl : c₁ = some c := hc
    exact createRound_returned hround

theorem findCatalog_unique {fuel' : Nat} {out : Lba} {r r' : Option NfsCatalogStruct × Lba}
    (h : findCatalog fuel d (some name) out true = .ok r) (h' : findCatalog fuel' d (some name) out true = .ok r') :
    r = r' := by
  unfold findCatalog at h h'
  simp only at h h'
  split_ifs at h h' with hname
  · exact Except.ok.inj (h.symm.trans h')
  · obtain ⟨f, hf, rfl⟩ := Exec.exists_of_map h
    obtain ⟨f', hf', rfl⟩ := Exec.exists_of_map h'
    unfold searchCatalogList at hf hf'
    rw [loop_unique hf hf']

/-- On whatever disk, what `CreateCatalog` returns is not the record it was asked for and has stored. -/
theorem returned_not_stored (fuel : Nat) (d d' : Drive) (name : CString) (flags kind : Int32)
    (c : NfsCatalogStruct) (h : createCatalog fuel d (some name) flags kind = .ok (d', some c)) :
    ¬Stored d' name flags kind c := by
  intro hstored
  obtain ⟨start, hsearched⟩ := createCatalog_searched h
  obtain ⟨lba, hnone⟩ := hsearched.absent
  rcases createCatalogFrom_returned hsearched.search with hfree | hsame
  · exact absurd hstored.created (by simp [hfree])
  · obtain ⟨fuel', lba', hfound, -⟩ := hstored.found
    rw [hsame] at hfound
    cases findCatalog_unique hnone hfound

set_option maxRecDepth 4000 in
theorem createCatalog_small_free :
    (createCatalog 1 smallDrive (some fileName) 0 kNeFSCatalogKindFile).map
      (fun r => r.2.map NfsCatalogStruct.hasCreated) = .ok (some false) := rfl

/-- `CreateCatalog("/ab")` on a formatted drive: what it returns does not even count as created. -/
theorem returned_free_small : Formatted smallDrive ∧ ∃ d' c,
    createCatalog 1 smallDrive (some fileName) 0 kNeFSCatalogKindFile = .ok (d', some c) ∧
      ¬Stored d' fileName 0 kNeFSCatalogKindFile c := by
  obtain ⟨⟨d', r⟩, hcall, hfree⟩ := Exec.exists_of_map createCatalog_small_free
  obtain ⟨c, rfl, hnot⟩ := Option.map_eq_some_iff.mp hfree
  refine ⟨Formatted.blank rfl, d', c, hcall, ?_⟩
  intro hstored
  exact absurd hstored.created (by simp [hnot])

theorem returned_not_stored_small : ∃ d' c,
    createCatalog 1 smallDrive (some fileName) 0 kNeFSCatalogKindFile = .ok (d', some c) ∧
      ¬Stored d' fileName 0 kNeFSCatalogKindFile c := by
  obtain ⟨⟨d', r⟩, hcall, hsome⟩ := Exec.exists_of_map createCatalog_small
  obtain ⟨c, rfl⟩ := Option.isSome_iff_exists.mp hsome
  exact ⟨d', c, hcall, returned_not_stored 1 smallDrive d' fileName 0 kNeFSCatalogKindFile c hcall⟩

/-! ### In a chain -/

namespace Chain

variable {fmt : NfsSuperBlock} {made : List Entry}

theorem createRound_behind (hc : Chain fmt made d) (child : NfsCatalogStruct) :
    createRound d name d.superBlock child (slotLba made.length, d.catalogAt (slotLba made.length)) =
        .ok (.inr (d, none)) ∨
      slot made.length < 2 ^ 64 ∧
      createRound d name d.superBlock child (slotLba made.length, d.catalogAt (slotLba made.length)) =
        .ok (.inr (d.allocateCatalog d.superBlock .zero child (slotLba made.length), some .zero)) := by
  unfold createRound
  simp only [hc.start]
  by_cases hlow : slotLba made.length < kNeFSCatalogStartAddress
  · exact .inl (if_pos hlow)
  · have hslot : slot made.length < 2 ^ 64 := by
      by_contra hslot
      obtain ⟨n, hn⟩ : ∃ n, made.length = n + 1 := by
        refine ⟨made.length - 1, ?_⟩
        rw [slot_eq] at hslot
        omega
      rw [hn] at hslot hlow
      exact hlow (slotLba_wrap (hc.fits n (by omega)) hslot)
    rw [if_neg hlow, hc.zero_behind hslot, if_pos NfsCatalogStruct.hasCreated_zero]
    exact .inr ⟨hslot, rfl⟩

theorem createCatalogFrom_stores (hc : Chain fmt made d) (hnew : ∀ m ∈ made, name ≠ m.name) {i : Nat}
    (hi : i ≤ made.length) (h : createCatalogFrom fuel d name flags kind (slotLba i) = .ok (d', some c)) :
    slot made.length < 2 ^ 64 ∧ c = .zero ∧ d' = d.allocateCatalog d.superBlock .zero
      (childCatalog name flags kind (slotLba i)) (slotLba made.length) := by
  unfold createCatalogFrom at h
  split_ifs at h with hfree
  · cases h
  refine loop_invariant (fun s => ∃ k ≤ made.length, s = (slotLba k, d.catalogAt (slotLba k)))
    (fun r => ∀ c, r.2 = some c → slot made.length < 2 ^ 64 ∧ c = .zero ∧ r.1 = d.allocateCatalog d.superBlock .zero
      (childCatalog name flags kind (slotLba i)) (slotLba made.length))
    ?_ ?_ ⟨i, hi, rfl⟩ h c rfl
  · rintro s s' ⟨k, hk, rfl⟩ hround
    rcases Nat.lt_or_eq_of_le hk with hlt | rfl
    · rw [hc.createRound_next hnew hlt] at hround
      exact ⟨k + 1, hlt, (Sum.inl.inj (Except.ok.inj hround)).symm⟩
    · rcases hc.createRound_behind _ with hleave | ⟨-, hleave⟩ <;> cases hleave.symm.trans hround
  · rintro s r ⟨k, hk, rfl⟩ hround c hr
    rcases Nat.lt_or_eq_of_le hk with hlt | rfl
    · rw [hc.createRound_next hnew hlt] at hround
      cases hround
    · rcases hc.createRound_behind _ with hleave | ⟨hslot, hleave⟩
      · cases hleave.symm.trans hround
        cases hr
      · cases hleave.symm.trans hround
        cases hr
        exact ⟨hslot, rfl, rfl⟩

theorem createCatalog_stores (hc : Chain fmt made d)
    (h : createCatalog fuel d (some name) flags kind = .ok (d', some c)) :
    slot made.length < 2 ^ 64 ∧ c = .zero ∧ ∃ start, d' = d.allocateCatalog d.superBlock .zero
      (childCatalog name flags kind start) (slotLba made.length) := by
  obtain ⟨start, hsearched⟩ := createCatalog_searched h
  obtain ⟨outLba, hnone⟩ := hsearched.absent
  have hf := hc.findCatalog_none hsearched.nonempty hnone
  obtain ⟨out, parent, g, hparent, hfind, hstart⟩ := hsearched.parent
  obtain ⟨f', hf', rfl⟩ := hc.findCatalog_eq (parentName_eq_ok hparent).2 hfind
  have hsearch := hsearched.search
  obtain ⟨i, hi, hslot⟩ := hc.start_slot hf'
  have hlba : start = slotLba i := by
    rcases f' with _ | ⟨p, lba⟩
    · rcases hstart with ⟨hsome, -⟩ | ⟨-, rfl⟩
      · cases hsome
      · exact hslot
    · rcases hstart with ⟨-, rfl⟩ | ⟨hnone, -⟩
      · exact hslot
      · cases hnone
  rw [hlba] at hsearch
  obtain ⟨hfit, hzero, hdrive⟩ := hc.createCatalogFrom_stores (name_new hf) hi hsearch
  exact ⟨hfit, hzero, slotLba i, hdrive⟩

end Chain

end OpenNE

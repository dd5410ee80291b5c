import OpenNE.NeFS.Fork

/-!
# A failed call leaves the disk as it was

Whatever the disk holds, a call of `CreateCatalog`, `CreateFork`, `WriteCatalog` or `RemoveCatalog` that
reports failure has written nothing (`failure_untouched`).
-/

namespace OpenNE

section Catalogs

variable {fuel : Nat} {d d' : Drive} {name : CString} {flags kind : Int32}

theorem createRound_none {part : NfsSuperBlock} {child : NfsCatalogStruct} {s : Lba × NfsCatalogStruct}
    {r : Drive × Option NfsCatalogStruct} (h : createRound d name part child s = .ok (.inr r))
    (hnone : r.2 = none) : r.1 = d := by
  unfold createRound at h
  split at h
  · cases h
    rfl
  · split at h
    · cases h
      cases hnone
    · obtain ⟨temporaryName, _, h⟩ := Exec.bind_eq_ok.mp h
      split at h
      · cases h
        rfl
      · cases h

theorem createCatalogFrom_none {outLba : Lba}
    (h : createCatalogFrom fuel d name flags kind outLba = .ok (d', none)) : d' = d := by
  unfold createCatalogFrom at h
  split at h
  · cases h
    rfl
  · exact loop_invariant (fun _ => True) (fun r => r.2 = none → r.1 = d) (fun _ _ _ _ => trivial)
      (fun _ _ _ hround => createRound_none hround) trivial h rfl

theorem createCatalog_none {catalogName : Option CString}
    (h : createCatalog fuel d catalogName flags kind = .ok (d', none)) : d' = d := by
  unfold createCatalog at h
  cases catalogName with
  | none => cases h
  | some name =>
    simp only at h
    split at h
    · cases h
    · split_ifs at h
      · cases h
        rfl
      · cases h
        rfl
      · obtain ⟨⟨existing, outLba⟩, _, h⟩ := Exec.bind_eq_ok.mp h
        simp only at h
        split at h
        · cases h
          rfl
        · obtain ⟨parent, _, h⟩ := Exec.bind_eq_ok.mp h
          obtain ⟨⟨catalog, outLba⟩, _, h⟩ := Exec.bind_eq_ok.mp h
          cases catalog with
          | none => exact createCatalogFrom_none h
          | some catalog =>
            simp only at h
            split at h
            · cases h
              rfl
            · exact createCatalogFrom_none h

theorem removeCatalog_false {catalogName : Option CString}
    (h : removeCatalog fuel d catalogName = .ok (d', false)) : d' = d := by
  unfold removeCatalog at h
  cases catalogName with
  | none =>
    cases h
    rfl
  | some name =>
    simp only at h
    split at h
    · cases h
      rfl
    · obtain ⟨⟨catalog, outLba⟩, _, h⟩ := Exec.bind_eq_ok.mp h
      cases catalog with
      | none => cases h
      | some catalog =>
        simp only at h
        split at h
        · cases h
        · cases h
          rfl

end Catalogs

section Forks

variable {fuel : Nat} {d d' : Drive}

theorem mustTryFailed_false {debug : Bool} {fork fork' : NfsForkStruct} {ok : Bool}
    (h : mustTryFailed debug d fork = .ok (d', fork', ok)) : d' = d := by
  unfold mustTryFailed at h
  split at h
  · cases h
  · cases h
    rfl

theorem createFork_false {debug : Bool} {stale fork fork' : NfsForkStruct}
    (h : createFork debug fuel stale d fork = .ok (d', fork', false)) : d' = d := by
  unfold createFork at h
  split at h
  · obtain ⟨catalogName, _, h⟩ := Exec.bind_eq_ok.mp h
    obtain ⟨catalog, _, h⟩ := Exec.bind_eq_ok.mp h
    cases catalog with
    | none => exact mustTryFailed_false h
    | some catalog =>
      simp only at h
      split at h
      · obtain ⟨r, _, h⟩ := Exec.bind_eq_ok.mp h
        cases h
      · exact mustTryFailed_false h
  · cases h
    rfl

theorem writeRound_false {catalogName : CString} {data : List UInt8} {forkName : Option CString}
    {startFork : Lba} {r : Drive × Bool} (h : writeRound d catalogName data forkName startFork = .ok (.inr r))
    (hfalse : r.2 = false) : r.1 = d := by
  unfold writeRound at h
  split at h
  · cases h
    rfl
  · obtain ⟨named, _, h⟩ := Exec.bind_eq_ok.mp h
    split at h
    · cases h
      cases hfalse
    · cases h

theorem writeCatalog_false {catalogName : Option CString} {isRsrcFork : Bool} {data : List UInt8}
    {forkName : Option CString} (h : writeCatalog fuel d catalogName isRsrcFork data forkName = .ok (d', false)) :
    d' = d := by
  unfold writeCatalog at h
  split at h
  · cases h
    rfl
  · obtain ⟨catalog, _, h⟩ := Exec.bind_eq_ok.mp h
    cases catalog with
    | none =>
      cases h
      rfl
    | some catalog =>
      obtain ⟨name, _, h⟩ := Exec.bind_eq_ok.mp h
      exact loop_invariant (fun _ => True) (fun r => r.2 = false → r.1 = d) (fun _ _ _ _ => trivial)
        (fun _ _ _ hround => writeRound_false hround) trivial h rfl

end Forks

/-- No byte of the disk changes in a call that reports failure. -/
theorem failure_untouched (fuel : Nat) (d d' : Drive) (catalogName forkName : Option CString)
    (flags kind : Int32) (debug isRsrcFork : Bool) (stale fork fork' : NfsForkStruct) (data : List UInt8)
    (hfail : createCatalog fuel d catalogName flags kind = .ok (d', none) ∨
      createFork debug fuel stale d fork = .ok (d', fork', false) ∨
      writeCatalog fuel d catalogName isRsrcFork data forkName = .ok (d', false) ∨
      removeCatalog fuel d catalogName = .ok (d', false)) :
    ∀ x, d'.disk x = d.disk x := by
  have hsame : d' = d := by
    rcases hfail with h | h | h | h
    · exact createCatalog_none h
    · exact createFork_false h
    · exact writeCatalog_false h
    · exact removeCatalog_false h
  intro x
  rw [hsame]

/-- A drive whose superblock has no free catalogs. -/
def fullDrive : Drive := Drive.blank { NfsSuperBlock.zero with StartCatalog := kNeFSCatalogStartAddress }

/-- The name `/cd`. -/
def nameCd : CString := ⟨[47, 99, 100], by decide⟩

set_option maxRecDepth 4000 in
theorem createCatalog_full :
    (createCatalog 3 fullDrive (some nameCd) 0 kNeFSCatalogKindFile).map (fun r => r.2.isNone) = .ok true := rfl

theorem failure_untouched_full :
    ∃ d', createCatalog 3 fullDrive (some nameCd) 0 kNeFSCatalogKindFile = .ok (d', none) ∧
      ∀ x, d'.disk x = fullDrive.disk x := by
  obtain ⟨⟨d', r⟩, hret, hnone⟩ := Exec.exists_of_map createCatalog_full
  obtain rfl : r = none := Option.isNone_iff_eq_none.mp hnone
  exact ⟨d', hret, failure_untouched 3 fullDrive d' (some nameCd) none 0 kNeFSCatalogKindFile false false
    .zero .zero .zero [] (.inl hret)⟩

end OpenNE

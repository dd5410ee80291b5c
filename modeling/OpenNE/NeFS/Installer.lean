import OpenNE.NeFS.Directory
import OpenNE.NeFS.RoundTrip

/-!
# The journal and the installer (`FSKit/OpenNeFS.h`, `src/KernelMain.cc`)

`NeFilesystemInstaller` creates the folders that are missing and commits to a journal. On a disk that was formatted it
cannot: the root is never there, and its name has no parent to be cut out. Where the root is on the disk it creates
each folder once and finds it from then on. `CommitJournal` commits nothing: `CreateFork` refuses the fork.
-/

namespace OpenNE

/-- `NeFileSystemJournal`. -/
structure NeFileSystemJournal where
  mNode : Option NfsCatalogStruct
  mStamp : CString

namespace NeFileSystemJournal

/-- `"/etc/xml/journal" kNeFSJournalExt`. -/
def kStamp : CString := ⟨[47, 101, 116, 99, 47, 120, 109, 108, 47, 106, 111, 117, 114, 110, 97, 108, 46, 106, 114,
    110, 108], by decide⟩

/-- `"/etc/xml/"`. -/
def kFolder : CString := ⟨[47, 101, 116, 99, 47, 120, 109, 108, 47], by decide⟩

/-- The constructor. A stamp that does not fit is copied past the end of `mStamp`. -/
def new (stamp : Option CString) : Exec NeFileSystemJournal :=
  match stamp with
  | none => .ok ⟨none, kStamp⟩
  | some stamp => if stamp.length < kNeFSNodeNameLen then .ok ⟨none, stamp⟩ else .error .fault

/-- `CreateJournal`. -/
def createJournal (fuel : Nat) (d : Drive) (j : NeFileSystemJournal) : Exec (Drive × NeFileSystemJournal × Bool) := do
  let (d, _) ← createCatalog fuel d (some kFolder) 0 kNeFSCatalogKindDir
  let (d, node) ← createCatalog fuel d (some j.mStamp) 0 kNeFSCatalogKindFile
  return (d, { j with mNode := node }, node.isSome)

/-- `GetJournal`. -/
def getJournal (fuel : Nat) (d : Drive) (j : NeFileSystemJournal) : Exec (NeFileSystemJournal × Bool) := do
  match ← getCatalog fuel d (some j.mStamp) with
  | some node => return ({ j with mNode := some node }, true)
  | none => return (j, false)

/-- `ReleaseJournal`. -/
def releaseJournal (j : NeFileSystemJournal) : NeFileSystemJournal × Bool :=
  if j.mNode.isSome then ({ j with mNode := none }, true) else (j, false)

/-- The fork of `CommitJournal`. -/
def newFork (j : NeFileSystemJournal) (xmlData journalName : CString) : NfsForkStruct :=
  { NfsForkStruct.zero with
    CatalogName := j.mStamp.field kNeFSNodeNameLen
    ForkName := journalName.field kNeFSForkNameLen
    DataSize := UInt64.ofNat xmlData.length
    Kind := 0 }

/-- `CommitJournal`. A name that does not fit is copied past the end of `ForkName`. -/
def commitJournal (debug : Bool) (fuel : Nat) (stale : NfsForkStruct) (d : Drive) (xmlData journalName : CString)
    (j : NeFileSystemJournal) : Exec (Drive × Bool) :=
  if j.mNode.isNone then .ok (d, false)
  else if kNeFSForkNameLen ≤ journalName.length then .error .fault
  else do
    let (d, fork, created) ← createFork debug fuel stale d (j.newFork xmlData journalName)
    if created = false then return (d, false)
    writeCatalog fuel d (some (← fork.catalogString)) true xmlData.1 (some (← fork.nameString))

end NeFileSystemJournal

namespace NeFilesystemInstaller

/-- `kFolderStr`. -/
def kFolderStr : List CString :=
  [kNeFSRoot,
    ⟨[47, 98, 111, 111, 116, 47], by decide⟩,
    ⟨[47, 115, 121, 115, 47], by decide⟩,
    ⟨[47, 109, 101, 100, 105, 97, 47], by decide⟩,
    ⟨[47, 101, 116, 99, 47], by decide⟩,
    ⟨[47, 117, 115, 114, 47], by decide⟩,
    ⟨[47, 108, 105, 98, 47], by decide⟩,
    ⟨[47, 109, 110, 116, 47], by decide⟩,
    ⟨[47, 115, 98, 105, 110, 47], by decide⟩,
    ⟨[47, 110, 47], by decide⟩,
    ⟨[47, 100, 101, 118, 47], by decide⟩,
    ⟨[47, 114, 117, 110, 47], by decide⟩,
    ⟨[47, 114, 111, 111, 116, 47], by decide⟩]

/-- `"<LOG_XML><FS>NeFS</FS></LOG_XML>"`. -/
def kLogXml : CString :=
  ⟨[60, 76, 79, 71, 95, 88, 77, 76, 62, 60, 70, 83, 62, 78, 101, 70, 83, 60, 47, 70, 83, 62, 60, 47, 76, 79, 71, 95,
      88, 77, 76, 62], by decide⟩

/-- `"NeFS Format System"`. -/
def kJournalName : CString := ⟨[78, 101, 70, 83, 32, 70, 111, 114, 109, 97, 116, 32, 83, 121, 115, 116, 101, 109], by
    decide⟩

/-- One folder. -/
def installFolder (fuel : Nat) (d : Drive) (name : CString) : Exec Drive := do
  match ← getCatalog fuel d (some name) with
  | some _ => return d
  | none =>
    let (d, _) ← createCatalog fuel d (some name) 0 kNeFSCatalogKindDir
    return d

/-- The journal is created where it is missing. -/
def getOrCreate (fuel : Nat) (d : Drive) (journal : NeFileSystemJournal) : Exec (Drive × NeFileSystemJournal) := do
  let (journal, found) ← journal.getJournal fuel d
  if found = true then return (d, journal)
  else
    let (d, journal, _) ← journal.createJournal fuel d
    return (d, journal)

/-- The journal of the constructor. -/
def installJournal (debug : Bool) (fuel : Nat) (stale : NfsForkStruct) (d : Drive) : Exec Drive := do
  let journal ← NeFileSystemJournal.new none
  let (d, journal) ← getOrCreate fuel d journal
  let (d, _) ← journal.commitJournal debug fuel stale d kLogXml kJournalName
  return d

/-- The constructor, once the parser is there. The journal is released at its end. -/
def install (debug : Bool) (fuel : Nat) (stale : NfsForkStruct) (d : Drive) : Exec Drive := do
  let d ← kFolderStr.foldlM (installFolder fuel) d
  installJournal debug fuel stale d

end NeFilesystemInstaller

/-! ### Budgets -/

section Fuel

variable {fuel fuel' : Nat} {d : Drive} {name : CString}

theorem findCatalog_mono (hle : fuel ≤ fuel') {outLba : Lba} {hidden : Bool} {r : Option NfsCatalogStruct × Lba}
    (h : findCatalog fuel d (some name) outLba hidden = .ok r) :
    findCatalog fuel' d (some name) outLba hidden = .ok r := by
  unfold findCatalog at h ⊢
  dsimp only at h ⊢
  by_cases hempty : name.1 = []
  · rwa [if_pos hempty] at h ⊢
  · rw [if_neg hempty] at h ⊢
    obtain ⟨found, hfound, hr⟩ := Exec.exists_of_map h
    rw [searchCatalogList, loop_mono hle hfound, ← hr]
    rfl

theorem createCatalogFrom_mono (hle : fuel ≤ fuel') {flags kind : Int32} {outLba : Lba}
    {r : Drive × Option NfsCatalogStruct} (h : createCatalogFrom fuel d name flags kind outLba = .ok r) :
    createCatalogFrom fuel' d name flags kind outLba = .ok r := by
  unfold createCatalogFrom at h ⊢
  by_cases hfree : d.superBlock.FreeCatalog < 1
  · rwa [if_pos hfree] at h ⊢
  · rw [if_neg hfree] at h ⊢
    exact loop_mono hle h

theorem createCatalog_mono (hle : fuel ≤ fuel') {flags kind : Int32} {r : Drive × Option NfsCatalogStruct}
    (h : createCatalog fuel d (some name) flags kind = .ok r) :
    createCatalog fuel' d (some name) flags kind = .ok r := by
  unfold createCatalog at h ⊢
  dsimp only at h ⊢
  cases hlast : name.1.getLast? with
  | none =>
    rw [hlast] at h
    cases h
  | some last =>
    rw [hlast] at h
    dsimp only at h ⊢
    split_ifs at h ⊢ with hdir hfile
    · exact h
    · exact h
    obtain ⟨⟨existing, outLba⟩, hfind, h⟩ := Exec.bind_eq_ok.mp h
    rw [findCatalog_mono hle hfind, Exec.ok_bind]
    dsimp only at h ⊢
    split_ifs at h ⊢ with hexisting
    · exact h
    obtain ⟨parent, hparent, h⟩ := Exec.bind_eq_ok.mp h
    obtain ⟨⟨catalog, outLba'⟩, hfind', h⟩ := Exec.bind_eq_ok.mp h
    rw [hparent, Exec.ok_bind, findCatalog_mono hle hfind', Exec.ok_bind]
    cases catalog with
    | none => exact createCatalogFrom_mono hle h
    | some catalog =>
      dsimp only at h ⊢
      split_ifs at h ⊢ with hkind
      · exact h
      · exact createCatalogFrom_mono hle h

end Fuel

/-! ### The list -/

section List

variable {fmt : NfsSuperBlock} {made made' : List Entry} {e : Entry} {name : CString} {kind : Int32}

open Classical in
/-- The list behind a call of `CreateCatalog`. -/
noncomputable def added (fmt : NfsSuperBlock) (made : List Entry) (e : Entry) : List Entry :=
  if Accepts fmt made e.name e.kind then made ++ [e] else made

theorem Accepts.of_longer (hextends : made <+: made') (h : Accepts fmt made' name kind) :
    Accepts fmt made name kind := by
  obtain ⟨rest, rfl⟩ := hextends
  have hlen : (made ++ rest).length = made.length + rest.length := List.length_append
  have hfree := h.free
  have hfits := h.fits
  rw [slot_eq, hlen] at hfits
  refine ⟨h.slash, fun m hm => h.new m (List.mem_append_left rest hm),
    fun parent hparent m hm => h.parent parent hparent m (List.mem_append_left rest hm), by omega, ?_⟩
  rw [slot_eq]
  omega

theorem prefix_added : made <+: added fmt made e := by
  unfold added
  split_ifs
  · exact List.prefix_append ..
  · exact List.prefix_refl _

theorem refused_added : ¬Accepts fmt (added fmt made e) e.name e.kind := by
  unfold added
  split_ifs with h
  · intro hagain
    exact hagain.new e (List.mem_append_right made (List.mem_singleton_self e)) rfl
  · exact h

theorem added_refused (h : ¬Accepts fmt made e.name e.kind) : added fmt made e = made := if_neg h

theorem mem_names_added : name ∈ (added fmt made e).map Entry.name ↔
    name ∈ made.map Entry.name ∨ Accepts fmt made e.name e.kind ∧ name = e.name := by
  unfold added
  split_ifs with h
  · simp [h]
  · simp [h]

theorem mem_names_mono (hextends : made <+: made') (h : name ∈ made.map Entry.name) :
    name ∈ made'.map Entry.name := by
  obtain ⟨rest, rfl⟩ := hextends
  rw [List.map_append]
  exact List.mem_append_left _ h

/-- The list behind a run of such calls. -/
noncomputable def addedAll (fmt : NfsSuperBlock) (made : List Entry) (entries : List Entry) : List Entry :=
  entries.foldl (added fmt) made

theorem prefix_addedAll {entries : List Entry} : made <+: addedAll fmt made entries := by
  induction entries generalizing made with
  | nil => exact List.prefix_refl _
  | cons e entries ih => exact prefix_added.trans ih

theorem refused_addedAll {entries : List Entry} (he : e ∈ entries) :
    ¬Accepts fmt (addedAll fmt made entries) e.name e.kind := by
  induction entries generalizing made with
  | nil => cases he
  | cons first entries ih =>
    rcases List.mem_cons.mp he with rfl | he
    · intro hagain
      exact refused_added (hagain.of_longer prefix_addedAll)
    · exact ih he

theorem addedAll_refused {entries : List Entry} (h : ∀ e ∈ entries, ¬Accepts fmt made e.name e.kind) :
    addedAll fmt made entries = made := by
  induction entries with
  | nil => rfl
  | cons first entries ih =>
    rw [addedAll, List.foldl_cons, added_refused (h first List.mem_cons_self)]
    exact ih fun e he => h e (List.mem_cons_of_mem first he)

end List

/-! ### Single calls -/

namespace Chain

variable {fmt : NfsSuperBlock} {made : List Entry} {d d' : Drive} {name : CString} {flags kind : Int32} {fuel : Nat}

theorem createCatalog_added (hc : Chain fmt made d) {r : Drive × Option NfsCatalogStruct}
    (h : createCatalog fuel d (some name) flags kind = .ok r) :
    (r.2.isSome = true ↔ Accepts fmt made name kind) ∧ Chain fmt (added fmt made ⟨name, kind⟩) r.1 ∧
      (¬Accepts fmt made name kind → r.1 = d) := by
  have hiff := hc.createCatalog_isSome h
  refine ⟨hiff, ?_⟩
  rcases hc.createCatalog_eq h with rfl | ⟨hsome, hchain⟩
  · have hrefused : ¬Accepts fmt made name kind := fun haccepts => by cases hiff.mpr haccepts
    rw [added_refused hrefused]
    exact ⟨hc, fun _ => rfl⟩
  · have haccepts : Accepts fmt made name kind := hiff.mp hsome
    have hadded : added fmt made ⟨name, kind⟩ = made ++ [⟨name, kind⟩] := if_pos haccepts
    rw [hadded]
    exact ⟨hchain, fun h => absurd haccepts h⟩

theorem getCatalog_isSome (hc : Chain fmt made d) (hname : name.1 ≠ []) {r : Option NfsCatalogStruct}
    (h : getCatalog fuel d (some name) = .ok r) : r.isSome = true ↔ name ∈ made.map Entry.name := by
  obtain ⟨found, hfind, rfl⟩ := Exec.exists_of_map h
  obtain ⟨f, hf, rfl⟩ := hc.findCatalog_eq hname hfind
  exact found_iff hf

theorem getCatalog_returns (hc : Chain fmt made d) (hname : name.1 ≠ []) :
    ∃ r : Option NfsCatalogStruct, ∀ fuel, made.length < fuel → getCatalog fuel d (some name) = .ok r := by
  obtain ⟨f, -, hret⟩ := hc.findCatalog_returns hname
  refine ⟨(foundAt f).1, fun fuel hfuel => ?_⟩
  rw [getCatalog, hret fuel 0 hfuel]
  rfl

theorem createCatalog_returns_from (flags kind : Int32) (hc : Chain fmt made d) (hvalid : ValidName name) :
    ∃ n r, ∀ fuel, n ≤ fuel → createCatalog fuel d (some name) flags kind = .ok r := by
  obtain ⟨n, r, hret⟩ := hc.createCatalog_returns flags kind hvalid
  exact ⟨n, r, fun fuel hfuel => createCatalog_mono hfuel hret⟩

theorem createCatalog_root (hc : Chain fmt made d) (hroot : kNeFSRoot ∉ made.map Entry.name)
    {r : Drive × Option NfsCatalogStruct} (h : createCatalog fuel d (some kNeFSRoot) flags kind = .ok r) :
    kind ≠ kNeFSCatalogKindDir ∧ r = (d, none) := by
  unfold createCatalog at h
  have hlast : kNeFSRoot.1.getLast? = some kNeFSSeparator := rfl
  simp only [hlast] at h
  rw [if_neg (fun h => h.2 rfl)] at h
  by_cases hkind : kind = kNeFSCatalogKindDir
  · rw [if_neg (fun h => h.1 hkind)] at h
    obtain ⟨⟨existing, outLba⟩, hfind, h⟩ := Exec.bind_eq_ok.mp h
    obtain ⟨f, hf, heq⟩ := hc.findCatalog_eq (by decide) hfind
    have hnone : existing.isSome = false := by
      rw [Bool.eq_false_iff]
      intro hsome
      have hfound : (foundAt f).1.isSome = true := by rw [← heq]; exact hsome
      exact hroot ((found_iff hf).mp hfound)
    have hparent : parentName kNeFSRoot = .error .fault := by decide
    dsimp only at h
    rw [if_neg (by rw [hnone]; decide), hparent] at h
    cases h
  · rw [if_pos ⟨hkind, trivial⟩] at h
    exact ⟨hkind, (Except.ok.inj h).symm⟩

end Chain

/-! ### The journal -/

/-- A directory called `name`. -/
def directory (name : CString) : Entry := ⟨name, kNeFSCatalogKindDir⟩

namespace NeFileSystemJournal

/-- What `CreateJournal` asks for. -/
def entries (stamp : CString) : List Entry := [directory kFolder, ⟨stamp, kNeFSCatalogKindFile⟩]

open Classical in
/-- The list behind a journal that is created where it is missing. -/
noncomputable def journaled (fmt : NfsSuperBlock) (made : List Entry) : List Entry :=
  if kStamp ∈ made.map Entry.name then made else addedAll fmt made (entries kStamp)

variable {d₀ d d' : Drive} {made : List Entry} {j j' : NeFileSystemJournal} {fuel sectorCount : Nat} {ret : Bool}

theorem createJournal_eq {fmt : NfsSuperBlock} (hc : Chain fmt made d)
    (h : j.createJournal fuel d = .ok (d', j', ret)) :
    j'.mStamp = j.mStamp ∧ j'.mNode.isSome = ret ∧
      (ret = true ↔ Accepts fmt (added fmt made (directory kFolder)) j.mStamp kNeFSCatalogKindFile) ∧
      Chain fmt (addedAll fmt made (entries j.mStamp)) d' ∧
      ((∀ e ∈ entries j.mStamp, ¬Accepts fmt made e.name e.kind) → d' = d) := by
  obtain ⟨⟨d₁, r₁⟩, hfolder, h⟩ := Exec.bind_eq_ok.mp h
  obtain ⟨⟨d₂, r₂⟩, hstamp, h⟩ := Exec.bind_eq_ok.mp h
  obtain ⟨-, hc₁, hsame₁⟩ := hc.createCatalog_added hfolder
  obtain ⟨hmade, hc₂, hsame₂⟩ := hc₁.createCatalog_added hstamp
  cases h
  refine ⟨rfl, rfl, hmade, hc₂, fun hrefused => ?_⟩
  have hfolder : ¬Accepts fmt made kFolder kNeFSCatalogKindDir := hrefused (directory kFolder) List.mem_cons_self
  have hstamp : ¬Accepts fmt made j.mStamp kNeFSCatalogKindFile :=
    hrefused _ (List.mem_cons_of_mem _ (List.mem_singleton_self _))
  exact (hsame₂ fun hagain => hstamp (hagain.of_longer prefix_added)).trans (hsame₁ hfolder)

theorem getJournal_eq {fmt : NfsSuperBlock} (hc : Chain fmt made d) (hstamp : j.mStamp.1 ≠ [])
    (h : j.getJournal fuel d = .ok (j', ret)) :
    j'.mStamp = j.mStamp ∧ (ret = true ↔ j.mStamp ∈ made.map Entry.name) ∧
      j'.mNode.isSome = (ret || j.mNode.isSome) := by
  obtain ⟨r, hget, h⟩ := Exec.bind_eq_ok.mp h
  have hfound := hc.getCatalog_isSome hstamp hget
  cases r with
  | none =>
    cases h
    exact ⟨rfl, hfound, rfl⟩
  | some node =>
    cases h
    exact ⟨rfl, hfound, rfl⟩

theorem createFork_false {debug : Bool} {stale fork fork' : NfsForkStruct}
    (h : createFork debug fuel stale d fork = .ok (d', fork', false)) : d' = d := by
  have hfailed : ∀ {r}, mustTryFailed debug d fork = .ok r → r.1 = d := by
    intro r h
    unfold mustTryFailed at h
    split_ifs at h
    cases h
    rfl
  unfold createFork at h
  split_ifs at h
  · obtain ⟨name, -, h⟩ := Exec.bind_eq_ok.mp h
    obtain ⟨r, -, h⟩ := Exec.bind_eq_ok.mp h
    cases r with
    | none => exact hfailed h
    | some catalog =>
      dsimp only at h
      split_ifs at h
      · obtain ⟨⟨d₁, s⟩, -, h⟩ := Exec.bind_eq_ok.mp h
        cases h
      · exact hfailed h
  · exact congrArg Prod.fst (Except.ok.inj h).symm

theorem commitJournal_eq (hd : FormattedBy sectorCount d₀) (hc : Chain d₀.superBlock made d)
    (hnode : j.mNode.isSome = true → j.mStamp ∈ made.map Entry.name) {debug : Bool} {stale : NfsForkStruct}
    {xmlData journalName : CString}
    (h : j.commitJournal debug fuel stale d xmlData journalName = .ok (d', ret)) : d' = d ∧ ret = false := by
  unfold commitJournal at h
  split_ifs at h with hnone hlong
  · cases h
    exact ⟨rfl, rfl⟩
  · obtain ⟨m, hm, hname⟩ := List.mem_map.mp (hnode (by simpa [Option.isSome_iff_ne_none] using hnone))
    obtain ⟨⟨d₁, fork, created⟩, hfork, h⟩ := Exec.bind_eq_ok.mp h
    cases created with
    | true => exact absurd hfork (Chain.createFork_refused hd hc hm (by rw [hname]; rfl))
    | false =>
      have hsame : d₁ = d := createFork_false hfork
      obtain ⟨rfl, rfl⟩ := Prod.mk.inj (Except.ok.inj h)
      exact ⟨hsame, rfl⟩

theorem field_head {s : CString} {n : Nat} (hs : s.1 ≠ []) (hn : 0 < n) : (s.field n).1.head? ≠ some 0 := by
  obtain ⟨m, rfl⟩ : ∃ m, n = m + 1 := ⟨n - 1, by omega⟩
  obtain ⟨c, rest, hcons⟩ := List.exists_cons_of_ne_nil hs
  have hhead : (s.field (m + 1)).1.head? = some c := by
    show ((s.1 ++ List.replicate (m + 1) 0).take (m + 1)).head? = some c
    rw [hcons]
    rfl
  rw [hhead]
  intro hzero
  have hmem : c ∈ s.1 := by rw [hcons]; exact List.mem_cons_self
  rw [Option.some.inj hzero] at hmem
  exact s.2 hmem

theorem createFork_listed (hd : FormattedBy sectorCount d₀) (hc : Chain d₀.superBlock made d)
    (hstamp : j.mStamp ∈ made.map Entry.name) {xmlData journalName : CString}
    (hdata : 0 < UInt64.ofNat xmlData.length) (hname : journalName.1 ≠ []) (debug : Bool) (stale : NfsForkStruct)
    (fuel : Nat) : createFork debug fuel stale d (j.newFork xmlData journalName) =
      (getCatalog fuel d (some j.mStamp)).bind fun _ => mustTryFailed debug d (j.newFork xmlData journalName) := by
  obtain ⟨m, hm, hmname⟩ := List.mem_map.mp hstamp
  obtain ⟨i, hi, rfl⟩ := List.mem_iff_getElem.mp hm
  have hshort := (hc.record i hi).short
  have hfield : (j.newFork xmlData journalName).CatalogName = made[i].name.field kNeFSNodeNameLen := by
    rw [hmname]
    rfl
  have hcatalog : (j.newFork xmlData journalName).CatalogName.1.head? ≠ some 0 := by
    rw [hfield]
    exact field_head (hc.nonempty _ hm) (by decide)
  unfold createFork
  rw [if_pos ⟨field_head hname (by decide), hcatalog, hdata⟩, NfsForkStruct.catalogString_field hshort hfield,
    Exec.ok_bind, hmname]
  cases hget : getCatalog fuel d (some j.mStamp) with
  | error e => rfl
  | ok r =>
    obtain ⟨k, hk, rfl⟩ := hc.getCatalog_eq hm (hmname ▸ hget)
    rw [Exec.ok_bind]
    dsimp only
    rw [if_neg (UInt64.not_lt.mpr (Chain.dataFork_high hd hc hk))]
    rfl

theorem commitJournal_listed (hd : FormattedBy sectorCount d₀) (hc : Chain d₀.superBlock made d)
    (hnode : j.mNode.isSome = true) (hstamp : j.mStamp ∈ made.map Entry.name) {xmlData journalName : CString}
    (hdata : 0 < UInt64.ofNat xmlData.length) (hname : journalName.1 ≠ [])
    (hlen : journalName.length < kNeFSForkNameLen) (debug : Bool) (stale : NfsForkStruct) (fuel : Nat) :
    j.commitJournal debug fuel stale d xmlData journalName = (getCatalog fuel d (some j.mStamp)).bind fun _ =>
      if debug = true then .error .panic else .ok (d, false) := by
  have hfork := createFork_listed hd hc hstamp hdata hname debug stale fuel
  have hsome : ¬j.mNode.isNone = true := by
    rw [Option.isNone_iff_eq_none]
    intro hnone
    rw [hnone] at hnode
    cases hnode
  unfold commitJournal
  rw [if_neg hsome, if_neg (by omega), hfork]
  cases getCatalog fuel d (some j.mStamp) with
  | error e => rfl
  | ok r => cases debug <;> rfl

theorem commitJournal_none (hnode : j.mNode.isSome = false) (debug : Bool) (stale : NfsForkStruct)
    (xmlData journalName : CString) : j.commitJournal debug fuel stale d xmlData journalName = .ok (d, false) := by
  have hnone : j.mNode.isNone = true := by
    rw [Option.isNone_iff_eq_none]
    exact Option.not_isSome_iff_eq_none.mp (by rw [hnode]; decide)
  rw [commitJournal, if_pos hnone]

end NeFileSystemJournal

/-! ### The installer -/

namespace NeFilesystemInstaller

open NeFileSystemJournal

/-- The list behind the installer. -/
noncomputable def installed (fmt : NfsSuperBlock) (made : List Entry) : List Entry :=
  journaled fmt (addedAll fmt made (kFolderStr.map directory))

section Install

variable {fmt : NfsSuperBlock} {made : List Entry} {d d' : Drive} {name : CString} {fuel : Nat}

theorem installFolder_eq (hc : Chain fmt made d) (hname : name.1 ≠ []) (h : installFolder fuel d name = .ok d') :
    Chain fmt (added fmt made (directory name)) d' ∧ (¬Accepts fmt made name kNeFSCatalogKindDir → d' = d) := by
  obtain ⟨r, hget, h⟩ := Exec.bind_eq_ok.mp h
  have hfound := hc.getCatalog_isSome hname hget
  cases r with
  | some catalog =>
    cases h
    obtain ⟨m, hm, hmname⟩ := List.mem_map.mp (hfound.mp rfl)
    have hrefused : ¬Accepts fmt made (directory name).name (directory name).kind :=
      fun haccepts => haccepts.new m hm hmname
    rw [added_refused hrefused]
    exact ⟨hc, fun _ => rfl⟩
  | none =>
    obtain ⟨⟨d₁, r⟩, hcreate, h⟩ := Exec.bind_eq_ok.mp h
    cases h
    obtain ⟨-, hchain, hsame⟩ := hc.createCatalog_added hcreate
    exact ⟨hchain, hsame⟩

theorem installFolders_eq {names : List CString} (hc : Chain fmt made d) (hnames : ∀ name ∈ names, name.1 ≠ [])
    (h : names.foldlM (installFolder fuel) d = .ok d') :
    Chain fmt (addedAll fmt made (names.map directory)) d' ∧
      ((∀ e ∈ names.map directory, ¬Accepts fmt made e.name e.kind) → d' = d) := by
  induction names generalizing made d with
  | nil =>
    cases h
    exact ⟨hc, fun _ => rfl⟩
  | cons name names ih =>
    rw [List.foldlM_cons] at h
    obtain ⟨d₁, hfirst, hrest⟩ := Exec.bind_eq_ok.mp h
    obtain ⟨hc₁, hsame⟩ := installFolder_eq hc (hnames name List.mem_cons_self) hfirst
    obtain ⟨hc', hsame'⟩ := ih hc₁ (fun name hname => hnames name (List.mem_cons_of_mem _ hname)) hrest
    refine ⟨hc', fun hrefused => ?_⟩
    have hfirst : ¬Accepts fmt made (directory name).name (directory name).kind := hrefused _ List.mem_cons_self
    rw [hsame' ?_, hsame hfirst]
    rw [added_refused hfirst]
    exact fun e he => hrefused e (List.mem_cons_of_mem _ he)

theorem installFolder_returns (hc : Chain fmt made d) (hname : name.1 ≠ [])
    (hthere : name ∈ made.map Entry.name ∨ ValidName name) :
    ∃ n d', ∀ fuel, n ≤ fuel → installFolder fuel d name = .ok d' := by
  obtain ⟨r, hget⟩ := hc.getCatalog_returns hname
  have hfound := hc.getCatalog_isSome hname (hget (made.length + 1) (Nat.lt_succ_self _))
  cases r with
  | some catalog =>
    refine ⟨made.length + 1, d, fun fuel hfuel => ?_⟩
    rw [installFolder, hget fuel hfuel]
    rfl
  | none =>
    have hvalid : ValidName name := hthere.resolve_left fun hmem => by cases hfound.mpr hmem
    obtain ⟨n, r, hcreate⟩ := hc.createCatalog_returns_from 0 kNeFSCatalogKindDir hvalid
    refine ⟨max n (made.length + 1), r.1, fun fuel hfuel => ?_⟩
    rw [installFolder, hget fuel (by omega), Exec.ok_bind]
    dsimp only
    rw [hcreate fuel (by omega)]
    rfl

theorem installFolders_returns {names : List CString} (hc : Chain fmt made d)
    (hnames : ∀ name ∈ names, ValidName name) :
    ∃ n d', ∀ fuel, n ≤ fuel → names.foldlM (installFolder fuel) d = .ok d' := by
  induction names generalizing made d with
  | nil => exact ⟨0, d, fun _ _ => rfl⟩
  | cons name names ih =>
    have hvalid : ValidName name := hnames name List.mem_cons_self
    obtain ⟨n₁, d₁, hfirst⟩ := installFolder_returns hc hvalid.nonempty (Or.inr hvalid)
    obtain ⟨hc₁, -⟩ := installFolder_eq hc hvalid.nonempty (hfirst n₁ (Nat.le_refl _))
    obtain ⟨n₂, d₂, hrest⟩ := ih hc₁ fun name hname => hnames name (List.mem_cons_of_mem _ hname)
    refine ⟨max n₁ n₂, d₂, fun fuel hfuel => ?_⟩
    rw [List.foldlM_cons, hfirst fuel (by omega)]
    exact hrest fuel (by omega)

theorem installFolder_root (hc : Chain fmt made d) (h : installFolder fuel d kNeFSRoot = .ok d') :
    kNeFSRoot ∈ made.map Entry.name := by
  by_contra hroot
  obtain ⟨r, hget, h⟩ := Exec.bind_eq_ok.mp h
  have hfound := hc.getCatalog_isSome (by decide) hget
  cases r with
  | some catalog => exact hroot (hfound.mp rfl)
  | none =>
    obtain ⟨_, hcreate, -⟩ := Exec.bind_eq_ok.mp h
    exact (hc.createCatalog_root hroot hcreate).1 rfl

theorem journaled_cases (fmt : NfsSuperBlock) (made : List Entry) :
    kStamp ∈ made.map Entry.name ∧ journaled fmt made = made ∨
      kStamp ∉ made.map Entry.name ∧ journaled fmt made = addedAll fmt made (entries kStamp) ∧
        (kStamp ∈ (journaled fmt made).map Entry.name ↔
          Accepts fmt (added fmt made (directory kFolder)) kStamp kNeFSCatalogKindFile) := by
  by_cases hstamp : kStamp ∈ made.map Entry.name
  · exact Or.inl ⟨hstamp, if_pos hstamp⟩
  · have hjournaled : journaled fmt made = addedAll fmt made (entries kStamp) := if_neg hstamp
    refine Or.inr ⟨hstamp, hjournaled, ?_⟩
    rw [hjournaled]
    have hfolder : kStamp ≠ kFolder := by decide
    show kStamp ∈ (added fmt (added fmt made (directory kFolder)) ⟨kStamp, kNeFSCatalogKindFile⟩).map Entry.name ↔ _
    rw [mem_names_added, mem_names_added]
    constructor
    · rintro ((hmem | ⟨-, heq⟩) | ⟨haccepts, -⟩)
      · exact absurd hmem hstamp
      · exact absurd heq hfolder
      · exact haccepts
    · exact fun haccepts => Or.inr ⟨haccepts, rfl⟩

variable {d₀ : Drive} {sectorCount : Nat} {debug : Bool} {stale : NfsForkStruct}

theorem logXml_commits :
    0 < UInt64.ofNat kLogXml.length ∧ kJournalName.1 ≠ [] ∧ kJournalName.length < kNeFSForkNameLen := by
  decide

theorem getOrCreate_eq (hc : Chain fmt made d) {journal : NeFileSystemJournal}
    (h : getOrCreate fuel d ⟨none, kStamp⟩ = .ok (d', journal)) :
    Chain fmt (journaled fmt made) d' ∧ journal.mStamp = kStamp ∧
      (journal.mNode.isSome = true ↔ kStamp ∈ (journaled fmt made).map Entry.name) ∧
      ((kStamp ∈ made.map Entry.name ∨ ∀ e ∈ entries kStamp, ¬Accepts fmt made e.name e.kind) → d' = d) := by
  obtain ⟨⟨j, found⟩, hget, h⟩ := Exec.bind_eq_ok.mp h
  obtain ⟨hstamp, hfound, hnode⟩ := getJournal_eq hc (by decide) hget
  cases found with
  | true =>
    cases h
    rcases journaled_cases fmt made with ⟨hmem, hlist⟩ | ⟨hmissing, -⟩
    · rw [hlist]
      exact ⟨hc, hstamp, ⟨fun _ => hmem, fun _ => hnode⟩, fun _ => rfl⟩
    · exact absurd (hfound.mp rfl) hmissing
  | false =>
    obtain ⟨⟨d₁, j₁, ret⟩, hcreate, h⟩ := Exec.bind_eq_ok.mp h
    cases h
    obtain ⟨hstamp₁, hret, hmade, hc₁, hsame⟩ := createJournal_eq hc hcreate
    rw [hstamp] at hmade hc₁ hsame
    rcases journaled_cases fmt made with ⟨hmem, -⟩ | ⟨hmissing, hlist, hlisted⟩
    · cases hfound.mpr hmem
    · rw [hlisted, hret, hmade]
      refine ⟨hlist ▸ hc₁, hstamp₁.trans hstamp, Iff.rfl, fun h => ?_⟩
      exact hsame (h.resolve_left hmissing)

theorem installJournal_eq (hd : FormattedBy sectorCount d₀) (hc : Chain d₀.superBlock made d)
    (h : installJournal debug fuel stale d = .ok d') :
    Chain d₀.superBlock (journaled d₀.superBlock made) d' ∧
      (debug = true → kStamp ∉ (journaled d₀.superBlock made).map Entry.name) ∧
      ((kStamp ∈ made.map Entry.name ∨ ∀ e ∈ entries kStamp, ¬Accepts d₀.superBlock made e.name e.kind) → d' = d) := by
  obtain ⟨journal, hnew, h⟩ := Exec.bind_eq_ok.mp h
  cases hnew
  obtain ⟨⟨d₁, journal⟩, hcreate, h⟩ := Exec.bind_eq_ok.mp h
  obtain ⟨⟨d₂, ret⟩, hcommit, h⟩ := Exec.bind_eq_ok.mp h
  cases h
  obtain ⟨hc₁, hstamp, hnode, hsame⟩ := getOrCreate_eq hc hcreate
  have hlisted : journal.mNode.isSome = true → journal.mStamp ∈ (journaled d₀.superBlock made).map Entry.name := by
    intro h
    rw [hstamp]
    exact hnode.mp h
  obtain ⟨rfl, -⟩ := commitJournal_eq hd hc₁ hlisted hcommit
  refine ⟨hc₁, fun hdebug hmem => ?_, hsame⟩
  obtain ⟨hdata, hname, hlen⟩ := logXml_commits
  rw [commitJournal_listed hd hc₁ (hnode.mpr hmem) (hstamp ▸ hmem) hdata hname hlen, if_pos hdebug] at hcommit
  obtain ⟨_, -, hpanic⟩ := Exec.bind_eq_ok.mp hcommit
  cases hpanic

theorem validName_of_absolute {name : CString} (h : name.length < kNeFSNodeNameLen ∧ 3 ≤ name.length ∧
    name.1[0]? = some kNeFSSeparator) : ValidName name :=
  ⟨h.1, 0, h.2.1, h.2.2⟩

theorem createJournal_returns (hc : Chain fmt made d) {j : NeFileSystemJournal} (hstamp : ValidName j.mStamp) :
    ∃ n r, ∀ fuel, n ≤ fuel → j.createJournal fuel d = .ok r := by
  have hvalid : ValidName kFolder := validName_of_absolute (by decide)
  obtain ⟨n₁, r₁, hfolder⟩ := hc.createCatalog_returns_from 0 kNeFSCatalogKindDir hvalid
  obtain ⟨-, hc₁, -⟩ := hc.createCatalog_added (hfolder n₁ (Nat.le_refl _))
  obtain ⟨n₂, r₂, hcreate⟩ := hc₁.createCatalog_returns_from 0 kNeFSCatalogKindFile hstamp
  refine ⟨max n₁ n₂, (r₂.1, { j with mNode := r₂.2 }, r₂.2.isSome), fun fuel hfuel => ?_⟩
  rw [createJournal, hfolder fuel (by omega), Exec.ok_bind]
  dsimp only
  rw [hcreate fuel (by omega)]
  rfl

theorem getOrCreate_returns (hc : Chain fmt made d) :
    ∃ n r, ∀ fuel, n ≤ fuel → getOrCreate fuel d ⟨none, kStamp⟩ = .ok r := by
  obtain ⟨r, hget⟩ := hc.getCatalog_returns (by decide : kStamp.1 ≠ [])
  cases r with
  | some node =>
    refine ⟨made.length + 1, (d, ⟨some node, kStamp⟩), fun fuel hfuel => ?_⟩
    rw [getOrCreate, getJournal, hget fuel hfuel]
    rfl
  | none =>
    have hvalid : ValidName kStamp := validName_of_absolute (by decide)
    obtain ⟨n, r, hcreate⟩ := createJournal_returns hc (j := ⟨none, kStamp⟩) hvalid
    refine ⟨max n (made.length + 1), (r.1, r.2.1), fun fuel hfuel => ?_⟩
    rw [getOrCreate, getJournal, hget fuel (by omega)]
    show (createJournal fuel d ⟨none, kStamp⟩).bind _ = _
    rw [hcreate fuel (by omega)]
    rfl

theorem installJournal_returns (hd : FormattedBy sectorCount d₀) (hc : Chain d₀.superBlock made d)
    (stale : NfsForkStruct) (hlisted : debug = true → kStamp ∉ (journaled d₀.superBlock made).map Entry.name) :
    ∃ n d', ∀ fuel, n ≤ fuel → installJournal debug fuel stale d = .ok d' := by
  obtain ⟨n₁, ⟨d₁, journal⟩, hcreate⟩ := getOrCreate_returns hc
  obtain ⟨hc₁, hstamp, hnode, -⟩ := getOrCreate_eq hc (hcreate n₁ (Nat.le_refl _))
  obtain ⟨r, hget⟩ := hc₁.getCatalog_returns (by decide : kStamp.1 ≠ [])
  obtain ⟨hdata, hname, hlen⟩ := logXml_commits
  refine ⟨max n₁ ((journaled d₀.superBlock made).length + 1), d₁, fun fuel hfuel => ?_⟩
  have hcommit : journal.commitJournal debug fuel stale d₁ kLogXml kJournalName = .ok (d₁, false) := by
    cases hsome : journal.mNode.isSome with
    | false => exact commitJournal_none hsome debug stale kLogXml kJournalName
    | true =>
      have hmem := hnode.mp hsome
      rw [commitJournal_listed hd hc₁ hsome (hstamp ▸ hmem) hdata hname hlen, hstamp, hget fuel (by omega)]
      show (if debug = true then _ else _) = _
      rw [if_neg fun hdebug => hlisted hdebug hmem]
  have hnew : NeFileSystemJournal.new none = .ok ⟨none, kStamp⟩ := rfl
  rw [installJournal, hnew, Exec.ok_bind, hcreate fuel (by omega), Exec.ok_bind]
  dsimp only
  rw [hcommit]
  rfl

/-! ### The constructor -/

theorem folders_valid : ∀ name ∈ kFolderStr.tail, ValidName name := by
  have habsolute : ∀ name ∈ kFolderStr.tail, name.length < kNeFSNodeNameLen ∧ 3 ≤ name.length ∧
      name.1[0]? = some kNeFSSeparator := by decide
  exact fun name hname => validName_of_absolute (habsolute name hname)

theorem folders_nonempty : ∀ name ∈ kFolderStr, name.1 ≠ [] := by decide

theorem install_eq (hd : FormattedBy sectorCount d₀) (hc : Chain d₀.superBlock made d)
    (h : install debug fuel stale d = .ok d') :
    kNeFSRoot ∈ made.map Entry.name ∧ Chain d₀.superBlock (installed d₀.superBlock made) d' ∧
      (debug = true → kStamp ∉ (installed d₀.superBlock made).map Entry.name) ∧
      ((∀ e ∈ kFolderStr.map directory, ¬Accepts d₀.superBlock made e.name e.kind) →
        (kStamp ∈ made.map Entry.name ∨ ∀ e ∈ entries kStamp, ¬Accepts d₀.superBlock made e.name e.kind) → d' = d) := by
  obtain ⟨d₁, hfolders, hjournal⟩ := Exec.bind_eq_ok.mp h
  obtain ⟨hc₁, hsame⟩ := installFolders_eq hc folders_nonempty hfolders
  obtain ⟨hc', hlisted, hsame'⟩ := installJournal_eq hd hc₁ hjournal
  obtain ⟨d₂, hroot, -⟩ := Exec.bind_eq_ok.mp hfolders
  refine ⟨installFolder_root hc hroot, hc', hlisted, fun hrefused hjournal => ?_⟩
  rw [addedAll_refused hrefused] at hsame'
  exact (hsame' hjournal).trans (hsame hrefused)

theorem install_returns (hd : FormattedBy sectorCount d₀) (hc : Chain d₀.superBlock made d) (stale : NfsForkStruct)
    (hroot : kNeFSRoot ∈ made.map Entry.name)
    (hlisted : debug = true → kStamp ∉ (installed d₀.superBlock made).map Entry.name) :
    ∃ fuel d', install debug fuel stale d = .ok d' := by
  obtain ⟨n₁, d₁, hfirst⟩ := installFolder_returns hc (by decide) (Or.inl hroot)
  obtain ⟨hc₁, -⟩ := installFolder_eq hc (by decide) (hfirst n₁ (Nat.le_refl _))
  obtain ⟨n₂, d₂, hrest⟩ := installFolders_returns hc₁ folders_valid
  have hfolders : ∀ fuel, max n₁ n₂ ≤ fuel → kFolderStr.foldlM (installFolder fuel) d = .ok d₂ := by
    intro fuel hfuel
    have hsplit : kFolderStr = kNeFSRoot :: kFolderStr.tail := rfl
    rw [hsplit, List.foldlM_cons, hfirst fuel (by omega)]
    exact hrest fuel (by omega)
  obtain ⟨hc₂, -⟩ := installFolders_eq hc folders_nonempty (hfolders _ (Nat.le_refl _))
  obtain ⟨n₃, d₃, hjournal⟩ := installJournal_returns hd hc₂ stale hlisted
  refine ⟨max n₃ (max n₁ n₂), d₃, ?_⟩
  rw [install, hfolders _ (by omega)]
  exact hjournal _ (by omega)

theorem installed_refused (fmt : NfsSuperBlock) (made : List Entry) :
    (∀ e ∈ kFolderStr.map directory, ¬Accepts fmt (installed fmt made) e.name e.kind) ∧
      (kStamp ∈ (installed fmt made).map Entry.name ∨
        ∀ e ∈ entries kStamp, ¬Accepts fmt (installed fmt made) e.name e.kind) := by
  rcases journaled_cases fmt (addedAll fmt made (kFolderStr.map directory)) with ⟨hmem, hlist⟩ | ⟨-, hlist, -⟩
  · rw [installed, hlist]
    exact ⟨fun e he => refused_addedAll he, Or.inl hmem⟩
  · rw [installed, hlist]
    refine ⟨fun e he hagain => ?_, Or.inr fun e he => refused_addedAll he⟩
    exact refused_addedAll he (hagain.of_longer prefix_addedAll)

end Install

end NeFilesystemInstaller

end OpenNE

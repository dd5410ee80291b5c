import OpenNE.Base.Walk
import OpenNE.NeFS.Fork

/-!
# The walks along sibling addresses

`FindCatalog`, `CreateFork`, `WriteCatalog` and `ReadCatalog` follow the sibling addresses they find on the
disk. Nothing bounds the steps: a walk ends exactly when it meets no address twice (`walks_end_iff`). On a disk
of zeros the first three bytes are enough for `FindCatalog` to run forever, since an unformatted superblock has
`StartCatalog` zero and no address is below it.
-/

namespace OpenNE

open StateTransition

/-! ### Where a walk goes next -/

/-- The catalog behind the one at `lba` for `FindCatalog`: there is none when the record is the wanted one,
when its sibling lies below the list, or when its name does not end. -/
def Drive.catalogSibling (d : Drive) (catalogName : CString) (searchHidden : Bool) (lba : Lba) : Option Lba :=
  let catalog := d.catalogAt lba
  match catalog.nameString with
  | .error _ => none
  | .ok name =>
    if catalogName = name ∧ (catalog.Status == kNeFSStatusLocked && !searchHidden) = false ∧
        catalog.hasCreated = true then none
    else if catalog.NextSibling < d.superBlock.StartCatalog then none
    else some catalog.NextSibling

/-- The fork behind the one at `lba`, when that one is not the wanted one. -/
def Drive.forkSibling (d : Drive) (isWanted : NfsForkStruct → Exec Bool) (lba : Lba) : Option Lba :=
  match isWanted (d.forkAt lba) with
  | .ok false => some (d.forkAt lba).NextSibling
  | _ => none

/-- `CreateFork` goes on behind a fork that exists and has other names. -/
def Drive.createSibling (d : Drive) (fork : NfsForkStruct) (lba : Lba) : Option Lba :=
  if d.fPacketGood = false ∨ (d.forkAt lba).hasCreated = false then none
  else d.forkSibling (fun cur => cur.isNamed fork.nameString fork.catalogString) lba

/-- `WriteCatalog` goes on behind a fork of other names or another size, as long as it is in the catalog area. -/
def Drive.writeSibling (d : Drive) (catalogName : CString) (size : Nat) (forkName : Option CString) (lba : Lba) :
    Option Lba :=
  if lba < kNeFSCatalogStartAddress then none
  else d.forkSibling (fun fork => do
    let wanted ← fork.isWanted (deref forkName) (.ok catalogName)
    return wanted && fork.DataSize.toNat == size) lba

/-- `ReadCatalog` goes on behind a fork of other names. -/
def Drive.readSibling (d : Drive) (catalog : NfsCatalogStruct) (forkName : Option CString) (lba : Lba) :
    Option Lba :=
  if lba ≤ kNeFSCatalogStartAddress then none
  else d.forkSibling (fun fork => fork.isNamed (deref forkName) catalog.nameString) lba

/-! ### The loops follow the walks -/

section Follows

variable {d : Drive}

theorem cString_stop {bs : List UInt8} {e : Stop} (h : cString bs = .error e) : e = .fault := by
  unfold cString at h
  split_ifs at h
  exact (Except.error.inj h).symm

theorem deref_stop {α : Type} {a : Option α} {e : Stop} (h : deref a = .error e) : e = .fault := by
  rcases a with _ | a
  · exact (Except.error.inj h).symm
  · cases h

/-- A call that does not return faults. -/
def OnlyFaults {α : Type} (x : Exec α) : Prop := ∀ e, x = .error e → e = .fault

theorem OnlyFaults.ok {α : Type} (a : α) : OnlyFaults (.ok a : Exec α) := by
  intro e h
  cases h

theorem OnlyFaults.bind {α β : Type} {x : Exec α} {next : α → Exec β} (hx : OnlyFaults x)
    (hnext : ∀ a, OnlyFaults (next a)) : OnlyFaults (x >>= next) := by
  intro e he
  rcases x with e' | a
  · rw [Exec.error_bind] at he
    exact hx e (congrArg _ (Except.error.inj he))
  · exact hnext a e he

theorem NfsForkStruct.isNamed_onlyFaults {fork : NfsForkStruct} {forkName catalogName : Exec CString}
    (hfork : OnlyFaults forkName) (hcatalog : OnlyFaults catalogName) :
    OnlyFaults (fork.isNamed forkName catalogName) := by
  apply OnlyFaults.bind (fun _ => cString_stop)
  intro name
  apply OnlyFaults.bind hfork
  intro wanted
  split_ifs
  · apply OnlyFaults.bind (fun _ => cString_stop)
    intro owner
    apply OnlyFaults.bind hcatalog
    intro catalog
    exact .ok _
  · exact .ok _

theorem NfsForkStruct.isWanted_onlyFaults {fork : NfsForkStruct} {forkName catalogName : Exec CString}
    (hfork : OnlyFaults forkName) (hcatalog : OnlyFaults catalogName) :
    OnlyFaults (fork.isWanted forkName catalogName) := by
  unfold isWanted
  split_ifs
  · exact isNamed_onlyFaults hfork hcatalog
  · exact .ok _

theorem findRound_follows (catalogName : CString) (searchHidden : Bool) :
    Follows (findRound d catalogName searchHidden d.superBlock) id (d.catalogSibling catalogName searchHidden) := by
  intro lba
  unfold findRound Drive.catalogSibling
  simp only [id_eq]
  rcases hname : (d.catalogAt lba).nameString with e | name
  · refine Or.inr ⟨Or.inr ⟨e, Exec.error_bind .., ?_⟩, rfl⟩
    rw [cString_stop hname]
    exact Stop.noConfusion
  · simp only [Exec.ok_bind]
    split_ifs with hfound hbelow
    · exact Or.inr ⟨Or.inl ⟨_, rfl⟩, rfl⟩
    · exact Or.inr ⟨Or.inl ⟨_, rfl⟩, rfl⟩
    · exact Or.inl ⟨_, rfl, rfl⟩

theorem createForkRound_follows (fork : NfsForkStruct) :
    Follows (createForkRound d fork) ForkScan.lba (d.createSibling fork) := by
  intro s
  unfold createForkRound Drive.createSibling
  by_cases hgood : d.fPacketGood = false
  · rw [if_pos hgood, if_pos (Or.inl hgood)]
    exact Or.inr ⟨Or.inl ⟨_, rfl⟩, rfl⟩
  rw [if_neg hgood]
  dsimp only
  by_cases hcreated : (d.forkAt s.lba).hasCreated = true
  · have hgo : ¬ (d.fPacketGood = false ∨ (d.forkAt s.lba).hasCreated = false) := by
      simp [hgood, hcreated]
    rw [if_neg hgo, if_pos hcreated, Drive.forkSibling]
    rcases hnamed : (d.forkAt s.lba).isNamed fork.nameString fork.catalogString with e | named
    · refine Or.inr ⟨Or.inr ⟨e, Exec.error_bind .., ?_⟩, rfl⟩
      rw [NfsForkStruct.isNamed_onlyFaults (fun _ => cString_stop) (fun _ => cString_stop) e hnamed]
      exact Stop.noConfusion
    · cases named
      · exact Or.inl ⟨_, rfl, rfl⟩
      · exact Or.inr ⟨Or.inl ⟨_, rfl⟩, rfl⟩
  · rw [if_pos (Or.inr (by simpa using hcreated)), if_neg hcreated]
    refine Or.inr ⟨Or.inl ?_, rfl⟩
    split_ifs
    · exact ⟨_, rfl⟩
    · exact ⟨_, rfl⟩

theorem writeRound_follows (catalogName : CString) (data : List UInt8) (forkName : Option CString) :
    Follows (writeRound d catalogName data forkName) id (d.writeSibling catalogName data.length forkName) := by
  intro lba
  unfold writeRound Drive.writeSibling
  by_cases hbelow : lba < kNeFSCatalogStartAddress
  · rw [if_pos hbelow, id_eq, if_pos hbelow]
    exact Or.inr ⟨Or.inl ⟨_, rfl⟩, rfl⟩
  rw [if_neg hbelow, id_eq, if_neg hbelow, Drive.forkSibling]
  dsimp only
  rcases hwanted : (d.forkAt lba).isWanted (deref forkName) (.ok catalogName) with e | wanted
  · refine Or.inr ⟨Or.inr ⟨e, Exec.error_bind .., ?_⟩, rfl⟩
    rw [NfsForkStruct.isWanted_onlyFaults (fun _ => deref_stop) (.ok _) e hwanted]
    exact Stop.noConfusion
  · simp only [Exec.ok_bind, Exec.pure_eq_ok]
    by_cases hmatch : wanted = true ∧ (d.forkAt lba).DataSize.toNat = data.length
    · rw [if_pos hmatch]
      refine Or.inr ⟨Or.inl ⟨_, rfl⟩, ?_⟩
      simp [hmatch.1, hmatch.2]
    · rw [if_neg hmatch]
      have hfalse : (wanted && (d.forkAt lba).DataSize.toNat == data.length) = false := by
        simpa using hmatch
      rw [hfalse]
      exact Or.inl ⟨_, rfl, rfl⟩

theorem readRound_follows (catalog : NfsCatalogStruct) (forkName : Option CString) :
    Follows (readRound d catalog forkName) Prod.fst (d.readSibling catalog forkName) := by
  rintro ⟨lba, last⟩
  unfold readRound Drive.readSibling
  by_cases hbelow : lba ≤ kNeFSCatalogStartAddress
  · rw [if_pos hbelow, if_pos hbelow]
    exact Or.inr ⟨Or.inl ⟨_, rfl⟩, rfl⟩
  rw [if_neg hbelow, if_neg hbelow, Drive.forkSibling]
  dsimp only
  rcases hnamed : (d.forkAt lba).isNamed (deref forkName) catalog.nameString with e | named
  · refine Or.inr ⟨Or.inr ⟨e, Exec.error_bind .., ?_⟩, rfl⟩
    rw [NfsForkStruct.isNamed_onlyFaults (fun _ => deref_stop) (fun _ => cString_stop) e hnamed]
    exact Stop.noConfusion
  · cases named
    · exact Or.inl ⟨_, rfl, rfl⟩
    · exact Or.inr ⟨Or.inl ⟨_, rfl⟩, rfl⟩

end Follows

/-! ### When the walks end -/

/-- The search of `FindCatalog` for `catalogName` meets no address twice. -/
def Drive.SearchEnds (d : Drive) (catalogName : CString) (searchHidden : Bool) (start : Lba) : Prop :=
  ¬ Circular (d.catalogSibling catalogName searchHidden) start

/-- Nor do the two searches of a local `FindCatalog`; the second is made when the first comes to the end of the
list. -/
def Drive.TwiceEnds (d : Drive) (catalogName : CString) (searchHidden : Bool) (start : Lba) : Prop :=
  d.SearchEnds catalogName searchHidden start ∧
    ∀ last ∈ eval (d.catalogSibling catalogName searchHidden) start,
      findRound d catalogName searchHidden d.superBlock last = .ok (.inr none) →
        d.SearchEnds catalogName searchHidden d.superBlock.StartCatalog

/-- The condition under which `FindCatalog` ends. -/
def Drive.FindEnds (d : Drive) (searchHidden : Bool) : Option CString → Prop
  | none => True
  | some name => name.1 ≠ [] → d.SearchEnds name searchHidden kNeFSCatalogStartAddress

/-- The searches from behind the parent of `name`, when the walk along the list gets to that parent. -/
def Drive.BehindParentEnds (d : Drive) (name parent : CString) (searchHidden : Bool) : Prop :=
  ∀ last ∈ eval (d.catalogSibling parent true) kNeFSCatalogStartAddress, ∀ catalog lba,
    findRound d parent true d.superBlock last = .ok (.inr (some (catalog, lba))) →
      d.TwiceEnds name searchHidden catalog.NextSibling

/-- The condition under which a local `FindCatalog` ends. -/
def Drive.FindLocalEnds (d : Drive) (searchHidden : Bool) : Option CString → Prop
  | none => True
  | some name => name.1 ≠ [] →
    (name = kNeFSRoot → d.TwiceEnds name searchHidden kNeFSCatalogStartAddress) ∧
    (name ≠ kNeFSRoot → ∀ parent, parentName name = .ok parent →
      d.FindEnds true (some parent) ∧ (parent.1 ≠ [] → d.BehindParentEnds name parent searchHidden))

section EndsIff

variable {d : Drive} {name : CString} {hidden : Bool} {start : Lba}

theorem search_halts_iff :
    (Halts fun fuel => searchCatalogList fuel d name hidden start) ↔ d.SearchEnds name hidden start :=
  (findRound_follows name hidden).halts_iff

theorem search_eq_ok_iff {r : Option (NfsCatalogStruct × Lba)} :
    (∃ fuel, searchCatalogList fuel d name hidden start = .ok r) ↔
      ∃ last ∈ eval (d.catalogSibling name hidden) start,
        findRound d name hidden d.superBlock last = .ok (.inr r) :=
  (findRound_follows name hidden).eq_ok_iff

theorem search_steady : Steady fun fuel => searchCatalogList fuel d name hidden start := Steady.loop start

theorem parentName_onlyFaults : OnlyFaults (parentName name) := by
  intro e he
  unfold parentName at he
  split at he
  · exact (Except.error.inj he).symm
  · split at he
    · cases he
    · exact (Except.error.inj he).symm

theorem findCatalog_steady {catalogName : Option CString} {outLba : Lba} :
    Steady fun fuel => findCatalog fuel d catalogName outLba hidden := by
  unfold findCatalog
  rcases catalogName with _ | name
  · exact .const _
  · by_cases hempty : name.1 = []
    · simp only [hempty, if_true]
      exact .const _
    · simp only [hempty, if_false]
      exact search_steady.map foundAt

theorem findCatalog_halts_iff {outLba : Lba} (catalogName : Option CString) :
    (Halts fun fuel => findCatalog fuel d catalogName outLba hidden) ↔ d.FindEnds hidden catalogName := by
  unfold findCatalog Drive.FindEnds
  rcases catalogName with _ | name
  · exact iff_of_true (halts_const fun h => by cases h) trivial
  · by_cases hempty : name.1 = []
    · simp only [hempty, if_true]
      exact iff_of_true (halts_const fun h => by cases h) (fun hne => absurd rfl hne)
    · simp only [hempty, if_false]
      rw [halts_map, search_halts_iff]
      exact ⟨fun h _ => h, fun h => h hempty⟩

theorem findCatalog_eq_some_iff {outLba lba : Lba} {catalog : NfsCatalogStruct} :
    (∃ fuel, findCatalog fuel d (some name) outLba hidden = .ok (some catalog, lba)) ↔
      name.1 ≠ [] ∧ ∃ last ∈ eval (d.catalogSibling name hidden) kNeFSCatalogStartAddress,
        findRound d name hidden d.superBlock last = .ok (.inr (some (catalog, lba))) := by
  unfold findCatalog
  by_cases hempty : name.1 = []
  · simp only [hempty, if_true]
    refine iff_of_false ?_ (fun h => h.1 rfl)
    rintro ⟨_, h⟩
    cases h
  · simp only [hempty, if_false]
    rw [← search_eq_ok_iff]
    refine ⟨?_, ?_⟩
    · rintro ⟨fuel, h⟩
      obtain ⟨found, hfound, heq⟩ := Exec.exists_of_map h
      rcases found with _ | found
      · cases heq
      · obtain rfl : found = (catalog, lba) := by
          simpa [foundAt, Prod.ext_iff] using heq
        exact ⟨hempty, fuel, hfound⟩
    · rintro ⟨-, fuel, h⟩
      exact ⟨fuel, by rw [h]; rfl⟩

/-- The two searches, as `findCatalogLocal` makes them. -/
def searchTwice (d : Drive) (name : CString) (hidden : Bool) (start : Lba) (fuel : Nat) :
    Exec (Option NfsCatalogStruct × Lba) := do
  match ← searchCatalogList fuel d name hidden start with
  | some found => .ok (foundAt (some found))
  | none => (searchCatalogList fuel d name hidden d.superBlock.StartCatalog).map foundAt

theorem searchTwice_next_steady (found : Option (NfsCatalogStruct × Lba)) :
    Steady fun fuel => (match found with
      | some found => .ok (foundAt (some found))
      | none => (searchCatalogList fuel d name hidden d.superBlock.StartCatalog).map foundAt) := by
  rcases found with _ | found
  · exact search_steady.map foundAt
  · exact .const _

theorem searchTwice_steady : Steady (searchTwice d name hidden start) :=
  search_steady.bind searchTwice_next_steady

theorem searchTwice_halts_iff : Halts (searchTwice d name hidden start) ↔ d.TwiceEnds name hidden start := by
  refine (halts_bind search_steady searchTwice_next_steady).trans (and_congr search_halts_iff ?_)
  constructor
  · intro h last hlast hround
    obtain ⟨fuel, hret⟩ := search_eq_ok_iff.mpr ⟨last, hlast, hround⟩
    exact search_halts_iff.mp (halts_map.mp (h fuel none hret))
  · rintro h fuel (_ | found) hret
    · obtain ⟨last, hlast, hround⟩ := search_eq_ok_iff.mp ⟨fuel, hret⟩
      exact halts_map.mpr (search_halts_iff.mpr (h last hlast hround))
    · exact halts_const (fun h => by cases h)

theorem findLocal_next_steady (found : Option NfsCatalogStruct × Lba) :
    Steady fun fuel => (match found with
      | (none, outLba) => .ok (none, outLba)
      | (some parentCatalog, _) => searchTwice d name hidden parentCatalog.NextSibling fuel) := by
  obtain ⟨_ | catalog, outLba⟩ := found
  · exact .const _
  · exact searchTwice_steady

theorem findCatalogLocal_halts_iff {outLba : Lba} (catalogName : Option CString) :
    (Halts fun fuel => findCatalogLocal fuel d catalogName outLba hidden) ↔ d.FindLocalEnds hidden catalogName := by
  rcases catalogName with _ | name
  · exact iff_of_true (halts_const fun h => by cases h) trivial
  unfold Drive.FindLocalEnds
  by_cases hempty : name.1 = []
  · have hcall : (fun fuel => findCatalogLocal fuel d (some name) outLba hidden) = fun _ => .ok (none, outLba) := by
      funext fuel
      exact if_pos hempty
    rw [hcall]
    exact iff_of_true (halts_const fun h => by cases h) (fun hne => absurd hempty hne)
  by_cases hroot : name = kNeFSRoot
  · have hcall : (fun fuel => findCatalogLocal fuel d (some name) outLba hidden) =
        searchTwice d name hidden kNeFSCatalogStartAddress := by
      funext fuel
      exact (if_neg hempty).trans (if_pos hroot)
    rw [hcall, searchTwice_halts_iff]
    exact ⟨fun h _ => ⟨fun _ => h, fun hne => absurd hroot hne⟩, fun h => (h hempty).1 hroot⟩
  rcases hparent : parentName name with e | parent
  · have hcall : (fun fuel => findCatalogLocal fuel d (some name) outLba hidden) = fun _ => .error e := by
      funext fuel
      refine (if_neg hempty).trans ((if_neg hroot).trans ?_)
      rw [hparent]
      rfl
    rw [hcall]
    refine iff_of_true (halts_const ?_) (fun _ => ⟨fun h => absurd h hroot, fun _ _ h => ?_⟩)
    · rw [parentName_onlyFaults e hparent]
      exact fun h => by cases h
    · rw [hparent] at h
      cases h
  · have hcall : (fun fuel => findCatalogLocal fuel d (some name) outLba hidden) =
        fun fuel => findCatalog fuel d (some parent) outLba true >>= fun found => (match found with
          | (none, outLba) => .ok (none, outLba)
          | (some parentCatalog, _) => searchTwice d name hidden parentCatalog.NextSibling fuel) := by
      funext fuel
      refine (if_neg hempty).trans ((if_neg hroot).trans ?_)
      rw [hparent]
      rfl
    rw [hcall, halts_bind findCatalog_steady findLocal_next_steady, findCatalog_halts_iff]
    constructor
    · rintro ⟨hfind, hrest⟩ _
      refine ⟨fun h => absurd h hroot, fun _ parent' h => ?_⟩
      obtain rfl : parent = parent' := Except.ok.inj (hparent.symm.trans h)
      refine ⟨hfind, fun hne last hlast catalog lba hround => ?_⟩
      obtain ⟨fuel, hret⟩ := findCatalog_eq_some_iff.mpr ⟨hne, last, hlast, hround⟩
      exact searchTwice_halts_iff.mp (hrest fuel _ hret)
    · intro h
      obtain ⟨hfind, hbehind⟩ := (h hempty).2 hroot parent hparent
      refine ⟨hfind, ?_⟩
      rintro fuel ⟨_ | catalog, lba⟩ hret
      · exact halts_const fun h => by cases h
      · obtain ⟨hne, last, hlast, hround⟩ := findCatalog_eq_some_iff.mp ⟨fuel, hret⟩
        exact searchTwice_halts_iff.mpr (hbehind hne last hlast catalog lba hround)

end EndsIff

/-- On every disk and for all arguments, a walk of the file system ends exactly when the siblings it follows do
not lead back to an address it has been at: `FindCatalog` in both of its forms, and the loops of `CreateFork`,
`WriteCatalog` and `ReadCatalog`. -/
theorem walks_end_iff (d : Drive) :
    (∀ catalogName outLba searchHidden,
      (Halts fun fuel => findCatalog fuel d catalogName outLba searchHidden) ↔
        d.FindEnds searchHidden catalogName) ∧
    (∀ catalogName outLba searchHidden,
      (Halts fun fuel => findCatalogLocal fuel d catalogName outLba searchHidden) ↔
        d.FindLocalEnds searchHidden catalogName) ∧
    (∀ fork s, (Halts fun fuel => loop (createForkRound d fork) fuel s) ↔
      ¬ Circular (d.createSibling fork) s.lba) ∧
    (∀ catalogName data forkName startFork,
      (Halts fun fuel => loop (writeRound d catalogName data forkName) fuel startFork) ↔
        ¬ Circular (d.writeSibling catalogName data.length forkName) startFork) ∧
    ∀ catalog forkName s, (Halts fun fuel => loop (readRound d catalog forkName) fuel s) ↔
      ¬ Circular (d.readSibling catalog forkName) s.1 := by
  refine ⟨?_, ?_, ?_, ?_, ?_⟩
  · exact fun catalogName _ _ => findCatalog_halts_iff catalogName
  · exact fun catalogName _ _ => findCatalogLocal_halts_iff catalogName
  · exact fun fork _ => (createForkRound_follows fork).halts_iff
  · exact fun catalogName data forkName _ => (writeRound_follows catalogName data forkName).halts_iff
  · exact fun catalog forkName _ => (readRound_follows catalog forkName).halts_iff

/-! ### Disks on which they do not -/

/-- A disk of zeros, mounted. -/
def zeroDrive : Drive := ⟨fun _ => 0, true, false⟩

def forkNameA : CString := letterA
def forkNameB : CString := ⟨[98], by decide⟩
def catalogPathA : CString := ⟨[47, 97], by decide⟩

/-- A fork `a` of the catalog `/a` that is its own sibling. -/
def selfFork (lba : Lba) : NfsForkStruct :=
  { NfsForkStruct.zero with
    ForkName := forkNameA.field kNeFSForkNameLen
    CatalogName := catalogPathA.field kNeFSNodeNameLen
    Flags := 71
    NextSibling := lba }

/-- The disk of zeros with that fork at `lba`. -/
def selfForkDrive (lba : Lba) : Drive :=
  { zeroDrive with disk := Store.put NfsForkStruct.codec (fun _ => 0) lba.toNat (selfFork lba) }

/-- A fork `b`. -/
def otherFork : NfsForkStruct := { NfsForkStruct.zero with ForkName := forkNameB.field kNeFSForkNameLen }

theorem zeroDrive_superBlock : zeroDrive.superBlock = .zero := by
  have hread : zeroDrive.superBlock = NfsSuperBlock.codec.dec (List.replicate superBlockSize 0) :=
    Store.get_zeroed fun _ _ _ => rfl
  rw [hread, ← NfsSuperBlock.enc_zero, Codec.dec_enc]

theorem zeroDrive_sibling {catalogName : CString} (hne : catalogName.1 ≠ []) (hidden : Bool) (lba : Lba) :
    zeroDrive.catalogSibling catalogName hidden lba = some 0 := by
  have hcatalog : zeroDrive.catalogAt lba = .zero := Drive.catalogAt_zeroed fun _ _ => rfl
  have hother : catalogName ≠ ⟨[], by simp⟩ := fun h => hne (congrArg Subtype.val h)
  unfold Drive.catalogSibling
  simp only [hcatalog, zeroDrive_superBlock, NfsCatalogStruct.nameString_zero]
  rw [if_neg fun h => hother h.1]
  rfl

theorem NfsForkStruct.nameString_field {fork : NfsForkStruct} {s : CString} (hs : s.length < kNeFSForkNameLen)
    (hfork : fork.ForkName = s.field kNeFSForkNameLen) : fork.nameString = .ok s := by
  obtain ⟨k, hk⟩ := CString.field_eq hs
  show cString (fork.ForkName.1 ++ _) = .ok s
  rw [hfork, hk, List.append_assoc]
  exact cString_terminated

theorem selfFork_not_named {lba : Lba} {catalogName : Exec CString} :
    (selfFork lba).isNamed (.ok forkNameB) catalogName = .ok false := by
  unfold NfsForkStruct.isNamed
  rw [NfsForkStruct.nameString_field (s := forkNameA) (by decide) rfl]
  rfl

theorem selfForkDrive_sibling {lba : Lba} {isWanted : NfsForkStruct → Exec Bool}
    (h : isWanted (selfFork lba) = .ok false) : (selfForkDrive lba).forkSibling isWanted lba = some lba := by
  have hfork : (selfForkDrive lba).forkAt lba = selfFork lba := Store.get_put_same
  unfold Drive.forkSibling
  simp only [hfork, h]
  rfl

theorem unfinished_of_not_halts {α : Type} {call : Nat → Exec α} (h : ¬ Halts call) (fuel : Nat) :
    call fuel = .error .unfinished := by
  by_contra hne
  exact h ⟨fuel, hne⟩

/-- On a disk of zeros `FindCatalog` runs forever, and so do the three loops at a fork that is its own sibling
and not the wanted one. -/
theorem walks_run_forever :
    (∀ fuel, findCatalog fuel zeroDrive (some catalogPathA) 0 true = .error .unfinished) ∧
    (∀ fuel, loop (createForkRound (selfForkDrive 2048) otherFork) fuel ⟨2048, 2048, .zero⟩ =
      .error .unfinished) ∧
    (∀ fuel, loop (writeRound (selfForkDrive 4096) catalogPathA [1] (some forkNameB)) fuel 4096 =
      .error .unfinished) ∧
    ∀ fuel, loop (readRound (selfForkDrive 4096) .zero (some forkNameB)) fuel (4096, none) =
      .error .unfinished := by
  refine ⟨unfinished_of_not_halts ?_, unfinished_of_not_halts ?_, unfinished_of_not_halts ?_,
    unfinished_of_not_halts ?_⟩
  · rw [findCatalog_halts_iff]
    intro hends
    have hne : catalogPathA.1 ≠ [] := by decide
    exact hends hne (.of_step (zeroDrive_sibling hne true _) (.of_self (zeroDrive_sibling hne true 0)))
  · rw [(createForkRound_follows otherFork).halts_iff, not_not]
    apply Circular.of_self
    have hnamed : (selfFork 2048).isNamed otherFork.nameString otherFork.catalogString = .ok false := by
      have hname : otherFork.nameString = .ok forkNameB := NfsForkStruct.nameString_field (by decide) rfl
      rw [hname]
      exact selfFork_not_named
    have hfork : (selfForkDrive 2048).forkAt 2048 = selfFork 2048 := Store.get_put_same
    unfold Drive.createSibling
    rw [hfork, if_neg (by decide)]
    exact selfForkDrive_sibling hnamed
  · rw [(writeRound_follows catalogPathA [1] (some forkNameB)).halts_iff, not_not]
    apply Circular.of_self
    unfold Drive.writeSibling
    rw [id_eq, if_neg (by decide)]
    apply selfForkDrive_sibling
    have hwanted : (selfFork 4096).isWanted (deref (some forkNameB)) (.ok catalogPathA) = .ok false :=
      selfFork_not_named
    rw [hwanted]
    rfl
  · rw [(readRound_follows .zero (some forkNameB)).halts_iff, not_not]
    apply Circular.of_self
    unfold Drive.readSibling
    rw [if_neg (by decide)]
    exact selfForkDrive_sibling selfFork_not_named

end OpenNE

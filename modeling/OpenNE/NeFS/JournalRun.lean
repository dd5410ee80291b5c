import OpenNE.NeFS.Installer

/-!
# Runs of a journal and of the installer

Over any run on a formatted disk a journal is an entry of the list of names and a flag for the record it holds: nothing
is ever committed, and an installation of an installed disk changes no byte of it (`journal_run`).
-/

namespace OpenNE

open NeFileSystemJournal NeFilesystemInstaller

/-- A call on the disk, a call of a journal with what it returns, or an installation. -/
inductive JournalOp where
  | directory (op : DirectoryOp)
  | create (ret : Bool)
  | get (ret : Bool)
  | release (ret : Bool)
  | commit (xmlData journalName : CString) (ret : Bool)
  | install

/-- The calls on the disk and the journal. -/
inductive JournalStep (debug : Bool) (stale : NfsForkStruct) :
    Drive × NeFileSystemJournal → JournalOp → Drive × NeFileSystemJournal → Prop
  | directory {d d' : Drive} {j : NeFileSystemJournal} {op : DirectoryOp} (hstep : DirectoryStep d op d') :
      JournalStep debug stale (d, j) (.directory op) (d', j)
  | create {d d' : Drive} {j j' : NeFileSystemJournal} {ret : Bool} (fuel : Nat)
      (hcall : j.createJournal fuel d = .ok (d', j', ret)) : JournalStep debug stale (d, j) (.create ret) (d', j')
  | get {d : Drive} {j j' : NeFileSystemJournal} {ret : Bool} (fuel : Nat)
      (hcall : j.getJournal fuel d = .ok (j', ret)) : JournalStep debug stale (d, j) (.get ret) (d, j')
  | release {d : Drive} {j : NeFileSystemJournal} :
      JournalStep debug stale (d, j) (.release j.releaseJournal.2) (d, j.releaseJournal.1)
  | commit {d d' : Drive} {j : NeFileSystemJournal} {xmlData journalName : CString} {ret : Bool} (fuel : Nat)
      (hcall : j.commitJournal debug fuel stale d xmlData journalName = .ok (d', ret)) :
      JournalStep debug stale (d, j) (.commit xmlData journalName ret) (d', j)
  | install {d d' : Drive} {j : NeFileSystemJournal} (fuel : Nat) (hcall : install debug fuel stale d = .ok d') :
      JournalStep debug stale (d, j) .install (d', j)

/-- The same on the list of names and a flag. -/
inductive EntryStep (fmt : NfsSuperBlock) (stamp : CString) : List Entry × Bool → JournalOp → List Entry × Bool → Prop
  | directory {made made' : List Entry} {held : Bool} {op : DirectoryOp} (hstep : ListStep fmt made op made') :
      EntryStep fmt stamp (made, held) (.directory op) (made', held)
  | create {made : List Entry} {held ret : Bool}
      (hret : ret = true ↔ Accepts fmt (added fmt made (directory kFolder)) stamp kNeFSCatalogKindFile) :
      EntryStep fmt stamp (made, held) (.create ret) (addedAll fmt made (entries stamp), ret)
  | get {made : List Entry} {held ret : Bool} (hret : ret = true ↔ stamp ∈ made.map Entry.name) :
      EntryStep fmt stamp (made, held) (.get ret) (made, ret || held)
  | release {made : List Entry} {held : Bool} : EntryStep fmt stamp (made, held) (.release held) (made, false)
  | commit {made : List Entry} {held : Bool} {xmlData journalName : CString} :
      EntryStep fmt stamp (made, held) (.commit xmlData journalName false) (made, held)
  | install {made : List Entry} {held : Bool} (hroot : kNeFSRoot ∈ made.map Entry.name) :
      EntryStep fmt stamp (made, held) .install (installed fmt made, held)

/-- The list tells what is on the disk, and the flag whether the journal has its record. The root is there when it was
among `made₀`. -/
structure JournalRel (fmt : NfsSuperBlock) (stamp : CString) (made₀ : List Entry) (s : Drive × NeFileSystemJournal)
    (t : List Entry × Bool) : Prop where
  chain : Chain fmt t.1 s.1
  stamped : s.2.mStamp = stamp
  held : s.2.mNode.isSome = t.2
  listed : t.2 = true → stamp ∈ t.1.map Entry.name
  root : kNeFSRoot ∈ t.1.map Entry.name ↔ kNeFSRoot ∈ made₀.map Entry.name

/-! ### What is listed -/

section List

variable {fmt : NfsSuperBlock} {made made' : List Entry} {d d' : Drive} {name : CString}

theorem mem_names_addedAll {entries : List Entry} (hname : ∀ e ∈ entries, name ≠ e.name) :
    name ∈ (addedAll fmt made entries).map Entry.name ↔ name ∈ made.map Entry.name := by
  induction entries generalizing made with
  | nil => exact Iff.rfl
  | cons e entries ih =>
    rw [addedAll, List.foldl_cons, ← addedAll, ih fun e he => hname e (List.mem_cons_of_mem _ he), mem_names_added]
    exact or_iff_left fun h => hname e List.mem_cons_self h.2

theorem listStep_extends {op : DirectoryOp} (h : ListStep fmt made op made') : made <+: made' := by
  cases h with
  | created => exact List.prefix_append ..
  | _ => exact List.prefix_refl _

theorem prefix_installed (fmt : NfsSuperBlock) (made : List Entry) : made <+: installed fmt made := by
  rcases journaled_cases fmt (addedAll fmt made (kFolderStr.map directory)) with ⟨-, hlist⟩ | ⟨-, hlist, -⟩
  · rw [installed, hlist]
    exact prefix_addedAll
  · rw [installed, hlist]
    exact prefix_addedAll.trans prefix_addedAll

theorem directoryStep_create {flags kind : Int32} {made : Bool}
    (h : DirectoryStep d (.create name flags kind made) d') :
    ∃ fuel r, createCatalog fuel d (some name) flags kind = .ok (d', r) ∧ r.isSome = made := by
  generalize hop : DirectoryOp.create name flags kind made = op at h
  cases h with
  | create fuel hcall =>
    injection hop with hname hflags hkind hmade
    subst hname hflags hkind hmade
    exact ⟨fuel, _, hcall, rfl⟩
  | remove => cases hop
  | find => cases hop

theorem root_listStep (hc : Chain fmt made d) {op : DirectoryOp} (hstep : DirectoryStep d op d')
    (hlist : ListStep fmt made op made') :
    kNeFSRoot ∈ made'.map Entry.name ↔ kNeFSRoot ∈ made.map Entry.name := by
  refine ⟨fun hmem => ?_, mem_names_mono (listStep_extends hlist)⟩
  cases hlist with
  | @created name flags kind haccepts =>
    by_contra hroot
    rw [List.map_append] at hmem
    rcases List.mem_append.mp hmem with hmem | hmem
    · exact hroot hmem
    · have hname : kNeFSRoot = name := List.mem_singleton.mp hmem
      obtain ⟨fuel, r, hcall, hsome⟩ := directoryStep_create hstep
      rw [← hname] at hcall
      obtain ⟨-, heq⟩ := hc.createCatalog_root hroot hcall
      rw [(Prod.mk.inj heq).2] at hsome
      cases hsome
  | _ => exact hmem

theorem root_journal (hvalid : ValidName name) :
    kNeFSRoot ∈ (addedAll fmt made (entries name)).map Entry.name ↔ kNeFSRoot ∈ made.map Entry.name := by
  have hstamp : kNeFSRoot ≠ name := by
    rintro rfl
    obtain ⟨-, i, hi, -⟩ := hvalid
    have hlen : kNeFSRoot.length = 1 := rfl
    omega
  apply mem_names_addedAll
  intro e he
  rcases List.mem_cons.mp he with rfl | he
  · exact by decide
  · rw [List.mem_singleton.mp he]
    exact hstamp

end List

/-! ### Runs -/

section Run

variable {d₀ d : Drive} {sectorCount : Nat} {debug : Bool} {stale : NfsForkStruct} {stamp : CString}
  {made made₀ : List Entry} {s s' : Drive × NeFileSystemJournal} {t : List Entry × Bool} {op : JournalOp}
  {ops : List JournalOp}

theorem releaseJournal_eq (j : NeFileSystemJournal) : j.releaseJournal.2 = j.mNode.isSome ∧
    j.releaseJournal.1.mStamp = j.mStamp ∧ j.releaseJournal.1.mNode.isSome = false := by
  unfold releaseJournal
  cases hnode : j.mNode with
  | none => exact ⟨rfl, rfl, congrArg Option.isSome hnode⟩
  | some node => exact ⟨rfl, rfl, rfl⟩

/-- A call is followed on the list. -/
theorem JournalRel.step (hd : FormattedBy sectorCount d₀) (hvalid : ValidName stamp)
    (hrel : JournalRel d₀.superBlock stamp made₀ s t) (h : JournalStep debug stale s op s') :
    ∃ t', EntryStep d₀.superBlock stamp t op t' ∧ JournalRel d₀.superBlock stamp made₀ s' t' := by
  obtain ⟨made, held⟩ := t
  obtain ⟨hc, hstamped, hheld, hlisted, hroot⟩ := hrel
  cases h with
  | directory hstep =>
    obtain ⟨made', hlist, hc'⟩ := hc.directoryStep hstep
    exact ⟨(made', held), .directory hlist, hc', hstamped, hheld,
      fun h => mem_names_mono (listStep_extends hlist) (hlisted h), (root_listStep hc hstep hlist).trans hroot⟩
  | create fuel hcall =>
    obtain ⟨hsame, hret, hmade, hc', -⟩ := createJournal_eq hc hcall
    rw [hstamped] at hsame hmade hc'
    refine ⟨_, .create hmade, hc', hsame, hret, fun h => ?_, (root_journal hvalid).trans hroot⟩
    exact mem_names_added.mpr (Or.inr ⟨hmade.mp h, rfl⟩)
  | get fuel hcall =>
    obtain ⟨hsame, hfound, hnode⟩ := getJournal_eq hc (hstamped ▸ hvalid.nonempty) hcall
    rw [hstamped] at hsame hfound
    refine ⟨_, .get hfound, hc, hsame, hnode.trans (by rw [hheld]), fun h => ?_, hroot⟩
    rcases Bool.or_eq_true_iff.mp h with hret | hold
    · exact hfound.mp hret
    · exact hlisted hold
  | @release _ j =>
    obtain ⟨hret, hsame, hnone⟩ := releaseJournal_eq j
    rw [hret, hheld]
    exact ⟨_, .release, hc, hsame.trans hstamped, hnone, fun h => (by cases h), hroot⟩
  | commit fuel hcall =>
    obtain ⟨rfl, rfl⟩ := commitJournal_eq hd hc (fun h => by rw [hstamped]; exact hlisted (hheld ▸ h)) hcall
    exact ⟨_, .commit, hc, hstamped, hheld, hlisted, hroot⟩
  | install fuel hcall =>
    obtain ⟨hthere, hc', -⟩ := install_eq hd hc hcall
    have hextends := prefix_installed d₀.superBlock made
    refine ⟨_, .install hthere, hc', hstamped, hheld, fun h => mem_names_mono hextends (hlisted h), ?_⟩
    exact ⟨fun _ => hroot.mp hthere, fun _ => mem_names_mono hextends hthere⟩

/-- Any run of the calls of the disk and of a journal, and of installations, is one on the list of names, where nothing
is committed. An installation returns exactly where the root was on the disk at the start, unless a debug build stops at
the journal that is listed then; the one after it changes nothing. -/
theorem journal_run (debug : Bool) (stale : NfsForkStruct) (hd : FormattedBy sectorCount d₀)
    (hc : Chain d₀.superBlock made d) (hvalid : ValidName stamp)
    (hrun : Run (JournalStep debug stale) (d, ⟨none, stamp⟩) ops s') :
    ∃ made' held, Run (EntryStep d₀.superBlock stamp) (made, false) ops (made', held) ∧
      ((∃ s'', JournalStep debug stale s' .install s'') ↔ kNeFSRoot ∈ made.map Entry.name ∧
        (debug = true → kStamp ∉ (installed d₀.superBlock made').map Entry.name)) ∧
      ∀ s₁ s₂, JournalStep debug stale s' .install s₁ → JournalStep debug stale s₁ .install s₂ → s₂ = s₁ := by
  have hfollows : ∀ s t op s', JournalRel d₀.superBlock stamp made s t → JournalStep debug stale s op s' →
      ∃ t', EntryStep d₀.superBlock stamp t op t' ∧ JournalRel d₀.superBlock stamp made s' t' :=
    fun s t op s' hrel hstep => hrel.step hd hvalid hstep
  have hstart : JournalRel d₀.superBlock stamp made (d, ⟨none, stamp⟩) (made, false) :=
    ⟨hc, rfl, rfl, fun h => (by cases h), Iff.rfl⟩
  obtain ⟨⟨made', held⟩, hlist, hrel⟩ := hrun.simulate (JournalRel d₀.superBlock stamp made) hfollows hstart
  refine ⟨made', held, hlist, ⟨?_, ?_⟩, ?_⟩
  · rintro ⟨s'', hinstall⟩
    cases hinstall with
    | install fuel hcall =>
      obtain ⟨hthere, -, hdebug, -⟩ := install_eq hd hrel.chain hcall
      exact ⟨hrel.root.mp hthere, hdebug⟩
  · rintro ⟨hroot, hdebug⟩
    obtain ⟨fuel, d', hcall⟩ := install_returns hd hrel.chain stale (hrel.root.mpr hroot) hdebug
    exact ⟨(d', s'.2), .install fuel hcall⟩
  · intro s₁ s₂ hfirst hsecond
    cases hfirst with
    | install fuel hcall =>
      cases hsecond with
      | install fuel' hcall' =>
        obtain ⟨-, hc₁, -⟩ := install_eq hd hrel.chain hcall
        obtain ⟨-, -, -, hsame⟩ := install_eq hd hc₁ hcall'
        obtain ⟨hfolders, hjournal⟩ := installed_refused d₀.superBlock made'
        rw [hsame hfolders hjournal]

theorem rooted_small : ∃ d, Chain smallDrive.superBlock [⟨kNeFSRoot, kNeFSCatalogKindDir⟩] d := by
  have hc : Chain smallDrive.superBlock [] smallDrive := smallDrive_formatted.chain
  have hslash : kNeFSCatalogKindDir = kNeFSCatalogKindDir ↔ kNeFSRoot.1.getLast? = some kNeFSSeparator := by decide
  have hnew : ∀ m ∈ ([] : List Entry), kNeFSRoot ≠ m.name := fun m hm => absurd hm List.not_mem_nil
  obtain ⟨r, hr, hret⟩ :=
    hc.createCatalogFrom_returns 0 (by decide : kNeFSRoot.length < kNeFSNodeNameLen) (by decide) hnew hslash
      (Nat.le_refl 0)
  have hsome := (hc.createCatalogFrom_isSome (by decide) (by decide) hnew hslash (Nat.le_refl 0)
    (hret 1 Nat.one_pos)).mpr ⟨by rw [smallDrive_formatted.freeCatalog]; decide, by decide⟩
  rcases hr with rfl | ⟨-, hchain⟩
  · cases hsome
  · exact ⟨r.1, hchain⟩

/-- A formatted disk is not installed; with a root on it, it is. -/
theorem journal_run_rooted : (∀ s, ¬JournalStep false NfsForkStruct.zero (smallDrive, ⟨none, kStamp⟩) .install s) ∧
    ∃ d s, Chain smallDrive.superBlock [⟨kNeFSRoot, kNeFSCatalogKindDir⟩] d ∧
      JournalStep false NfsForkStruct.zero (d, ⟨none, kStamp⟩) .install s := by
  have hvalid : ValidName kStamp := validName_of_absolute (by decide)
  have hidle : ∀ d, Run (JournalStep false NfsForkStruct.zero) (d, ⟨none, kStamp⟩) [] (d, ⟨none, kStamp⟩) :=
    fun d => .nil _
  constructor
  · obtain ⟨_, _, -, hinstall, -⟩ := journal_run false NfsForkStruct.zero smallDrive_formatted
      smallDrive_formatted.chain hvalid (hidle smallDrive)
    intro s hstep
    exact absurd (hinstall.mp ⟨s, hstep⟩).1 List.not_mem_nil
  · obtain ⟨d, hc⟩ := rooted_small
    obtain ⟨_, _, -, hinstall, -⟩ := journal_run false NfsForkStruct.zero smallDrive_formatted hc hvalid (hidle d)
    obtain ⟨s, hstep⟩ := hinstall.mpr ⟨List.mem_cons_self, fun h => by cases h⟩
    exact ⟨d, s, hc, hstep⟩

end Run

end OpenNE

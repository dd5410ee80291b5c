import OpenNE.NeFS.Removal

/-!
# The catalog list as a directory

Seen through the answers of `CreateCatalog`, `RemoveCatalog` and `FindCatalog`, a formatted disk is a list to which
names are added at the end and from which nothing is ever taken: every run of the calls is one of `ListStep`, answer
for answer (`directory_run`).
-/

namespace OpenNE

/-- What `CreateCatalog` asks of a new name: a directory's ends with a separator and no other does, it is new, its
parent is no file, and there is room. -/
structure Accepts (fmt : NfsSuperBlock) (made : List Entry) (name : CString) (kind : Int32) : Prop where
  slash : kind = kNeFSCatalogKindDir ↔ name.1.getLast? = some kNeFSSeparator
  new : ∀ m ∈ made, m.name ≠ name
  parent : ∀ parent, parentName name = .ok parent → ∀ m ∈ made, m.name = parent → m.kind ≠ kNeFSCatalogKindFile
  free : made.length < fmt.FreeCatalog.toNat
  fits : slot made.length < 2 ^ 64

/-- A call with its answer: whether a record was returned, whether the removal succeeded, and where the record found
stands and what kind it has. -/
inductive DirectoryOp where
  | create (name : CString) (flags kind : Int32) (made : Bool)
  | remove (name : CString) (removed : Bool)
  | find (name : CString) (found : Option (Lba × Int32))

/-- The calls on the disk. -/
inductive DirectoryStep : Drive → DirectoryOp → Drive → Prop
  | create {d d' : Drive} {name : CString} {flags kind : Int32} {r : Option NfsCatalogStruct} (fuel : Nat)
      (hcall : createCatalog fuel d (some name) flags kind = .ok (d', r)) :
      DirectoryStep d (.create name flags kind r.isSome) d'
  | remove {d d' : Drive} {name : CString} {b : Bool} (fuel : Nat)
      (hcall : removeCatalog fuel d (some name) = .ok (d', b)) : DirectoryStep d (.remove name b) d'
  | find {d : Drive} {name : CString} {r : Option NfsCatalogStruct} {lba : Lba} (fuel : Nat)
      (hcall : findCatalog fuel d (some name) 0 true = .ok (r, lba)) :
      DirectoryStep d (.find name (r.map fun catalog => (lba, catalog.Kind))) d

/-- The same calls on a list of names and kinds. -/
inductive ListStep (fmt : NfsSuperBlock) : List Entry → DirectoryOp → List Entry → Prop
  | created {made : List Entry} {name : CString} {flags kind : Int32} (haccepts : Accepts fmt made name kind) :
      ListStep fmt made (.create name flags kind true) (made ++ [⟨name, kind⟩])
  | refused {made : List Entry} {name : CString} {flags kind : Int32} (hrefused : ¬Accepts fmt made name kind) :
      ListStep fmt made (.create name flags kind false) made
  | removed {made : List Entry} {name : CString} (hroot : name ≠ kNeFSRoot) (hmade : ∃ m ∈ made, m.name = name) :
      ListStep fmt made (.remove name true) made
  | root {made : List Entry} : ListStep fmt made (.remove kNeFSRoot false) made
  | found {made : List Entry} {i : Nat} (hi : i < made.length) :
      ListStep fmt made (.find made[i].name (some (slotLba i, made[i].kind))) made
  | missing {made : List Entry} {name : CString} (hmissing : ∀ m ∈ made, m.name ≠ name) :
      ListStep fmt made (.find name none) made

namespace Chain

variable {fmt : NfsSuperBlock} {made : List Entry} {d d' : Drive} {name : CString} {flags kind : Int32} {fuel : Nat}

theorem free_iff (hc : Chain fmt made d) : ¬d.superBlock.FreeCatalog < 1 ↔ made.length < fmt.FreeCatalog.toNat := by
  have hall := hc.freeCatalog
  rw [UInt64.not_lt, UInt64.le_iff_toNat_le, show (1 : UInt64).toNat = 1 from rfl]
  omega

theorem createCatalogFrom_isSome (hc : Chain fmt made d) (hlen : name.length < kNeFSNodeNameLen)
    (hname : name.1 ≠ []) (hnew : ∀ m ∈ made, name ≠ m.name)
    (hkind : kind = kNeFSCatalogKindDir ↔ name.1.getLast? = some kNeFSSeparator) {i : Nat} (hi : i ≤ made.length)
    {r : Drive × Option NfsCatalogStruct} (h : createCatalogFrom fuel d name flags kind (slotLba i) = .ok r) :
    r.2.isSome = true ↔ made.length < fmt.FreeCatalog.toNat ∧ slot made.length < 2 ^ 64 := by
  constructor
  · intro hsome
    rcases hc.createCatalogFrom_eq hlen hname hnew hkind hi h with rfl | ⟨-, hchain⟩
    · cases hsome
    · have hlast : made.length < (made ++ [(⟨name, kind⟩ : Entry)]).length := by simp
      refine ⟨?_, hchain.fits made.length hlast⟩
      have hall := hchain.freeCatalog
      omega
  · rintro ⟨hfree, hslot⟩
    unfold createCatalogFrom at h
    rw [if_neg (hc.free_iff.mpr hfree)] at h
    -- the round behind the last record creates
    have hleave : ∃ d' c, createRound d name d.superBlock (childCatalog name flags kind (slotLba i))
        (slotLba made.length, d.catalogAt (slotLba made.length)) = .ok (.inr (d', some c)) := by
      unfold createRound
      simp only [hc.start]
      rw [if_neg (slotLba_not_lt hslot), hc.zero_behind hslot, if_pos NfsCatalogStruct.hasCreated_zero]
      exact ⟨_, _, rfl⟩
    obtain ⟨d', c, hleave⟩ := hleave
    obtain ⟨n, hn⟩ : ∃ n, made.length = i + n := ⟨made.length - i, by omega⟩
    rw [hn] at hleave
    have hnext : ∀ k < n, createRound d name d.superBlock (childCatalog name flags kind (slotLba i))
        (slotLba (i + k), d.catalogAt (slotLba (i + k))) =
        .ok (.inl (slotLba (i + (k + 1)), d.catalogAt (slotLba (i + (k + 1))))) := by
      intro k hk
      exact hc.createRound_next hnew (by omega)
    have hloop := loop_of_rounds (s := fun k => (slotLba (i + k), d.catalogAt (slotLba (i + k)))) hnext hleave
    rw [loop_unique h hloop]
    rfl

theorem createCatalog_isSome (hc : Chain fmt made d) {r : Drive × Option NfsCatalogStruct}
    (h : createCatalog fuel d (some name) flags kind = .ok r) : r.2.isSome = true ↔ Accepts fmt made name kind := by
  rcases hc.createCatalog_cases h with ⟨rfl, hrefused⟩ | ⟨hmay, hlen, hname, i, hi, hfrom⟩
  · exact iff_of_false (by simp) fun haccepts => hrefused ⟨haccepts.slash, haccepts.new, haccepts.parent⟩
  · rw [hc.createCatalogFrom_isSome hlen hname (fun m hm heq => hmay.new m hm heq.symm) hmay.slash hi hfrom]
    constructor
    · rintro ⟨hfree, hfits⟩
      exact ⟨hmay.slash, hmay.new, hmay.parent, hfree, hfits⟩
    · exact fun haccepts => ⟨haccepts.free, haccepts.fits⟩

/-! ### One call -/

theorem findCatalog_answer (hc : Chain fmt made d) {r : Option NfsCatalogStruct} {lba : Lba}
    (h : findCatalog fuel d (some name) 0 true = .ok (r, lba)) :
    ListStep fmt made (.find name (r.map fun catalog => (lba, catalog.Kind))) made := by
  by_cases hname : name.1 = []
  · simp only [findCatalog, hname, if_true] at h
    cases h
    exact .missing fun m hm heq => hc.nonempty m hm (heq ▸ hname)
  obtain ⟨f, hf, heq⟩ := hc.findCatalog_eq hname h
  rcases f with _ | ⟨c, lba'⟩
  · have hnew := name_new hf
    cases heq
    exact .missing fun m hm heq => hnew m hm heq.symm
  · obtain ⟨i, hi, rfl, rfl, rfl⟩ := hf
    cases heq
    rw [Option.map_some, (hc.record i hi).kind]
    exact .found hi

theorem directoryStep (hc : Chain fmt made d) {op : DirectoryOp} (hstep : DirectoryStep d op d') :
    ∃ made', ListStep fmt made op made' ∧ Chain fmt made' d' := by
  cases hstep with
  | @create _ name flags kind r fuel hcall =>
    have hiff := hc.createCatalog_isSome hcall
    rcases hc.createCatalog_eq hcall with heq | ⟨hsome, hchain⟩
    · obtain ⟨rfl, rfl⟩ := Prod.mk.inj heq
      refine ⟨made, .refused fun haccepts => ?_, hc⟩
      cases hiff.mpr haccepts
    · simp only at hsome hchain hiff
      rw [hsome]
      exact ⟨_, .created (hiff.mp hsome), hchain⟩
  | remove fuel hcall =>
    rcases hc.removeCatalog_eq hcall with ⟨rfl, rfl, rfl⟩ | ⟨hmade, rfl, hchain⟩
    · exact ⟨made, .root, hc⟩
    · refine ⟨made, .removed ?_ hmade, hchain⟩
      rintro rfl
      simp only [removeCatalog, if_true] at hcall
      cases hcall
  | find fuel hcall => exact ⟨made, hc.findCatalog_answer hcall, hc⟩

theorem directory_returns (hc : Chain fmt made d) :
    (∀ name flags kind, ValidName name → ∃ b d', DirectoryStep d (.create name flags kind b) d') ∧
      (∀ name : CString, name.1 ≠ [] → ∃ found, DirectoryStep d (.find name found) d) ∧
      ∀ m ∈ made, m.name ≠ kNeFSRoot → ∃ d', DirectoryStep d (.remove m.name true) d' := by
  have hlt : made.length < made.length + 1 := Nat.lt_succ_self _
  refine ⟨?_, ?_, ?_⟩
  · intro name flags kind hvalid
    obtain ⟨fuel, ⟨d', r⟩, hcall⟩ := hc.createCatalog_returns flags kind hvalid
    exact ⟨r.isSome, d', .create fuel hcall⟩
  · intro name hname
    obtain ⟨f, -, hret⟩ := hc.findCatalog_returns hname
    exact ⟨_, .find _ (hret _ 0 hlt)⟩
  · intro m hm hroot
    obtain ⟨d', -, hret⟩ := hc.removeCatalog_returns hroot ⟨m, hm, rfl⟩
    exact ⟨d', .remove _ (hret _ hlt)⟩

end Chain

/-- Every run of the three calls from a formatted disk is a run on a list of names, with the same answers, and each of
them returns again after it. -/
theorem directory_run {d d' : Drive} {ops : List DirectoryOp} (hd : Formatted d) (hrun : Run DirectoryStep d ops d') :
    ∃ made, Run (ListStep d.superBlock) [] ops made ∧
      (∀ name flags kind, ValidName name → ∃ b d'', DirectoryStep d' (.create name flags kind b) d'') ∧
      (∀ name : CString, name.1 ≠ [] → ∃ found, DirectoryStep d' (.find name found) d') ∧
      ∀ m ∈ made, m.name ≠ kNeFSRoot → ∃ d'', DirectoryStep d' (.remove m.name true) d'' := by
  obtain ⟨made, hlist, hc⟩ := hrun.simulate (fun d' made => Chain d.superBlock made d')
    (fun d made op d' hc (hstep : DirectoryStep d op d') => hc.directoryStep hstep) hd.chain
  exact ⟨made, hlist, hc.directory_returns⟩

/-- A file created, removed and still found. -/
theorem directory_run_removed : ∃ d' made, Run DirectoryStep smallDrive
      [.create fileName 0 kNeFSCatalogKindFile true, .remove fileName true,
        .find fileName (some (slotLba 0, kNeFSCatalogKindFile))] d' ∧
    Run (ListStep smallDrive.superBlock) []
      [.create fileName 0 kNeFSCatalogKindFile true, .remove fileName true,
        .find fileName (some (slotLba 0, kNeFSCatalogKindFile))] made := by
  obtain ⟨⟨d₁, r⟩, hcall, hsome⟩ := Exec.exists_of_map createCatalog_small
  have hd : Formatted smallDrive := Formatted.blank rfl
  have hcreate : DirectoryStep smallDrive (.create fileName 0 kNeFSCatalogKindFile r.isSome) d₁ := .create 1 hcall
  rw [hsome] at hcreate
  rcases hd.chain.createCatalog_eq hcall with heq | ⟨-, hc⟩
  · obtain ⟨-, rfl⟩ := Prod.mk.inj heq
    cases hsome
  obtain ⟨d₂, hc', hremove⟩ :=
    hc.removeCatalog_returns (by decide : fileName ≠ kNeFSRoot) ⟨_, List.mem_singleton_self _, rfl⟩
  obtain ⟨f, hf, hfind⟩ := hc'.findCatalog_returns (by decide : fileName.1 ≠ [])
  rcases f with _ | ⟨c, lba⟩
  · exact absurd rfl (Chain.name_new hf _ (List.mem_singleton_self _))
  obtain ⟨i, hi, -, rfl, rfl⟩ := hf
  obtain rfl : i = 0 := Nat.lt_one_iff.mp hi
  have hlookup : DirectoryStep d₂ (.find fileName (some (slotLba 0, (d₂.catalogAt (slotLba 0)).Kind))) d₂ :=
    .find 2 (hfind 2 0 (by decide))
  rw [(hc'.record 0 hi).kind] at hlookup
  have hrun := ((Run.one hcreate).snoc (DirectoryStep.remove 2 (hremove 2 (by decide)))).snoc hlookup
  obtain ⟨made, hlist, -⟩ := directory_run hd hrun
  exact ⟨d₂, made, hrun, hlist⟩

end OpenNE

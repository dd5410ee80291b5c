import OpenNE.Base.Run
import OpenNE.NeFS.Chain

/-!
# Runs of `CreateCatalog`

A call of `CreateCatalog` on a chain either changes nothing or puts one record at the slot behind the last
(`Chain.createCatalog_eq`), and with a name whose parent can be cut out it returns
(`Chain.createCatalog_returns`). So the chain holds after any calls on a formatted drive
(`catalogs_of_creates`).
-/

namespace OpenNE

/-! ### Names -/

/-- The name fits `parent_name` and has a separator where the scan looks for one. -/
def ValidName (name : CString) : Prop :=
  name.length < kNeFSNodeNameLen ∧ ∃ i, i + 3 ≤ name.length ∧ name.1[i]? = some kNeFSSeparator

theorem lastSeparator_some {l : List UInt8} {n i : Nat} (h : lastSeparator l n = some i) :
    i < n ∧ l[i]? = some kNeFSSeparator := by
  induction n with
  | zero => cases h
  | succ n ih =>
    unfold lastSeparator at h
    by_cases hsep : l[n]? = some kNeFSSeparator
    · rw [if_pos hsep] at h
      cases h
      exact ⟨by omega, hsep⟩
    · rw [if_neg hsep] at h
      obtain ⟨hlt, hi⟩ := ih h
      exact ⟨by omega, hi⟩

theorem lastSeparator_exists {l : List UInt8} {n i : Nat} (hi : i < n) (h : l[i]? = some kNeFSSeparator) :
    ∃ j, lastSeparator l n = some j := by
  induction n with
  | zero => omega
  | succ n ih =>
    unfold lastSeparator
    by_cases hsep : l[n]? = some kNeFSSeparator
    · exact ⟨n, if_pos hsep⟩
    · rw [if_neg hsep]
      apply ih (Nat.lt_of_le_of_ne (by omega) _)
      intro heq
      exact hsep (heq ▸ h)

theorem parentName_eq_ok {name parent : CString} (h : parentName name = .ok parent) :
    name.length < kNeFSNodeNameLen ∧ parent.1 ≠ [] := by
  unfold parentName at h
  split at h
  · cases h
  · rename_i hlen
    split at h
    · rename_i i hi
      cases h
      refine ⟨by omega, ?_⟩
      intro hnil
      have hsep := (lastSeparator_some hi).2
      rcases List.take_eq_nil_iff.mp hnil with h | h
      · omega
      · simp [h] at hsep
    · cases h

theorem ValidName.parentName {name : CString} (h : ValidName name) : ∃ parent, parentName name = .ok parent := by
  obtain ⟨hlen, i, hi, hsep⟩ := h
  obtain ⟨j, hj⟩ := lastSeparator_exists (n := name.length - 2) (by omega) hsep
  unfold OpenNE.parentName
  rw [if_neg (by omega)]
  simp only [hj]
  exact ⟨_, rfl⟩

theorem ValidName.nonempty {name : CString} (h : ValidName name) : name.1 ≠ [] := by
  obtain ⟨-, i, hi, -⟩ := h
  intro hnil
  simp [CString.length, hnil] at hi

/-! ### The calls that return a record -/

/-- What a call of `CreateCatalog` that returned a record went through: no catalog of that name, and then the
search for a free slot from `start` on, the slot of the parent or the first one. -/
structure Searched (fuel : Nat) (d : Drive) (name : CString) (flags kind : Int32) (start : Lba)
    (r : Drive × Option NfsCatalogStruct) : Prop where
  slash : kind = kNeFSCatalogKindDir ↔ name.1.getLast? = some kNeFSSeparator
  nonempty : name.1 ≠ []
  absent : ∃ outLba, findCatalog fuel d (some name) 0 true = .ok (none, outLba)
  parent : ∃ outLba parent g, parentName name = .ok parent ∧ findCatalog fuel d (some parent) outLba true = .ok g ∧
    (g.1.isSome = true ∧ start = g.2 ∨ g.1 = none ∧ start = d.superBlock.StartCatalog)
  search : createCatalogFrom fuel d name flags kind start = .ok r

theorem createCatalog_searched {fuel : Nat} {d d' : Drive} {name : CString} {flags kind : Int32}
    {c : NfsCatalogStruct} (h : createCatalog fuel d (some name) flags kind = .ok (d', some c)) :
    ∃ start, Searched fuel d name flags kind start (d', some c) := by
  unfold createCatalog at h
  simp only at h
  cases hlast : name.1.getLast? with
  | none =>
    rw [hlast] at h
    cases h
  | some last =>
    have hname : name.1 ≠ [] := by
      intro hnil
      rw [hnil] at hlast
      cases hlast
    simp only [hlast] at h
    split_ifs at h with hdir hfile
    · cases h
    · cases h
    have hslash : kind = kNeFSCatalogKindDir ↔ name.1.getLast? = some kNeFSSeparator := by
      rw [hlast, Option.some_inj]
      tauto
    obtain ⟨⟨existing, outLba⟩, hfind, h⟩ := Exec.bind_eq_ok.mp h
    cases existing with
    | some existing =>
      simp only [Option.isSome_some, if_true] at h
      cases h
    | none =>
      simp only [Option.isSome_none, Bool.false_eq_true, if_false] at h
      obtain ⟨parent, hparent, h⟩ := Exec.bind_eq_ok.mp h
      obtain ⟨⟨catalog, lba⟩, hfindParent, h⟩ := Exec.bind_eq_ok.mp h
      cases catalog with
      | none =>
        exact ⟨_, hslash, hname, ⟨_, hfind⟩, ⟨_, _, _, hparent, hfindParent, .inr ⟨rfl, rfl⟩⟩, h⟩
      | some catalog =>
        simp only at h
        split_ifs at h with hkind
        · cases h
        · exact ⟨_, hslash, hname, ⟨_, hfind⟩, ⟨_, _, _, hparent, hfindParent, .inl ⟨rfl, rfl⟩⟩, h⟩

namespace Chain

variable {fmt : NfsSuperBlock} {made : List Entry} {d d' : Drive} {name : CString} {flags kind : Int32}

/-! ### The allocation -/

theorem record_placed (hlen : name.length < kNeFSNodeNameLen) {part : NfsSuperBlock} {out : Lba} (i : Nat) :
    RecordOf part.DiskSize i ⟨name, kind⟩ ((childCatalog name flags kind out).placedAt part (slotLba i)) where
  nameField := rfl
  short := hlen
  created := by
    show (kNeFSFlagCreated &&& kNeFSFlagCreated != 0) = true
    decide
  next := slotLba_add_stride i
  kind := rfl
  dataFork := rfl
  resourceFork := rfl

theorem allocate (hc : Chain fmt made d) (hslot : slot made.length < 2 ^ 64)
    (hfree : ¬d.superBlock.FreeCatalog < 1) (hlen : name.length < kNeFSNodeNameLen) (hname : name.1 ≠ [])
    (hnew : ∀ m ∈ made, name ≠ m.name)
    (hkind : kind = kNeFSCatalogKindDir ↔ name.1.getLast? = some kNeFSSeparator)
    {temporary : NfsCatalogStruct} {out : Lba} :
    Chain fmt (made ++ [⟨name, kind⟩]) (d.allocateCatalog d.superBlock temporary
      (childCatalog name flags kind out) (slotLba made.length)) where
  writable := by simpa [Drive.allocateCatalog] using hc.writable
  start := by
    rw [allocate_superBlock hc.writable hslot]
    exact hc.start
  diskSize := by
    rw [allocate_superBlock hc.writable hslot]
    exact hc.diskSize
  freeCatalog := by
    have hle : (1 : UInt64) ≤ d.superBlock.FreeCatalog := UInt64.not_lt.mp hfree
    have hone : 1 ≤ d.superBlock.FreeCatalog.toNat := UInt64.le_iff_toNat_le.mp hle
    have hsub : (d.superBlock.FreeCatalog - 1).toNat = d.superBlock.FreeCatalog.toNat - 1 :=
      UInt64.toNat_sub_of_le _ _ hle
    have hall := hc.freeCatalog
    rw [allocate_superBlock hc.writable hslot]
    show _ + (d.superBlock.FreeCatalog - 1).toNat = _
    rw [hsub, List.length_append, List.length_singleton]
    omega
  fits := by
    intro i hi
    rw [List.length_append, List.length_singleton] at hi
    rcases Nat.lt_or_eq_of_le (Nat.le_of_lt_succ hi) with hlt | rfl
    · exact hc.fits i hlt
    · exact hslot
  record := by
    intro i hi
    rw [List.length_append, List.length_singleton] at hi
    rcases Nat.lt_or_eq_of_le (Nat.le_of_lt_succ hi) with hlt | rfl
    · rw [allocate_other hslot (hc.fits i hlt) (by omega), List.getElem_append_left hlt]
      exact hc.record i hlt
    · rw [allocate_same hc.writable hslot, List.getElem_concat_length rfl, ← hc.diskSize]
      exact record_placed hlen made.length
  nonempty := by
    intro m hm
    rcases List.mem_append.mp hm with hm | hm
    · exact hc.nonempty m hm
    · rw [List.mem_singleton.mp hm]
      exact hname
  distinct := by
    rw [List.map_append, List.nodup_append]
    refine ⟨hc.distinct, by simp, ?_⟩
    intro a ha b hb
    obtain ⟨m, hm, rfl⟩ := List.mem_map.mp ha
    obtain rfl : b = name := by simpa using hb
    exact (hnew m hm).symm
  kind := by
    intro m hm
    rcases List.mem_append.mp hm with hm | hm
    · exact hc.kind m hm
    · rw [List.mem_singleton.mp hm]
      exact hkind
  zeroed := by
    intro x hx
    rw [List.length_append, List.length_singleton] at hx
    rw [allocate_behind hslot hx]
    apply hc.zeroed x
    apply Nat.le_trans _ hx
    rw [slot_eq, slot_eq]
    omega

/-! ### The search for a free slot -/

theorem createRound_next (hc : Chain fmt made d) (hnew : ∀ m ∈ made, name ≠ m.name) {child : NfsCatalogStruct}
    {i : Nat} (h : i < made.length) :
    createRound d name d.superBlock child (slotLba i, d.catalogAt (slotLba i)) =
      .ok (.inl (slotLba (i + 1), d.catalogAt (slotLba (i + 1)))) := by
  have hrec := hc.record i h
  have hne : made[i].name ≠ name := fun heq => hnew _ (List.getElem_mem h) heq.symm
  unfold createRound
  simp only [hc.start]
  rw [if_neg (slotLba_not_lt (hc.fits i h))]
  simp [hrec.created, hrec.name, hne, slotLba_add_stride]

/-- What `CreateCatalog` does to a chain. -/
def CreateResult (fmt : NfsSuperBlock) (made : List Entry) (d : Drive) (name : CString) (kind : Int32)
    (r : Drive × Option NfsCatalogStruct) : Prop :=
  r = (d, none) ∨ r.2.isSome = true ∧ Chain fmt (made ++ [⟨name, kind⟩]) r.1

theorem createRound_leave (flags : Int32) (hc : Chain fmt made d) (hfree : ¬d.superBlock.FreeCatalog < 1)
    (hlen : name.length < kNeFSNodeNameLen) (hname : name.1 ≠ []) (hnew : ∀ m ∈ made, name ≠ m.name)
    (hkind : kind = kNeFSCatalogKindDir ↔ name.1.getLast? = some kNeFSSeparator) (out : Lba) :
    ∃ r, CreateResult fmt made d name kind r ∧
      createRound d name d.superBlock (childCatalog name flags kind out)
        (slotLba made.length, d.catalogAt (slotLba made.length)) = .ok (.inr r) := by
  unfold createRound
  simp only [hc.start]
  by_cases hslot : slot made.length < 2 ^ 64
  · rw [if_neg (slotLba_not_lt hslot), hc.zero_behind hslot, if_pos NfsCatalogStruct.hasCreated_zero]
    exact ⟨_, .inr ⟨rfl, hc.allocate hslot hfree hlen hname hnew hkind⟩, rfl⟩
  · obtain ⟨n, hn⟩ : ∃ n, made.length = n + 1 := by
      refine ⟨made.length - 1, ?_⟩
      rw [slot_eq] at hslot
      omega
    rw [hn] at hslot ⊢
    rw [if_pos (slotLba_wrap (hc.fits n (by omega)) hslot)]
    exact ⟨_, .inl rfl, rfl⟩

theorem createCatalogFrom_returns (flags : Int32) (hc : Chain fmt made d)
    (hlen : name.length < kNeFSNodeNameLen) (hname : name.1 ≠ []) (hnew : ∀ m ∈ made, name ≠ m.name)
    (hkind : kind = kNeFSCatalogKindDir ↔ name.1.getLast? = some kNeFSSeparator) {i : Nat}
    (hi : i ≤ made.length) :
    ∃ r, CreateResult fmt made d name kind r ∧
      ∀ fuel, made.length < fuel → createCatalogFrom fuel d name flags kind (slotLba i) = .ok r := by
  unfold createCatalogFrom
  by_cases hfree : d.superBlock.FreeCatalog < 1
  · exact ⟨(d, none), .inl rfl, fun fuel _ => by rw [if_pos hfree]⟩
  obtain ⟨r, hr, hleave⟩ := hc.createRound_leave flags hfree hlen hname hnew hkind (slotLba i)
  refine ⟨r, hr, ?_⟩
  intro fuel hfuel
  rw [if_neg hfree]
  obtain ⟨n, hn⟩ : ∃ n, made.length = i + n := ⟨made.length - i, by omega⟩
  rw [hn] at hleave
  have hnext : ∀ k < n, createRound d name d.superBlock (childCatalog name flags kind (slotLba i))
      (slotLba (i + k), d.catalogAt (slotLba (i + k))) =
      .ok (.inl (slotLba (i + (k + 1)), d.catalogAt (slotLba (i + (k + 1))))) := by
    intro k hk
    exact hc.createRound_next hnew (by omega)
  have hloop := loop_of_rounds (s := fun k => (slotLba (i + k), d.catalogAt (slotLba (i + k)))) hnext hleave
  exact loop_mono (by omega) hloop

theorem createCatalogFrom_eq (hc : Chain fmt made d) (hlen : name.length < kNeFSNodeNameLen)
    (hname : name.1 ≠ []) (hnew : ∀ m ∈ made, name ≠ m.name)
    (hkind : kind = kNeFSCatalogKindDir ↔ name.1.getLast? = some kNeFSSeparator) {i : Nat}
    (hi : i ≤ made.length) {fuel : Nat} {r : Drive × Option NfsCatalogStruct}
    (h : createCatalogFrom fuel d name flags kind (slotLba i) = .ok r) :
    CreateResult fmt made d name kind r := by
  obtain ⟨r', hr', hret⟩ := hc.createCatalogFrom_returns flags hlen hname hnew hkind hi
  have hlong := hret (made.length + 1) (Nat.lt_succ_self _)
  unfold createCatalogFrom at h hlong
  by_cases hfree : d.superBlock.FreeCatalog < 1
  · rw [if_pos hfree] at h hlong
    rwa [Except.ok.inj (h.symm.trans hlong)]
  · rw [if_neg hfree] at h hlong
    rwa [loop_unique h hlong]

/-! ### `CreateCatalog` -/

theorem start_slot (hc : Chain fmt made d) {f : Option (NfsCatalogStruct × Lba)} {parent : CString}
    (h : FoundFrom d made parent 0 f) :
    ∃ i ≤ made.length, (match foundAt f with
      | (some _, outLba) => outLba
      | (none, _) => d.superBlock.StartCatalog) = slotLba i := by
  rcases f with _ | ⟨c, lba⟩
  · exact ⟨0, Nat.zero_le _, hc.start⟩
  · obtain ⟨i, hi, -, -, rfl⟩ := h
    exact ⟨i, hi.le, rfl⟩

/-- What is asked of a new name: a directory's ends with a separator and no other does, it is new, and its parent is
no file. -/
structure MayCreate (made : List Entry) (name : CString) (kind : Int32) : Prop where
  slash : kind = kNeFSCatalogKindDir ↔ name.1.getLast? = some kNeFSSeparator
  new : ∀ m ∈ made, m.name ≠ name
  parent : ∀ parent, parentName name = .ok parent → ∀ m ∈ made, m.name = parent → m.kind ≠ kNeFSCatalogKindFile

/-- A call that returns refuses the name, or searches from a record of the list on. -/
theorem createCatalog_cases (hc : Chain fmt made d) {fuel : Nat} {r : Drive × Option NfsCatalogStruct}
    (h : createCatalog fuel d (some name) flags kind = .ok r) :
    r = (d, none) ∧ ¬ MayCreate made name kind ∨
      MayCreate made name kind ∧ name.length < kNeFSNodeNameLen ∧ name.1 ≠ [] ∧
        ∃ i ≤ made.length, createCatalogFrom fuel d name flags kind (slotLba i) = .ok r := by
  unfold createCatalog at h
  simp only at h
  cases hlast : name.1.getLast? with
  | none =>
    rw [hlast] at h
    cases h
  | some last =>
    have hname : name.1 ≠ [] := by
      intro hnil
      rw [hnil] at hlast
      cases hlast
    simp only [hlast] at h
    split_ifs at h with hdir hfile
    · cases h
      refine .inl ⟨rfl, fun hmay => hdir.2 ?_⟩
      exact Option.some.inj (hlast.symm.trans (hmay.slash.mp hdir.1))
    · cases h
      refine .inl ⟨rfl, fun hmay => hfile.1 (hmay.slash.mpr ?_)⟩
      rw [hlast, hfile.2]
    have hkind : kind = kNeFSCatalogKindDir ↔ name.1.getLast? = some kNeFSSeparator := by
      rw [hlast, Option.some_inj]
      tauto
    obtain ⟨⟨existing, outLba⟩, hfind, h⟩ := Exec.bind_eq_ok.mp h
    obtain ⟨f, hf, heq⟩ := hc.findCatalog_eq hname hfind
    rcases f with _ | ⟨c, lba⟩
    swap
    · cases heq
      cases h
      obtain ⟨i, hi, heq, -⟩ := hf
      exact .inl ⟨rfl, fun hmay => hmay.new made[i] (List.getElem_mem hi) heq.symm⟩
    cases heq
    simp only [Option.isSome_none, Bool.false_eq_true, if_false] at h
    obtain ⟨parent, hparent, h⟩ := Exec.bind_eq_ok.mp h
    obtain ⟨hlen, hpne⟩ := parentName_eq_ok hparent
    obtain ⟨⟨catalog, outLba⟩, hfind, h⟩ := Exec.bind_eq_ok.mp h
    obtain ⟨g, hg, heq⟩ := hc.findCatalog_eq hpne hfind
    obtain ⟨i, hi, hstart⟩ := hc.start_slot hg
    rw [← heq] at hstart
    have hmay (hfiles : ∀ m ∈ made, m.name = parent → m.kind ≠ kNeFSCatalogKindFile) : MayCreate made name kind := by
      refine ⟨hkind, fun m hm heq => name_new hf m hm heq.symm, fun parent' hparent' m hm heq => ?_⟩
      rw [hparent] at hparent'
      exact hfiles m hm (heq.trans (Except.ok.inj hparent').symm)
    cases catalog with
    | none =>
      simp only at h hstart
      rw [hstart] at h
      rcases g with _ | ⟨c, lba⟩
      · exact .inr ⟨hmay fun m hm heq => absurd heq.symm (name_new hg m hm), hlen, hname, i, hi, h⟩
      · cases heq
    | some catalog =>
      simp only at h hstart
      rcases g with _ | ⟨c, lba⟩
      · cases heq
      cases heq
      obtain ⟨j, hj, hpj, rfl, rfl⟩ := hg
      split at h
      · rename_i hfile
        cases h
        refine .inl ⟨rfl, fun hmay => ?_⟩
        exact hmay.parent parent hparent made[j] (List.getElem_mem hj) hpj.symm ((hc.record j hj).kind ▸ hfile)
      · rename_i hfile
        rw [hstart] at h
        refine .inr ⟨hmay fun m hm heq hkindFile => hfile ?_, hlen, hname, i, hi, h⟩
        obtain ⟨l, hl, rfl⟩ := List.mem_iff_getElem.mp hm
        obtain rfl : l = j := hc.index_unique hl hj (heq.trans hpj)
        exact (hc.record l hl).kind.trans hkindFile

theorem createCatalog_eq (hc : Chain fmt made d) {fuel : Nat} {r : Drive × Option NfsCatalogStruct}
    (h : createCatalog fuel d (some name) flags kind = .ok r) : CreateResult fmt made d name kind r := by
  rcases hc.createCatalog_cases h with ⟨rfl, -⟩ | ⟨hmay, hlen, hname, i, hi, hfrom⟩
  · exact .inl rfl
  · exact hc.createCatalogFrom_eq hlen hname (fun m hm heq => hmay.new m hm heq.symm) hmay.slash hi hfrom

theorem createCatalog_returns (flags kind : Int32) (hc : Chain fmt made d) (hvalid : ValidName name) :
    ∃ fuel r, createCatalog fuel d (some name) flags kind = .ok r := by
  have hname := hvalid.nonempty
  have hlt : made.length < made.length + 1 := Nat.lt_succ_self _
  refine ⟨made.length + 1, ?_⟩
  obtain ⟨last, hlast⟩ : ∃ last, name.1.getLast? = some last :=
    ⟨_, List.getLast?_eq_getLast_of_ne_nil hname⟩
  unfold createCatalog
  simp only [hlast]
  split_ifs with hdir hfile
  · exact ⟨_, rfl⟩
  · exact ⟨_, rfl⟩
  have hkind : kind = kNeFSCatalogKindDir ↔ name.1.getLast? = some kNeFSSeparator := by
    rw [hlast, Option.some_inj]
    tauto
  obtain ⟨f, hf, hret⟩ := hc.findCatalog_returns hname
  rw [hret _ _ hlt, Exec.ok_bind]
  rcases f with _ | ⟨c, lba⟩
  · obtain ⟨parent, hparent⟩ := hvalid.parentName
    obtain ⟨hlen, hpne⟩ := parentName_eq_ok hparent
    obtain ⟨g, hg, hret⟩ := hc.findCatalog_returns hpne
    obtain ⟨i, hi, hstart⟩ := hc.start_slot hg
    obtain ⟨r, -, hfrom⟩ := hc.createCatalogFrom_returns flags hlen hname (name_new hf) hkind hi
    simp only [foundAt, Option.isSome_none, Bool.false_eq_true, if_false, hparent, Exec.ok_bind]
    rw [hret _ _ hlt, Exec.ok_bind]
    rcases g with _ | ⟨c, lba⟩
    · simp only [foundAt] at hstart ⊢
      rw [hstart]
      exact ⟨r, hfrom _ hlt⟩
    · simp only [foundAt] at hstart ⊢
      split
      · exact ⟨_, rfl⟩
      · rw [hstart]
        exact ⟨r, hfrom _ hlt⟩
  · exact ⟨_, rfl⟩

end Chain

/-! ### Runs -/

/-- The arguments of a call of `CreateCatalog`. -/
structure CreateCall where
  name : CString
  flags : Int32
  kind : Int32

/-- A call of `CreateCatalog` that returns, and the catalogs created so far. -/
def CreateStep (s : Drive × List Entry) (call : CreateCall) (s' : Drive × List Entry) : Prop :=
  ∃ fuel r, createCatalog fuel s.1 (some call.name) call.flags call.kind = .ok (s'.1, r) ∧
    s'.2 = if r.isSome then s.2 ++ [⟨call.name, call.kind⟩] else s.2

theorem Chain.createStep {fmt : NfsSuperBlock} {s s' : Drive × List Entry} {call : CreateCall}
    (hc : Chain fmt s.2 s.1) (h : CreateStep s call s') : Chain fmt s'.2 s'.1 := by
  obtain ⟨fuel, r, hcall, hmade⟩ := h
  rw [hmade]
  rcases hc.createCatalog_eq hcall with heq | ⟨hsome, hchain⟩
  · obtain ⟨hsame, rfl⟩ := Prod.mk.inj heq
    rw [hsame]
    exact hc
  · rw [if_pos hsome]
    exact hchain

theorem Formatted.chain_of_creates {d : Drive} (hd : Formatted d) {calls : List CreateCall}
    {s : Drive × List Entry} (h : Run CreateStep (d, []) calls s) : Chain d.superBlock s.2 s.1 :=
  h.invariant (fun s => Chain d.superBlock s.2 s.1) (fun _ _ _ hc => hc.createStep) hd.chain

/-- The catalogs `made` as the disk holds them. -/
structure CatalogsOk (d : Drive) (made : List Entry) : Prop where
  occupied : ∀ i (h : i < made.length), slot i < 2 ^ 64 ∧ (d.catalogAt (slotLba i)).hasCreated = true ∧
    (d.catalogAt (slotLba i)).nameString = .ok made[i].name
  unused : ∀ x, slot made.length ≤ x → d.disk x = 0
  next : ∀ i < made.length, (d.catalogAt (slotLba i)).NextSibling = slotLba (i + 1)
  distinct : (made.map Entry.name).Nodup
  kind : ∀ i (h : i < made.length), (d.catalogAt (slotLba i)).Kind = kNeFSCatalogKindDir ↔
    made[i].name.1.getLast? = some kNeFSSeparator
  find : ∀ name out, ∃ r, (∀ fuel, made.length < fuel → findCatalog fuel d (some name) out true = .ok r) ∧
    (r.1.isSome = true ↔ name ∈ made.map Entry.name)
  visits : ∀ name : CString, name.1 ≠ [] → ∀ fuel,
    (loopStates (findRound d name true d.superBlock) fuel kNeFSCatalogStartAddress).Nodup

theorem Chain.catalogsOk {fmt : NfsSuperBlock} {made : List Entry} {d : Drive} (hc : Chain fmt made d) :
    CatalogsOk d made where
  occupied i h := ⟨hc.fits i h, (hc.record i h).created, (hc.record i h).name⟩
  unused := hc.zeroed
  next i h := (hc.record i h).next
  distinct := hc.distinct
  kind i h := by
    rw [(hc.record i h).kind]
    exact hc.kind _ (List.getElem_mem h)
  find name out := by
    by_cases hname : name.1 = []
    · refine ⟨(none, out), fun fuel _ => by simp [findCatalog, hname], iff_of_false (by simp) ?_⟩
      intro hmem
      obtain ⟨m, hm, rfl⟩ := List.mem_map.mp hmem
      exact hc.nonempty m hm hname
    · obtain ⟨r, hr, hret⟩ := hc.findCatalog_returns hname
      exact ⟨foundAt r, fun fuel hfuel => hret fuel out hfuel, found_iff hr⟩
  visits name hname fuel := hc.search_nodup hname fuel

/-- Calls of `CreateCatalog` with valid names on a formatted drive return, and after them the disk holds
the created catalogs slot by slot. -/
theorem catalogs_of_creates (d : Drive) (hd : Formatted d) (calls : List CreateCall)
    (hcalls : ∀ call ∈ calls, ValidName call.name) :
    (∃ s, Run CreateStep (d, []) calls s) ∧ ∀ s, Run CreateStep (d, []) calls s → CatalogsOk s.1 s.2 := by
  refine ⟨?_, fun s h => (hd.chain_of_creates h).catalogsOk⟩
  induction calls using List.reverseRecOn with
  | nil => exact ⟨_, .nil _⟩
  | append_singleton calls call ih =>
    obtain ⟨s, hrun⟩ := ih fun c hc => hcalls c (List.mem_append_left _ hc)
    obtain ⟨fuel, ⟨d', r⟩, hret⟩ := (hd.chain_of_creates hrun).createCatalog_returns call.flags call.kind
      (hcalls call (by simp))
    exact ⟨(d', if r.isSome then s.2 ++ [⟨call.name, call.kind⟩] else s.2), hrun.snoc ⟨fuel, r, hret, rfl⟩⟩

/-! ### A file that was created -/

/-- A formatted drive of 2056 sectors, with room for four catalogs. -/
def smallDrive : Drive := Drive.blank { NfsSuperBlock.zero with
  StartCatalog := kNeFSCatalogStartAddress
  DiskSize := 0x101000
  FreeCatalog := 4 }

/-- `/ab`. -/
def fileName : CString := ⟨[47, 97, 98], by decide⟩

set_option maxRecDepth 4000 in
theorem createCatalog_small :
    (createCatalog 1 smallDrive (some fileName) 0 kNeFSCatalogKindFile).map (fun r => r.2.isSome) = .ok true :=
  rfl

/-- `CreateCatalog("/ab", 0, kNeFSCatalogKindFile)`. -/
def fileCall : CreateCall := ⟨fileName, 0, kNeFSCatalogKindFile⟩

theorem createRun_small : ∃ d', Run CreateStep (smallDrive, []) [fileCall]
    (d', [⟨fileName, kNeFSCatalogKindFile⟩]) := by
  obtain ⟨⟨d', r⟩, hcall, hsome⟩ := Exec.exists_of_map createCatalog_small
  exact ⟨d', Run.one ⟨1, r, hcall, by rw [if_pos hsome]; rfl⟩⟩

/-- The directory `/d/` and the file `/d/ab`. -/
theorem catalogs_of_creates_file_in_dir :
    let calls : List CreateCall := [⟨⟨[47, 100, 47], by decide⟩, 0, kNeFSCatalogKindDir⟩,
      ⟨⟨[47, 100, 47, 97, 98], by decide⟩, 0, kNeFSCatalogKindFile⟩]
    (∃ s, Run CreateStep (smallDrive, []) calls s) ∧
      ∀ s, Run CreateStep (smallDrive, []) calls s → CatalogsOk s.1 s.2 := by
  intro calls
  apply catalogs_of_creates smallDrive (Formatted.blank rfl) calls
  intro call hcall
  simp only [calls, List.mem_cons, List.not_mem_nil, or_false] at hcall
  rcases hcall with rfl | rfl
  · exact ⟨by decide, 0, by decide, rfl⟩
  · exact ⟨by decide, 0, by decide, rfl⟩

end OpenNE

import OpenNE.NeFS.Capacity
import OpenNE.NeFS.Format

/-!
# The counters of the superblock

`CreateCatalog` takes one from `FreeCatalog` and from `FreeSectors` and adds one to `CatalogCount`;
`RemoveCatalog` takes one from `CatalogCount` and adds one to `FreeSectors`, but none to `FreeCatalog`. On
whatever disk, the counters are those of the formatter and the numbers of both calls (`Counted`), so they are
kept as they should be exactly while nothing is removed and the sectors last (`accounts_kept_iff`).
-/

namespace OpenNE

/-! ### What the calls do to the superblock -/

section Calls

variable {d d' : Drive} {fuel : Nat} {name : CString} {flags kind : Int32}

theorem superBlock_output_behind {lba : Lba} {c : NfsCatalogStruct} (h : kNeFSCatalogStartAddress ≤ lba) :
    (d.output NfsCatalogStruct.codec lba c).superBlock = d.superBlock := by
  apply Drive.input_output_disjoint
  left
  have hle : 2560 ≤ lba.toNat := UInt64.le_iff_toNat_le.mp h
  show 1024 + 512 ≤ lba.toNat
  omega

theorem allocateCatalog_superBlock (hro : d.fPacketReadOnly = false) {part : NfsSuperBlock}
    {temporary child : NfsCatalogStruct} {lba : Lba} (h : kNeFSCatalogStartAddress ≤ lba) :
    (d.allocateCatalog part temporary child lba).superBlock = d.superBlock.catalogCreated := by
  unfold Drive.allocateCatalog
  rw [Drive.superBlock, Drive.input_output_same (by simpa), superBlock_output_behind h, superBlock_output_behind h]

theorem releaseCatalog_superBlock (hro : d.fPacketReadOnly = false) {catalog : NfsCatalogStruct} {lba : Lba}
    (h : kNeFSCatalogStartAddress ≤ lba) :
    (d.releaseCatalog catalog lba).superBlock = d.superBlock.catalogRemoved := by
  unfold Drive.releaseCatalog
  rw [Drive.superBlock, Drive.input_output_same (by simpa), superBlock_output_behind h]

/-- The drive after a call that returned the record `c`: a new catalog if that is what `c` was not before. -/
structure CreatedFrom (d : Drive) (c : NfsCatalogStruct) (d' : Drive) : Prop where
  writable : d'.fPacketReadOnly = d.fPacketReadOnly
  found : c.hasCreated = true → d' = d
  made : c.hasCreated = false →
    d'.superBlock = d.superBlock.catalogCreated ∧ ¬d.superBlock.FreeCatalog < 1

theorem createRound_some {child : NfsCatalogStruct} {s : Lba × NfsCatalogStruct} {c : NfsCatalogStruct}
    (hro : d.fPacketReadOnly = false) (hstart : d.superBlock.StartCatalog = kNeFSCatalogStartAddress)
    (hfree : ¬d.superBlock.FreeCatalog < 1)
    (h : createRound d name d.superBlock child s = .ok (.inr (d', some c))) : CreatedFrom d c d' := by
  unfold createRound at h
  rw [hstart] at h
  by_cases hlow : s.1 < kNeFSCatalogStartAddress
  · rw [if_pos hlow] at h
    cases h
  rw [if_neg hlow] at h
  by_cases hcreated : s.2.hasCreated = false
  · rw [if_pos hcreated] at h
    cases h
    refine ⟨by simp [Drive.allocateCatalog], ?_, ?_⟩
    · intro htrue
      rw [hcreated] at htrue
      cases htrue
    · intro _
      exact ⟨allocateCatalog_superBlock hro (UInt64.not_lt.mp hlow), hfree⟩
  · rw [if_neg hcreated] at h
    obtain ⟨temporaryName, -, h⟩ := Exec.bind_eq_ok.mp h
    by_cases hname : temporaryName = name
    · rw [if_pos hname] at h
      cases h
      exact ⟨rfl, fun _ => rfl, fun hfalse => absurd hfalse hcreated⟩
    · rw [if_neg hname] at h
      cases h

theorem createCatalogFrom_some {outLba : Lba} {c : NfsCatalogStruct} (hro : d.fPacketReadOnly = false)
    (hstart : d.superBlock.StartCatalog = kNeFSCatalogStartAddress)
    (h : createCatalogFrom fuel d name flags kind outLba = .ok (d', some c)) : CreatedFrom d c d' := by
  unfold createCatalogFrom at h
  by_cases hfree : d.superBlock.FreeCatalog < 1
  · rw [if_pos hfree] at h
    cases h
  rw [if_neg hfree] at h
  refine loop_invariant (fun _ => True) (fun r => ∀ c, r.2 = some c → CreatedFrom d c r.1) (fun _ _ _ _ => trivial)
    ?_ trivial h c rfl
  intro s r _ hround c hc
  obtain ⟨d₁, c₁⟩ := r
  obtain rfl : c₁ = some c := hc
  exact createRound_some hro hstart hfree hround

theorem createCatalog_some {c : NfsCatalogStruct} (hro : d.fPacketReadOnly = false)
    (hstart : d.superBlock.StartCatalog = kNeFSCatalogStartAddress)
    (h : createCatalog fuel d (some name) flags kind = .ok (d', some c)) : CreatedFrom d c d' := by
  obtain ⟨start, hsearched⟩ := createCatalog_searched h
  exact createCatalogFrom_some hro hstart hsearched.search

theorem searchCatalogList_behind {hidden : Bool} {start lba : Lba} {c : NfsCatalogStruct}
    (hstart : d.superBlock.StartCatalog = kNeFSCatalogStartAddress) (hlba : kNeFSCatalogStartAddress ≤ start)
    (h : searchCatalogList fuel d name hidden start = .ok (some (c, lba))) : kNeFSCatalogStartAddress ≤ lba := by
  refine loop_invariant (fun lba => kNeFSCatalogStartAddress ≤ lba)
    (fun r => ∀ c lba, r = some (c, lba) → kNeFSCatalogStartAddress ≤ lba) ?_ ?_ hlba h c lba rfl
  · intro lba lba' _ hround
    unfold findRound at hround
    obtain ⟨temporaryName, -, hround⟩ := Exec.bind_eq_ok.mp hround
    dsimp only at hround
    split_ifs at hround with hhit hend
    · cases hround
    · cases hround
    · rw [← Sum.inl.inj (Except.ok.inj hround), ← hstart]
      exact UInt64.not_lt.mp hend
  · intro lba r hle hround c lba' hr
    unfold findRound at hround
    obtain ⟨temporaryName, -, hround⟩ := Exec.bind_eq_ok.mp hround
    dsimp only at hround
    split_ifs at hround with hhit hend
    · rw [hr] at hround
      rw [← (Prod.mk.inj (Option.some.inj (Sum.inr.inj (Except.ok.inj hround)))).2]
      exact hle
    · rw [hr] at hround
      cases hround
    · cases hround

theorem removeCatalog_true (hro : d.fPacketReadOnly = false)
    (hstart : d.superBlock.StartCatalog = kNeFSCatalogStartAddress)
    (h : removeCatalog fuel d (some name) = .ok (d', true)) :
    d'.superBlock = d.superBlock.catalogRemoved ∧ d'.fPacketReadOnly = false := by
  unfold removeCatalog at h
  by_cases hroot : name = kNeFSRoot
  · simp only [hroot, if_true] at h
    cases h
  simp only [hroot, if_false] at h
  obtain ⟨⟨catalog, outLba⟩, hfind, h⟩ := Exec.bind_eq_ok.mp h
  cases catalog with
  | none => cases h
  | some catalog =>
    simp only at h
    split_ifs at h with hguard
    · cases h
      have hbehind : kNeFSCatalogStartAddress ≤ outLba := by
        unfold findCatalog at hfind
        simp only at hfind
        split_ifs at hfind with hnil
        · cases hfind
        · obtain ⟨found, hsearch, hfound⟩ := Exec.exists_of_map hfind
          cases found with
          | none => cases hfound
          | some found =>
            cases hfound
            exact searchCatalogList_behind hstart (UInt64.le_refl _) hsearch
      exact ⟨releaseCatalog_superBlock hro hbehind, by simpa [Drive.releaseCatalog] using hro⟩
    · cases h

end Calls

/-! ### Runs -/

/-- A drive, and how many catalogs were created and removed on it. -/
structure Accounts where
  drive : Drive
  created : Nat
  removed : Nat

/-- A successful call. One that returns a record of that name met on the way has created nothing. -/
def AccountStep (s : Accounts) (op : CatalogOp) (s' : Accounts) : Prop :=
  match op with
  | .create name flags kind => ∃ fuel c, createCatalog fuel s.drive (some name) flags kind = .ok (s'.drive, some c) ∧
      s'.created = (if c.hasCreated = true then s.created else s.created + 1) ∧ s'.removed = s.removed
  | .remove name => ∃ fuel, removeCatalog fuel s.drive (some name) = .ok (s'.drive, true) ∧
      s'.created = s.created ∧ s'.removed = s.removed + 1

/-- A superblock as one of the two formatters leaves it. -/
inductive JustFormatted : NfsSuperBlock → Prop
  | boot (behind : BootStrings) (dev : BootDev) (partName : CString) (blobCnt : UInt64) :
      JustFormatted (BDiskFormatFactory.superBlock behind dev partName blobCnt)
  | kernel (behind : UInt8) (partName : CString) (sectorCount diskSize : UInt64) (part : NfsSuperBlock)
      (hfree : part.isFree behind = true) : JustFormatted (part.formatted behind partName sectorCount diskSize)

/-- The counters as they should be, `fmt` being the superblock after formatting: the sum of `CatalogCount` and
`FreeCatalog` is what it was, `CatalogCount` has moved with the live catalogs, and `FreeSectors` has not
wrapped and is at most `SectorCount`. -/
structure AccountsKept (fmt : NfsSuperBlock) (s : Accounts) : Prop where
  sum : s.drive.superBlock.CatalogCount + s.drive.superBlock.FreeCatalog = fmt.CatalogCount + fmt.FreeCatalog
  live : s.drive.superBlock.CatalogCount = fmt.CatalogCount + UInt64.ofNat s.created - UInt64.ofNat s.removed
  sectors : (s.drive.superBlock.FreeSectors.toNat : Int) = fmt.FreeSectors.toNat - s.created + s.removed
  within : s.drive.superBlock.FreeSectors ≤ s.drive.superBlock.SectorCount

/-- The counters as they are. -/
structure Counted (fmt : NfsSuperBlock) (s : Accounts) : Prop where
  writable : s.drive.fPacketReadOnly = false
  start : s.drive.superBlock.StartCatalog = kNeFSCatalogStartAddress
  sectorCount : s.drive.superBlock.SectorCount = fmt.SectorCount
  catalogCount : s.drive.superBlock.CatalogCount = fmt.CatalogCount + UInt64.ofNat s.created - UInt64.ofNat s.removed
  freeSectors : s.drive.superBlock.FreeSectors = fmt.FreeSectors - UInt64.ofNat s.created + UInt64.ofNat s.removed
  freeCatalog : s.created + s.drive.superBlock.FreeCatalog.toNat = fmt.FreeCatalog.toNat

variable {fmt : NfsSuperBlock} {s s' : Accounts} {op : CatalogOp} {ops : List CatalogOp}

theorem Counted.created (h : Counted fmt s) {d : Drive} (hro : d.fPacketReadOnly = false)
    (hpart : d.superBlock = s.drive.superBlock.catalogCreated) (hfree : ¬s.drive.superBlock.FreeCatalog < 1) :
    Counted fmt ⟨d, s.created + 1, s.removed⟩ where
  writable := hro
  start := by
    rw [hpart]
    exact h.start
  sectorCount := by
    rw [hpart]
    exact h.sectorCount
  catalogCount := by
    rw [hpart]
    show s.drive.superBlock.CatalogCount + 1 = _
    rw [h.catalogCount, UInt64.ofNat_add s.created 1]
    grind
  freeSectors := by
    rw [hpart]
    show s.drive.superBlock.FreeSectors - 1 = _
    rw [h.freeSectors, UInt64.ofNat_add s.created 1]
    grind
  freeCatalog := by
    have hle : (1 : UInt64) ≤ s.drive.superBlock.FreeCatalog := UInt64.not_lt.mp hfree
    have hone : 1 ≤ s.drive.superBlock.FreeCatalog.toNat := UInt64.le_iff_toNat_le.mp hle
    have hall := h.freeCatalog
    rw [hpart]
    show s.created + 1 + (s.drive.superBlock.FreeCatalog - 1).toNat = _
    have hsub : (s.drive.superBlock.FreeCatalog - 1).toNat = s.drive.superBlock.FreeCatalog.toNat - 1 :=
      UInt64.toNat_sub_of_le _ _ hle
    omega

theorem Counted.removed (h : Counted fmt s) {d : Drive} (hro : d.fPacketReadOnly = false)
    (hpart : d.superBlock = s.drive.superBlock.catalogRemoved) : Counted fmt ⟨d, s.created, s.removed + 1⟩ where
  writable := hro
  start := by
    rw [hpart]
    exact h.start
  sectorCount := by
    rw [hpart]
    exact h.sectorCount
  catalogCount := by
    rw [hpart]
    show s.drive.superBlock.CatalogCount - 1 = _
    rw [h.catalogCount, UInt64.ofNat_add s.removed 1]
    grind
  freeSectors := by
    rw [hpart]
    show s.drive.superBlock.FreeSectors + 1 = _
    rw [h.freeSectors, UInt64.ofNat_add s.removed 1]
    grind
  freeCatalog := by
    rw [hpart]
    exact h.freeCatalog

/-- A step counts one creation, one removal or nothing. -/
theorem Counted.step (h : Counted fmt s) (hstep : AccountStep s op s') :
    Counted fmt s' ∧ (s'.created = s.created + 1 ∧ s'.removed = s.removed ∨ s' = s ∨
      s'.created = s.created ∧ s'.removed = s.removed + 1) := by
  obtain ⟨d', created, removed⟩ := s'
  cases op with
  | create name flags kind =>
    obtain ⟨fuel, c, hcall, hcreated, hremoved⟩ := hstep
    have hfrom := createCatalog_some h.writable h.start hcall
    simp only at hcreated hremoved hfrom
    cases hc : c.hasCreated with
    | false =>
      obtain ⟨hpart, hfree⟩ := hfrom.made hc
      rw [if_neg (by simp [hc])] at hcreated
      rw [hcreated, hremoved]
      exact ⟨h.created (hfrom.writable.trans h.writable) hpart hfree, .inl ⟨rfl, rfl⟩⟩
    | true =>
      obtain rfl := hfrom.found hc
      rw [if_pos hc] at hcreated
      rw [hcreated, hremoved]
      exact ⟨h, .inr (.inl rfl)⟩
  | remove name =>
    obtain ⟨fuel, hcall, hcreated, hremoved⟩ := hstep
    obtain ⟨hpart, hro⟩ := removeCatalog_true h.writable h.start hcall
    simp only at hcreated hremoved
    rw [hcreated, hremoved]
    exact ⟨h.removed hro hpart, .inr (.inr ⟨rfl, rfl⟩)⟩

/-- What keeps the counters: nothing removed, and enough sectors for what was created. -/
structure AccountsCover (fmt : NfsSuperBlock) (s : Accounts) : Prop where
  removed : s.removed = 0
  created : s.created ≤ fmt.FreeSectors.toNat
  sectors : fmt.FreeSectors ≤ fmt.SectorCount

theorem Counted.sum (h : Counted fmt s) :
    s.drive.superBlock.CatalogCount + s.drive.superBlock.FreeCatalog + UInt64.ofNat s.removed =
      fmt.CatalogCount + fmt.FreeCatalog := by
  have hall := h.freeCatalog
  have hlt := fmt.FreeCatalog.toNat_lt
  have hsmall : s.created < 2 ^ 64 := by omega
  have hfree : s.drive.superBlock.FreeCatalog + UInt64.ofNat s.created = fmt.FreeCatalog := by
    apply UInt64.toNat_inj.mp
    rw [UInt64.toNat_add, UInt64.toNat_ofNat_of_lt' hsmall, Nat.mod_eq_of_lt (by omega)]
    omega
  rw [h.catalogCount, ← hfree]
  grind

theorem Counted.not_kept_of_one (h : Counted fmt s) (hone : s.removed = 1) : ¬AccountsKept fmt s := by
  intro hkept
  have hsum := h.sum
  rw [hkept.sum, hone] at hsum
  have hzero : UInt64.ofNat 1 = 0 := by grind
  exact absurd hzero (by decide)

theorem Counted.freeSectors_toNat (h : Counted fmt s) (hremoved : s.removed = 0)
    (hcreated : s.created ≤ fmt.FreeSectors.toNat) :
    s.drive.superBlock.FreeSectors.toNat = fmt.FreeSectors.toNat - s.created := by
  have hsmall : s.created < 2 ^ 64 := Nat.lt_of_le_of_lt hcreated fmt.FreeSectors.toNat_lt
  have hle : UInt64.ofNat s.created ≤ fmt.FreeSectors := by
    rw [UInt64.le_iff_toNat_le, UInt64.toNat_ofNat_of_lt' hsmall]
    exact hcreated
  rw [h.freeSectors, hremoved]
  show (fmt.FreeSectors - UInt64.ofNat s.created + 0).toNat = _
  rw [UInt64.add_zero, UInt64.toNat_sub_of_le _ _ hle, UInt64.toNat_ofNat_of_lt' hsmall]

theorem Counted.kept (h : Counted fmt s) (hcover : AccountsCover fmt s) : AccountsKept fmt s := by
  have hsectors := h.freeSectors_toNat hcover.removed hcover.created
  have hcreated := hcover.created
  refine ⟨?_, h.catalogCount, ?_, ?_⟩
  · rw [← h.sum, hcover.removed]
    exact (UInt64.add_zero _).symm
  · rw [hsectors, hcover.removed]
    omega
  · have hle := UInt64.le_iff_toNat_le.mp hcover.sectors
    rw [h.sectorCount, UInt64.le_iff_toNat_le, hsectors]
    omega

theorem JustFormatted.start (h : JustFormatted fmt) : fmt.StartCatalog = kNeFSCatalogStartAddress := by
  cases h with
  | boot => rfl
  | kernel => rfl

theorem Counted.formatted {d : Drive} (hro : d.fPacketReadOnly = false) (hfmt : JustFormatted d.superBlock) :
    Counted d.superBlock ⟨d, 0, 0⟩ where
  writable := hro
  start := hfmt.start
  sectorCount := rfl
  catalogCount := by
    show d.superBlock.CatalogCount = d.superBlock.CatalogCount + 0 - 0
    grind
  freeSectors := by
    show d.superBlock.FreeSectors = d.superBlock.FreeSectors - 0 + 0
    grind
  freeCatalog := by simp

theorem Counted.run {s₀ : Accounts} (h : Counted fmt s₀) (hrun : Run AccountStep s₀ ops s) : Counted fmt s :=
  hrun.invariant (Counted fmt) (fun _ _ _ hs hstep => (hs.step hstep).1) h

/-- The counters are kept in every state of a run. -/
def AlwaysKept (d : Drive) (ops : List CatalogOp) (s : Accounts) : Prop :=
  Run (Guarded AccountStep fun s _ => AccountsKept d.superBlock s) ⟨d, 0, 0⟩ ops s ∧ AccountsKept d.superBlock s

section AlwaysKept

variable {d : Drive}

theorem AlwaysKept.cover (hcount : Counted d.superBlock ⟨d, 0, 0⟩) (h : AlwaysKept d ops s) :
    AccountsCover d.superBlock s := by
  obtain ⟨hrun, hkept⟩ := h
  induction hrun with
  | nil => exact ⟨rfl, Nat.zero_le _, hkept.within⟩
  | @snoc s₁ s₂ ops op hfirst hlast ih =>
    obtain ⟨hstep, hbefore⟩ := hlast
    have hcover := ih hbefore
    have hcount₁ := hcount.run hfirst.unguarded
    obtain ⟨hcount₂, hcases⟩ := hcount₁.step hstep
    rcases hcases with ⟨hcreated, hremoved⟩ | rfl | ⟨hcreated, hremoved⟩
    · -- a creation: `FreeSectors` is that many less, so it was not 0
      have hsectors := hkept.sectors
      refine ⟨hremoved.trans hcover.removed, ?_, hcover.sectors⟩
      rw [hremoved, hcover.removed] at hsectors
      omega
    · exact hcover
    · rw [hcover.removed] at hremoved
      exact absurd hkept (hcount₂.not_kept_of_one hremoved)

theorem AccountsCover.alwaysKept (hcount : Counted d.superBlock ⟨d, 0, 0⟩) (hrun : Run AccountStep ⟨d, 0, 0⟩ ops s)
    (h : AccountsCover d.superBlock s) : AlwaysKept d ops s := by
  induction hrun with
  | nil => exact ⟨.nil _, hcount.kept h⟩
  | @snoc s₁ s₂ ops op hfirst hlast ih =>
    have hcount₁ := hcount.run hfirst
    obtain ⟨hcount₂, hcases⟩ := hcount₁.step hlast
    have hcover : AccountsCover d.superBlock s₁ := by
      have hremoved := h.removed
      have hcreated := h.created
      refine ⟨?_, ?_, h.sectors⟩
      · rcases hcases with ⟨-, hsame⟩ | rfl | ⟨-, hmore⟩
        · omega
        · exact hremoved
        · omega
      · rcases hcases with ⟨hmore, -⟩ | rfl | ⟨hsame, -⟩
        · omega
        · exact hcreated
        · omega
    obtain ⟨hguarded, hkept⟩ := ih hcover
    exact ⟨hguarded.snoc ⟨hlast, hkept⟩, hcount₂.kept h⟩

theorem alwaysKept_iff (hcount : Counted d.superBlock ⟨d, 0, 0⟩) (hrun : Run AccountStep ⟨d, 0, 0⟩ ops s) :
    AlwaysKept d ops s ↔ AccountsCover d.superBlock s :=
  ⟨fun h => h.cover hcount, fun h => h.alwaysKept hcount hrun⟩

theorem boot_cover_iff {behind : BootStrings} {dev : BootDev} {partName : CString} {blobCnt : UInt64}
    (hpart : d.superBlock = BDiskFormatFactory.superBlock behind dev partName blobCnt) (h : Counted d.superBlock s) :
    AccountsCover d.superBlock s ↔ s.removed = 0 := by
  refine ⟨AccountsCover.removed, ?_⟩
  intro hremoved
  have hfree := h.freeCatalog
  have hdiv : d.superBlock.FreeCatalog.toNat = dev.sectorsCount.toNat / 514 := by
    rw [hpart]
    exact UInt64.toNat_div _ _
  have hsectors : d.superBlock.FreeSectors = dev.sectorsCount := by
    rw [hpart]
    rfl
  refine ⟨hremoved, ?_, ?_⟩
  · rw [hsectors]
    omega
  · rw [hpart]
    exact UInt64.le_refl _

end AlwaysKept

/-- In every run on a writable disk that was just formatted, the counters are kept in each of its states exactly
when nothing is removed and there are sectors for all that is created; where the boot loader has formatted it,
exactly when nothing is removed. -/
theorem accounts_kept_iff (d : Drive) (hro : d.fPacketReadOnly = false) (hfmt : JustFormatted d.superBlock)
    (ops : List CatalogOp) (s : Accounts) (hrun : Run AccountStep ⟨d, 0, 0⟩ ops s) :
    (AlwaysKept d ops s ↔ s.removed = 0 ∧ s.created ≤ d.superBlock.FreeSectors.toNat ∧
      d.superBlock.FreeSectors ≤ d.superBlock.SectorCount) ∧
    ((∃ behind dev partName blobCnt, d.superBlock = BDiskFormatFactory.superBlock behind dev partName blobCnt) →
      (AlwaysKept d ops s ↔ s.removed = 0)) := by
  have hcount := Counted.formatted hro hfmt
  have hiff := alwaysKept_iff hcount hrun
  refine ⟨?_, ?_⟩
  · rw [hiff]
    exact ⟨fun h => ⟨h.removed, h.created, h.sectors⟩, fun h => ⟨h.1, h.2.1, h.2.2⟩⟩
  · intro hboot
    obtain ⟨behind, dev, partName, blobCnt, hpart⟩ := hboot
    rw [hiff, boot_cover_iff hpart (hcount.run hrun)]

/-! ### A file created and removed -/

set_option maxRecDepth 4000 in
theorem createCatalog_boot :
    (createCatalog 1 bootDrive (some fileName) 0 kNeFSCatalogKindFile).map
      (fun r => r.2.map NfsCatalogStruct.hasCreated) = .ok (some false) :=
  rfl

theorem accountRun_boot : ∃ d',
    Run AccountStep ⟨bootDrive, 0, 0⟩ [.create fileName 0 kNeFSCatalogKindFile] ⟨d', 1, 0⟩ ∧
    Chain bootDrive.superBlock [⟨fileName, kNeFSCatalogKindFile⟩] d' := by
  obtain ⟨⟨d', r⟩, hcall, hr⟩ := Exec.exists_of_map createCatalog_boot
  cases r with
  | none => cases hr
  | some c =>
    have hnew : c.hasCreated = false := Option.some.inj hr
    refine ⟨d', Run.one ⟨1, c, hcall, by rw [if_neg (by simp [hnew])], rfl⟩, ?_⟩
    rcases bootDrive_formatted.formatted.chain.createCatalog_eq hcall with hnone | ⟨-, hchain⟩
    · cases hnone
    · exact hchain

theorem bootDrive_superBlock : bootDrive.superBlock = BDiskFormatFactory.superBlock .zero bootDev letterA 1 :=
  Store.get_put_same

theorem bootDrive_justFormatted : JustFormatted bootDrive.superBlock := by
  rw [bootDrive_superBlock]
  exact .boot .zero bootDev letterA 1

theorem accounts_kept_iff_file : ∃ s, Run AccountStep ⟨bootDrive, 0, 0⟩ [.create fileName 0 kNeFSCatalogKindFile] s ∧
    (AlwaysKept bootDrive [.create fileName 0 kNeFSCatalogKindFile] s ↔ s.removed = 0 ∧
      s.created ≤ bootDrive.superBlock.FreeSectors.toNat ∧
      bootDrive.superBlock.FreeSectors ≤ bootDrive.superBlock.SectorCount) ∧
    ((∃ behind dev partName blobCnt,
        bootDrive.superBlock = BDiskFormatFactory.superBlock behind dev partName blobCnt) →
      (AlwaysKept bootDrive [.create fileName 0 kNeFSCatalogKindFile] s ↔ s.removed = 0)) := by
  obtain ⟨d', hrun, -⟩ := accountRun_boot
  exact ⟨_, hrun, accounts_kept_iff bootDrive rfl bootDrive_justFormatted _ _ hrun⟩

/-- After `CreateCatalog("/ab")` and `RemoveCatalog("/ab")` one catalog is missing from the sum. -/
theorem removed_not_refunded : ∃ s, JustFormatted bootDrive.superBlock ∧
    Run AccountStep ⟨bootDrive, 0, 0⟩ [.create fileName 0 kNeFSCatalogKindFile, .remove fileName] s ∧
    s.drive.superBlock.CatalogCount + s.drive.superBlock.FreeCatalog + 1 =
      bootDrive.superBlock.CatalogCount + bootDrive.superBlock.FreeCatalog ∧
    ¬AccountsKept bootDrive.superBlock s := by
  obtain ⟨d', hrun, hchain⟩ := accountRun_boot
  obtain ⟨d'', -, hremove⟩ := hchain.removeCatalog_returns (by decide : fileName ≠ kNeFSRoot)
    ⟨_, List.mem_singleton_self _, rfl⟩
  have hboth : Run AccountStep ⟨bootDrive, 0, 0⟩ [.create fileName 0 kNeFSCatalogKindFile, .remove fileName]
      ⟨d'', 1, 1⟩ := hrun.snoc ⟨2, hremove 2 (by decide), rfl, rfl⟩
  have hcount := (Counted.formatted rfl bootDrive_justFormatted).run hboth
  exact ⟨_, bootDrive_justFormatted, hboth, hcount.sum, hcount.not_kept_of_one rfl⟩

end OpenNE

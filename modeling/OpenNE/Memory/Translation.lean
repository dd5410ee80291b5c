import OpenNE.Base.LastWrite
import OpenNE.Memory.PageStore

/-!
# What `mm_map_page` does to the translations of the processor

Whatever entry a call arrives at, it changes four bits of the word: the entry becomes present, and its three rights are
those of the flags. It is never made absent and leads where it led. So an address that is translated stays translated,
and to the same place, over any run of calls (`mapping_run`), whatever else is wrong with the walk.
-/

namespace OpenNE

/-! ### One entry -/

/-- The entry present, with the rights of the flags. -/
def withRights (flags : UInt32) (entry : UInt64) : UInt64 :=
  setPteField pteUser (flags &&& kMMFlagsUser != 0) (setPteField pteExecDisable (flags &&& kMMFlagsNX != 0)
    (setPteField pteWr (flags &&& kMMFlagsWr != 0) (setPteField ptePresent true entry)))

section Entry

variable {flags flags' mask : UInt32} {entry field m : UInt64} {on : Bool}

theorem applyFlag_eq (hflags : flags ≠ 0) :
    applyFlag flags mask field entry = setPteField field (flags &&& mask != 0) entry := by
  unfold applyFlag
  by_cases hmask : flags &&& mask = 0
  · have hother : flags &&& ~~~mask ≠ 0 := by
      intro hother
      apply hflags
      have hall : flags &&& (mask ||| ~~~mask) = (flags &&& mask) ||| (flags &&& ~~~mask) :=
        UInt32.toBitVec_inj.mp BitVec.and_or_distrib_left
      rwa [UInt32.or_not_self, UInt32.and_neg_one, hmask, hother] at hall
    rw [if_neg (not_not.mpr hmask), if_pos hother, hmask]
    rfl
  · have hset : (flags &&& mask != 0) = true := bne_iff_ne.mpr hmask
    rw [if_pos hmask, hset]

theorem mapEntry_eq (hflags : flags ≠ 0) : mapEntry flags entry = withRights flags entry := by
  unfold mapEntry withRights
  rw [applyFlag_eq hflags, applyFlag_eq hflags, applyFlag_eq hflags]

theorem getLsbD_setPteField {i : Nat} (hi : i < 64) :
    (setPteField field on entry).toBitVec.getLsbD i =
      if field.toBitVec.getLsbD i then on else entry.toBitVec.getLsbD i := by
  unfold setPteField
  cases on with
  | true =>
    rw [if_pos rfl, UInt64.toBitVec_or, BitVec.getLsbD_or]
    cases field.toBitVec.getLsbD i <;> simp
  | false =>
    rw [if_neg Bool.false_ne_true, UInt64.toBitVec_and, UInt64.toBitVec_not, BitVec.getLsbD_and, BitVec.getLsbD_not,
      decide_eq_true hi]
    cases field.toBitVec.getLsbD i <;> simp

theorem withRights_withRights : withRights flags' (withRights flags entry) = withRights flags' entry := by
  apply UInt64.toBitVec_inj.mp
  apply BitVec.eq_of_getLsbD_eq
  intro i hi
  unfold withRights
  simp only [getLsbD_setPteField hi]
  split_ifs <;> rfl

theorem and_or_right (a b c : UInt64) : (a ||| b) &&& c = (a &&& c) ||| (b &&& c) :=
  UInt64.toBitVec_inj.mp BitVec.and_or_distrib_right

theorem setPteField_and (hm : field &&& m = 0) : setPteField field on entry &&& m = entry &&& m := by
  unfold setPteField
  cases on with
  | true => rw [if_pos rfl, and_or_right, hm, UInt64.or_zero]
  | false =>
    have hall := and_or_right (~~~field) field m
    rw [UInt64.not_or_self, UInt64.neg_one_and, hm, UInt64.or_zero] at hall
    rw [if_neg Bool.false_ne_true, UInt64.and_assoc, ← hall]

theorem withRights_and (hm : (ptePresent ||| pteWr ||| pteUser ||| pteExecDisable) &&& m = 0) :
    withRights flags entry &&& m = entry &&& m := by
  rw [and_or_right, and_or_right, and_or_right, UInt64.or_eq_zero_iff, UInt64.or_eq_zero_iff,
    UInt64.or_eq_zero_iff] at hm
  obtain ⟨⟨⟨hpresent, hwr⟩, huser⟩, hexec⟩ := hm
  unfold withRights
  rw [setPteField_and huser, setPteField_and hexec, setPteField_and hwr, setPteField_and hpresent]

theorem withRights_present : withRights flags entry &&& ptePresent ≠ 0 := by
  unfold withRights
  rw [setPteField_and (by decide), setPteField_and (by decide), setPteField_and (by decide), setPteField, if_pos rfl,
    and_or_right]
  intro h
  exact absurd (UInt64.or_eq_zero_iff.mp h).2 (by decide)

end Entry

/-! ### The processor -/

namespace Walk

/-- Bit 7 of an upper entry: it stands for a page. -/
def pteLarge : UInt64 := 0x80

/-- A level of the walk: where its nine bits of the address start, and whether an entry of it can stand for a page. -/
structure Level where
  shift : UInt64
  large : Bool

def levels : List Level := [⟨39, false⟩, ⟨30, true⟩, ⟨21, true⟩, ⟨12, false⟩]

/-- The page an entry leads to, with the bits of the address that are left. -/
def page (entry virtualAddress shift : UInt64) : UInt64 :=
  let offset := (1 <<< shift) - 1
  (entry &&& tableMask &&& ~~~offset) ||| (virtualAddress &&& offset)

def translateFrom (tables : Store) (virtualAddress : UInt64) : List Level → UInt64 → Option UInt64
  | [], _ => none
  | level :: levels, table =>
    let entry := tables.get Codec.u64 (entryAddr table virtualAddress level.shift).toNat
    if entry &&& ptePresent = 0 then none
    else if levels.isEmpty ∨ level.large ∧ entry &&& pteLarge ≠ 0 then some (page entry virtualAddress level.shift)
    else translateFrom tables virtualAddress levels (entry &&& tableMask)

/-- Where the address lies, if the tables of CR3 map it. -/
def translate (tables : Store) (cr3 virtualAddress : UInt64) : Option UInt64 :=
  if Canonical virtualAddress then translateFrom tables virtualAddress levels (cr3 &&& tableMask) else none

/-- No entry has become absent, and each leads where it did. -/
structure Keeps (tables tables' : Store) (addr : Nat) : Prop where
  present : tables.get Codec.u64 addr &&& ptePresent ≠ 0 → tables'.get Codec.u64 addr &&& ptePresent ≠ 0
  table : tables'.get Codec.u64 addr &&& tableMask = tables.get Codec.u64 addr &&& tableMask
  large : tables'.get Codec.u64 addr &&& pteLarge = tables.get Codec.u64 addr &&& pteLarge

theorem entryAddr_aligned (x virtualAddress shift : UInt64) :
    (entryAddr (x &&& tableMask) virtualAddress shift).toNat % 8 = 0 := by
  have hlow : (x &&& tableMask) &&& 7 = 0 := by
    have hmask : tableMask &&& 7 = 0 := by decide
    rw [UInt64.and_assoc, hmask, UInt64.and_zero]
  have htable : (x &&& tableMask).toNat % 8 = 0 := by
    have hmod := congrArg UInt64.toNat hlow
    have hseven : (7 : UInt64).toNat = 2 ^ 3 - 1 := rfl
    rwa [UInt64.toNat_and, hseven, Nat.and_two_pow_sub_one_eq_mod] at hmod
  have height : (8 : UInt64).toNat = 8 := rfl
  unfold entryAddr
  rw [UInt64.toNat_add, UInt64.toNat_mul, height]
  omega

theorem translateFrom_keeps {tables tables' : Store} (hkeeps : ∀ addr, addr % 8 = 0 → Keeps tables tables' addr)
    {virtualAddress pa : UInt64} (levels : List Level) (x : UInt64)
    (h : translateFrom tables virtualAddress levels (x &&& tableMask) = some pa) :
    translateFrom tables' virtualAddress levels (x &&& tableMask) = some pa := by
  induction levels generalizing x with
  | nil => exact h
  | cons level levels ih =>
    obtain ⟨hpresent, htable, hlarge⟩ := hkeeps _ (entryAddr_aligned x virtualAddress level.shift)
    unfold translateFrom at h ⊢
    dsimp only at h ⊢
    by_cases habsent : tables.get Codec.u64 (entryAddr (x &&& tableMask) virtualAddress level.shift).toNat &&&
        ptePresent = 0
    · rw [if_pos habsent] at h
      cases h
    · rw [if_neg habsent] at h
      rw [if_neg (hpresent habsent), hlarge, page, htable]
      split_ifs at h ⊢ with hpage
      · exact h
      · exact ih _ h

theorem translate_keeps {tables tables' : Store} (hkeeps : ∀ addr, addr % 8 = 0 → Keeps tables tables' addr)
    {cr3 virtualAddress pa : UInt64} (h : translate tables cr3 virtualAddress = some pa) :
    translate tables' cr3 virtualAddress = some pa := by
  unfold translate at h ⊢
  split_ifs at h ⊢
  exact translateFrom_keeps hkeeps levels cr3 h

end Walk

/-! ### Runs -/

/-- The flags of a call. -/
def PagingOp.flags : PagingOp → UInt32
  | .writeCr3 _ => 0
  | .mapPage _ flags => flags

namespace Paging

def call (pg : Paging) : PagingOp → Paging
  | .writeCr3 cr3 => { pg with cr3 := cr3 }
  | .mapPage virtualAddress flags => (mmMapPage virtualAddress flags pg).2

/-- The entry for the address: the remembered one or the one looked up. -/
def entryFor (pg : Paging) (virtualAddress : UInt64) : UInt64 :=
  if pg.pageStore.fVAddr = virtualAddress then pg.pageStore.fPte else pg.entryPointer virtualAddress

/-- The entry a call maps. -/
def maps (pg : Paging) : PagingOp → Option UInt64
  | .writeCr3 _ => none
  | .mapPage virtualAddress flags =>
    if (virtualAddress = 0 ∨ flags = 0) ∨ pg.entryFor virtualAddress = 0 then none
    else some (pg.entryFor virtualAddress)

theorem mmMapPage_entryFor {pg : Paging} {virtualAddress : UInt64} {flags : UInt32} (hva : virtualAddress ≠ 0)
    (hflags : flags ≠ 0) : ∃ pdEntry pg', pg'.tables = pg.tables ∧ mmMapPage virtualAddress flags pg =
      mmiMapPageTableEntry virtualAddress flags (pg.entryFor virtualAddress) pdEntry pg' := by
  unfold entryFor
  by_cases hhit : pg.pageStore.fVAddr = virtualAddress
  · rw [if_pos hhit]
    have hcall := mmMapPage_hit ⟨hva, hflags, hhit⟩
    refine ⟨_, _, ?_, hcall⟩
    rfl
  · rw [if_neg hhit]
    have hcall := mmMapPage_miss hva hflags hhit
    refine ⟨_, _, ?_, hcall⟩
    rfl

theorem call_cases (pg : Paging) (op : PagingOp) :
    pg.maps op = none ∧ (pg.call op).tables = pg.tables ∨
      ∃ entry, pg.maps op = some entry ∧ (pg.call op).tables =
        pg.tables.put Codec.u64 entry.toNat (withRights op.flags (pg.tables.get Codec.u64 entry.toNat)) := by
  cases op with
  | writeCr3 cr3 => exact .inl ⟨rfl, rfl⟩
  | mapPage virtualAddress flags =>
    unfold maps call
    dsimp only
    by_cases hargs : virtualAddress = 0 ∨ flags = 0
    · rw [mmMapPage, if_pos hargs, if_pos (Or.inl hargs)]
      exact .inl ⟨rfl, rfl⟩
    · obtain ⟨hva, hflags⟩ := not_or.mp hargs
      obtain ⟨pdEntry, pg', htables, hcall⟩ := mmMapPage_entryFor hva hflags
      by_cases hnull : pg.entryFor virtualAddress = 0
      · rw [hcall, hnull, mmiMapPageTableEntry_null, if_pos (Or.inr rfl)]
        exact .inl ⟨rfl, htables⟩
      · rw [hcall, mmiMapPageTableEntry_mapped hnull, mapped, htables, mapEntry_eq hflags,
          if_neg (not_or.mpr ⟨hargs, hnull⟩)]
        exact .inr ⟨_, rfl, rfl⟩

end Paging

/-- A call, and the entry it maps. -/
def PageMapStep (pg : Paging) (op : PagingOp × Option UInt64) (pg' : Paging) : Prop :=
  pg.maps op.1 = op.2 ∧ pg' = pg.call op.1

/-- The entry the call maps is a whole word of the tables. -/
def MapsWord (_ : Paging) (op : PagingOp × Option UInt64) : Prop := ∀ entry, op.2 = some entry → entry.toNat % 8 = 0

/-- The call maps the entry at `addr`. -/
def MapsAt (addr : Nat) (op : PagingOp × Option UInt64) : Prop := op.2.map UInt64.toNat = some addr

instance (addr : Nat) : DecidablePred (MapsAt addr) := fun op =>
  inferInstanceAs (Decidable (op.2.map UInt64.toNat = some addr))

section Runs

variable {pg pg' : Paging} {op : PagingOp × Option UInt64} {addr : Nat}

theorem PageMapStep.get_mapped (h : PageMapStep pg op pg') (hop : MapsAt addr op) :
    pg'.tables.get Codec.u64 addr = withRights op.1.flags (pg.tables.get Codec.u64 addr) := by
  obtain ⟨hmaps, rfl⟩ := h
  unfold MapsAt at hop
  rcases pg.call_cases op.1 with ⟨hnone, -⟩ | ⟨entry, hsome, htables⟩
  · rw [← hmaps, hnone] at hop
    cases hop
  · rw [← hmaps, hsome] at hop
    obtain rfl := Option.some.inj hop
    rw [htables, Store.get_put_same]

theorem PageMapStep.get_other (h : Guarded PageMapStep MapsWord pg op pg') (haddr : addr % 8 = 0)
    (hop : ¬MapsAt addr op) : pg'.tables.get Codec.u64 addr = pg.tables.get Codec.u64 addr := by
  obtain ⟨⟨hmaps, rfl⟩, hword⟩ := h
  unfold MapsAt at hop
  rcases pg.call_cases op.1 with ⟨-, htables⟩ | ⟨entry, hsome, htables⟩
  · rw [htables]
  · have haligned := hword entry (hmaps.symm.trans hsome)
    have hne : entry.toNat ≠ addr := by
      rintro rfl
      rw [← hmaps, hsome] at hop
      exact hop rfl
    have hsize : Codec.u64.size = 8 := rfl
    rw [htables]
    apply Store.get_put_disjoint
    omega

theorem keeps_withRights {tables tables' : Store} {flags : UInt32}
    (h : tables'.get Codec.u64 addr = withRights flags (tables.get Codec.u64 addr)) :
    Walk.Keeps tables tables' addr := by
  refine ⟨fun _ => ?_, ?_, ?_⟩
  · rw [h]
    exact withRights_present
  · rw [h, withRights_and (by decide)]
  · rw [h, withRights_and (by decide)]

/-- Over a run of calls and changes of CR3, a word of the tables gets the rights of the last call that maps it and is
left alone by the others, and an address that tables translate is translated to the same place behind the run. -/
theorem mapping_run {ops : List (PagingOp × Option UInt64)} (hrun : Run (Guarded PageMapStep MapsWord) pg ops pg') :
    (∀ addr, addr % 8 = 0 → pg'.tables.get Codec.u64 addr = (lastWrite (MapsAt addr) ops).elim
      (pg.tables.get Codec.u64 addr) fun op => withRights op.1.flags (pg.tables.get Codec.u64 addr)) ∧
    ∀ cr3 virtualAddress pa, Walk.translate pg.tables cr3 virtualAddress = some pa →
      Walk.translate pg'.tables cr3 virtualAddress = some pa := by
  have hwords : ∀ addr, addr % 8 = 0 → pg'.tables.get Codec.u64 addr = (lastWrite (MapsAt addr) ops).elim
      (pg.tables.get Codec.u64 addr) fun op => withRights op.1.flags (pg.tables.get Codec.u64 addr) := by
    intro addr haddr
    apply hrun.last_write (fun pg => pg.tables.get Codec.u64 addr) fun entry op => withRights op.1.flags entry
    · intro entry op op' _ _
      exact withRights_withRights
    · intro pg op pg' hstep hop
      exact hstep.1.get_mapped hop
    · intro pg op pg' hstep hop
      exact PageMapStep.get_other hstep haddr hop
  refine ⟨hwords, fun cr3 virtualAddress pa => Walk.translate_keeps fun addr haddr => ?_⟩
  have hword := hwords addr haddr
  cases hlast : lastWrite (MapsAt addr) ops with
  | none =>
    rw [hlast, Option.elim_none] at hword
    exact ⟨fun h => hword.symm ▸ h, by rw [hword], by rw [hword]⟩
  | some op =>
    rw [hlast, Option.elim_some] at hword
    exact keeps_withRights hword

end Runs

/-- Tables of four levels that map the page at `0x1000` to the one at `0x5000`, with the pointer that `mm_map_page`
follows for it. -/
def onePage : Paging where
  cr3 := 0x1000
  tables :=
    let tables : Store := fun _ => 0
    let tables := tables.put Codec.u64 0x1000 0x2001
    let tables := tables.put Codec.u64 0x2000 0x3001
    let tables := tables.put Codec.u64 0x3000 0x4001
    let tables := tables.put Codec.u64 0x4008 0x5001
    tables.put Codec.u64 0x9040 0x4008
  pageStore := {}

/-- The page made writable, then made a user page: it is not writable any more, and stands where it stood. -/
theorem mapping_run_onePage : ∃ pg', Run (Guarded PageMapStep MapsWord) onePage
      [(.mapPage 0x1000 kMMFlagsWr, some 0x4008), (.mapPage 0x1000 kMMFlagsUser, some 0x4008)] pg' ∧
    pg'.tables.get Codec.u64 0x4008 = 0x5005 ∧ Walk.translate pg'.tables 0x1000 0x1234 = some 0x5234 := by
  have hfirst : Guarded PageMapStep MapsWord onePage (.mapPage 0x1000 kMMFlagsWr, some 0x4008) _ :=
    ⟨⟨by decide, rfl⟩, fun _ h => Option.some.inj h ▸ by decide⟩
  have hsecond : Guarded PageMapStep MapsWord (onePage.call (.mapPage 0x1000 kMMFlagsWr))
      (.mapPage 0x1000 kMMFlagsUser, some 0x4008) _ :=
    ⟨⟨by decide, rfl⟩, fun _ h => Option.some.inj h ▸ by decide⟩
  obtain ⟨hwords, htranslations⟩ := mapping_run ((Run.one hfirst).snoc hsecond)
  refine ⟨_, (Run.one hfirst).snoc hsecond, ?_, htranslations _ _ _ (by decide)⟩
  rw [hwords 0x4008 (by decide)]
  decide

end OpenNE

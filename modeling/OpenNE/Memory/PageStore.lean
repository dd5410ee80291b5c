import OpenNE.Base.Run
import OpenNE.Base.Span
import OpenNE.Memory.PageWalk

/-!
# The page store

`mm_map_page` remembers the entry it mapped last, under the virtual address alone. A call for this address takes
the remembered entry, whatever CR3 is by then: it is the one the tables in force lead to only when the pointer
in them is the one that was followed (`transparent_iff`). That is so as long as CR3 points to the table it pointed
to (`Remembers`).
-/

namespace OpenNE

inductive PagingOp where
  | writeCr3 (cr3 : UInt64)
  | mapPage (virtualAddress : UInt64) (flags : UInt32)

/-- `mm_map_page` without the test of the store. -/
def mmMapPageUncached (virtualAddress : UInt64) (flags : UInt32) (pg : Paging) : Int32 × Paging :=
  if virtualAddress = 0 ∨ flags = 0 then (0, pg)
  else
    mmiMapPageTableEntry virtualAddress flags (pg.entryPointer virtualAddress) (tableBase pg.cr3)
      { pg with pageStore := { pg.pageStore with fStoreOp := true } }

/-- The call updates the entry the uncached path would. -/
structure Transparent (virtualAddress : UInt64) (flags : UInt32) (pg : Paging) : Prop where
  returns : (mmMapPage virtualAddress flags pg).1 = (mmMapPageUncached virtualAddress flags pg).1
  tables : (mmMapPage virtualAddress flags pg).2.tables = (mmMapPageUncached virtualAddress flags pg).2.tables
  entry : (mmMapPage virtualAddress flags pg).2.pageStore.fPte =
    (mmMapPageUncached virtualAddress flags pg).2.pageStore.fPte

/-- The call is for the address that is remembered. -/
def Paging.Hit (pg : Paging) (virtualAddress : UInt64) (flags : UInt32) : Prop :=
  virtualAddress ≠ 0 ∧ flags ≠ 0 ∧ pg.pageStore.fVAddr = virtualAddress

section Calls

variable {virtualAddress : UInt64} {flags : UInt32} {pg : Paging}

theorem mmMapPage_hit (h : pg.Hit virtualAddress flags) :
    mmMapPage virtualAddress flags pg =
      mmiMapPageTableEntry virtualAddress flags pg.pageStore.fPte pg.pageStore.fPde
        { pg with pageStore := { pg.pageStore with fStoreOp := false } } := by
  obtain ⟨hva, hflags, hhit⟩ := h
  have hargs : ¬ (virtualAddress = 0 ∨ flags = 0) := by
    rintro (h | h)
    · exact hva h
    · exact hflags h
  unfold mmMapPage
  rw [if_neg hargs]
  simp only
  rw [if_pos hhit]
  simp only [hhit]

theorem mmMapPage_of_not_hit (h : ¬ pg.Hit virtualAddress flags) :
    mmMapPage virtualAddress flags pg = mmMapPageUncached virtualAddress flags pg := by
  unfold mmMapPageUncached
  by_cases hargs : virtualAddress = 0 ∨ flags = 0
  · rw [if_pos hargs, mmMapPage, if_pos hargs]
  · rw [if_neg hargs]
    rw [not_or] at hargs
    apply mmMapPage_miss hargs.1 hargs.2
    intro hhit
    exact h ⟨hargs.1, hargs.2, hhit⟩

theorem mmMapPageUncached_of_hit (h : pg.Hit virtualAddress flags) :
    mmMapPageUncached virtualAddress flags pg =
      mmiMapPageTableEntry virtualAddress flags (pg.entryPointer virtualAddress) (tableBase pg.cr3)
        { pg with pageStore := { pg.pageStore with fStoreOp := true } } := by
  apply if_neg
  rintro (hva | hflags)
  · exact h.1 hva
  · exact h.2.1 hflags

theorem transparent_iff (hnull : pg.pageStore.fVAddr ≠ 0 → pg.pageStore.fPte ≠ 0) :
    Transparent virtualAddress flags pg ↔
      (pg.Hit virtualAddress flags → pg.entryPointer virtualAddress = pg.pageStore.fPte) := by
  by_cases hhit : pg.Hit virtualAddress flags
  · have hpte : pg.pageStore.fPte ≠ 0 := by
      apply hnull
      rw [hhit.2.2]
      exact hhit.1
    have hcall := mmMapPage_hit hhit
    rw [mmiMapPageTableEntry_mapped hpte] at hcall
    have huncached := mmMapPageUncached_of_hit hhit
    constructor
    · intro htrans _
      by_cases hpointer : pg.entryPointer virtualAddress = 0
      · have hret := htrans.returns
        rw [hcall, huncached, hpointer, mmiMapPageTableEntry_null] at hret
        cases hret
      · have hentry := htrans.entry
        rw [hcall, huncached, mmiMapPageTableEntry_mapped hpointer] at hentry
        exact hentry.symm
    · intro hsame
      rw [hsame hhit, mmiMapPageTableEntry_mapped hpte] at huncached
      refine ⟨?_, ?_, ?_⟩
      all_goals rw [hcall, huncached]
      all_goals rfl
  · have hcall := mmMapPage_of_not_hit hhit
    refine iff_of_true ⟨?_, ?_, ?_⟩ fun h => absurd h hhit
    all_goals rw [hcall]

theorem mmMapPage_cases (virtualAddress : UInt64) (flags : UInt32) (pg : Paging) :
    ((mmMapPage virtualAddress flags pg).2.tables = pg.tables ∧
        (mmMapPage virtualAddress flags pg).2.pageStore.fVAddr = pg.pageStore.fVAddr ∧
        (mmMapPage virtualAddress flags pg).2.pageStore.fPte = pg.pageStore.fPte) ∨
    (pg.Hit virtualAddress flags ∧ ∃ pdEntry,
        (mmMapPage virtualAddress flags pg).2 = pg.mapped virtualAddress flags pg.pageStore.fPte pdEntry ∧
        pg.pageStore.fPte ≠ 0) ∨
    (pg.pageStore.fVAddr ≠ virtualAddress ∧ ∃ pdEntry,
        (mmMapPage virtualAddress flags pg).2 =
          pg.mapped virtualAddress flags (pg.entryPointer virtualAddress) pdEntry ∧
        pg.entryPointer virtualAddress ≠ 0) := by
  by_cases hhit : pg.Hit virtualAddress flags
  · rw [mmMapPage_hit hhit]
    by_cases hpte : pg.pageStore.fPte = 0
    · rw [hpte, mmiMapPageTableEntry_null]
      exact Or.inl ⟨rfl, rfl, hpte⟩
    · rw [mmiMapPageTableEntry_mapped hpte]
      exact Or.inr (Or.inl ⟨hhit, pg.pageStore.fPde, rfl, hpte⟩)
  · rw [mmMapPage_of_not_hit hhit]
    by_cases hargs : virtualAddress = 0 ∨ flags = 0
    · rw [mmMapPageUncached, if_pos hargs]
      exact Or.inl ⟨rfl, rfl, rfl⟩
    · rw [mmMapPageUncached, if_neg hargs]
      by_cases hpointer : pg.entryPointer virtualAddress = 0
      · rw [hpointer, mmiMapPageTableEntry_null]
        exact Or.inl ⟨rfl, rfl, rfl⟩
      · rw [mmiMapPageTableEntry_mapped hpointer]
        rw [not_or] at hargs
        have hmiss : pg.pageStore.fVAddr ≠ virtualAddress := by
          intro h
          exact hhit ⟨hargs.1, hargs.2, h⟩
        exact Or.inr (Or.inr ⟨hmiss, tableBase pg.cr3, rfl, hpointer⟩)

/-- The word of the entry at `pte`; a null entry is left alone. -/
def entryWords (pte : UInt64) : List Span := if pte = 0 then [] else [⟨pte.toNat, 8⟩]

/-- The words of memory that a call reads and writes. -/
def Paging.words (pg : Paging) (virtualAddress : UInt64) : List Span :=
  if virtualAddress = 0 then []
  else if pg.pageStore.fVAddr = virtualAddress then entryWords pg.pageStore.fPte
  else ⟨(pointerAddr (tableBase pg.cr3) virtualAddress).toNat, 8⟩ :: entryWords (pg.entryPointer virtualAddress)

theorem mem_entryWords {pte : UInt64} (h : pte ≠ 0) : ⟨pte.toNat, 8⟩ ∈ entryWords pte := by
  rw [entryWords, if_neg h]
  exact List.mem_singleton_self _

theorem mmMapPage_null (flags : UInt32) (pg : Paging) : mmMapPage 0 flags pg = (0, pg) := if_pos (.inl rfl)

theorem mmMapPage_outside {a : Nat} (h : ∀ w ∈ pg.words virtualAddress, a ∉ w) :
    (mmMapPage virtualAddress flags pg).2.tables a = pg.tables a := by
  by_cases hva : virtualAddress = 0
  · rw [hva, mmMapPage_null]
  rw [Paging.words, if_neg hva] at h
  have hkept : ∀ {pte pdEntry : UInt64}, pte ≠ 0 → (∀ w ∈ entryWords pte, a ∉ w) →
      (pg.mapped virtualAddress flags pte pdEntry).tables a = pg.tables a := by
    intro pte pdEntry hpte hwords
    have hword := hwords _ (mem_entryWords hpte)
    simp only [Span.mem_def] at hword
    apply Store.put_apply_outside
    show a < pte.toNat ∨ pte.toNat + 8 ≤ a
    omega
  rcases mmMapPage_cases virtualAddress flags pg with
    ⟨htables, -⟩ | ⟨hhit, pdEntry, hcall, hpte⟩ | ⟨hmiss, pdEntry, hcall, hpte⟩
  · rw [htables]
  · rw [if_pos hhit.2.2] at h
    rw [hcall]
    exact hkept hpte h
  · rw [if_neg hmiss] at h
    rw [hcall]
    exact hkept hpte fun w hw => h w (List.mem_cons_of_mem _ hw)

theorem Paging.words_congr {pg' : Paging} (hcr3 : pg'.cr3 = pg.cr3) (hstore : pg'.pageStore = pg.pageStore)
    (hsame : ∀ w ∈ pg.words virtualAddress, ∀ a ∈ w, pg'.tables a = pg.tables a) :
    pg'.words virtualAddress = pg.words virtualAddress := by
  unfold Paging.words at hsame ⊢
  rw [hstore, hcr3]
  by_cases hva : virtualAddress = 0
  · rw [if_pos hva, if_pos hva]
  rw [if_neg hva] at hsame
  rw [if_neg hva, if_neg hva]
  by_cases hhit : pg.pageStore.fVAddr = virtualAddress
  · rw [if_pos hhit, if_pos hhit]
  · rw [if_neg hhit] at hsame
    rw [if_neg hhit, if_neg hhit]
    have hpointer : pg'.entryPointer virtualAddress = pg.entryPointer virtualAddress := by
      unfold Paging.entryPointer
      rw [hcr3]
      apply Store.get_congr
      intro a ha hlt
      exact hsame _ List.mem_cons_self a ⟨ha, hlt⟩
    rw [hpointer]

end Calls

/-! ### Runs -/

/-- The paging state, and the table CR3 pointed to when the remembered entry was looked up. -/
structure PagingTrace where
  paging : Paging
  base : UInt64

namespace PagingTrace

/-- One call. -/
def step (s : PagingTrace) : PagingOp → PagingTrace
  | .writeCr3 cr3 => { s with paging := { s.paging with cr3 := cr3 } }
  | .mapPage virtualAddress flags =>
    let paging := (mmMapPage virtualAddress flags s.paging).2
    let looked := s.paging.pageStore.fVAddr ≠ virtualAddress ∧ paging.pageStore.fVAddr = virtualAddress
    ⟨paging, if looked then tableBase s.paging.cr3 else s.base⟩

def Step (s : PagingTrace) (op : PagingOp) (s' : PagingTrace) : Prop := s' = s.step op

/-- Nothing is remembered. -/
def boot (cr3 : UInt64) (tables : Store) : PagingTrace := ⟨⟨cr3, tables, {}⟩, 0⟩

/-- The two words lie apart. -/
def Apart (a b : UInt64) : Prop := a.toNat + 8 ≤ b.toNat ∨ b.toNat + 8 ≤ a.toNat

instance (a b : UInt64) : Decidable (Apart a b) := inferInstanceAs (Decidable (_ ∨ _))

/-- CR3 points to the table it pointed to when the address was looked up, if it is the remembered one, and the entry
that is mapped does not lie over the pointer to it. -/
def Guard (s : PagingTrace) : PagingOp → Prop
  | .writeCr3 _ => True
  | .mapPage virtualAddress _ =>
    (s.paging.pageStore.fVAddr = virtualAddress → tableBase s.paging.cr3 = s.base) ∧
      Apart (s.paging.entryPointer virtualAddress) (pointerAddr (tableBase s.paging.cr3) virtualAddress)

/-- An entry is remembered with its address. -/
def NonNull (s : PagingTrace) : Prop := s.paging.pageStore.fVAddr ≠ 0 → s.paging.pageStore.fPte ≠ 0

/-- The table the address was looked up in still holds the pointer to the remembered entry. -/
structure Remembers (s : PagingTrace) : Prop where
  pointer : s.paging.pageStore.fVAddr ≠ 0 →
    s.paging.tables.get Codec.u64 (pointerAddr s.base s.paging.pageStore.fVAddr).toNat = s.paging.pageStore.fPte
  apart : s.paging.pageStore.fVAddr ≠ 0 →
    Apart s.paging.pageStore.fPte (pointerAddr s.base s.paging.pageStore.fVAddr)

variable {s s' : PagingTrace} {op : PagingOp}

theorem Step.nonNull (hs : s.NonNull) (h : Step s op s') : s'.NonNull := by
  subst h
  cases op with
  | writeCr3 cr3 => exact hs
  | mapPage virtualAddress flags =>
    show (mmMapPage virtualAddress flags s.paging).2.pageStore.fVAddr ≠ 0 →
      (mmMapPage virtualAddress flags s.paging).2.pageStore.fPte ≠ 0
    rcases mmMapPage_cases virtualAddress flags s.paging with
      ⟨-, hva, hpte⟩ | ⟨-, pd, hcall, hne⟩ | ⟨-, pd, hcall, hne⟩
    · rw [hva, hpte]
      exact hs
    · rw [hcall]
      exact fun _ => hne
    · rw [hcall]
      exact fun _ => hne

theorem mapped_get {pg : Paging} {virtualAddress ptEntry pdEntry p : UInt64} {flags : UInt32} (h : Apart ptEntry p) :
    (pg.mapped virtualAddress flags ptEntry pdEntry).tables.get Codec.u64 p.toNat = pg.tables.get Codec.u64 p.toNat :=
  Store.get_put_disjoint h.symm

theorem Remembers.of_eq {pg : Paging} {base : UInt64}
    (hpointer : pg.tables.get Codec.u64 (pointerAddr base pg.pageStore.fVAddr).toNat = pg.pageStore.fPte)
    (hapart : Apart pg.pageStore.fPte (pointerAddr base pg.pageStore.fVAddr)) : Remembers ⟨pg, base⟩ :=
  ⟨fun _ => hpointer, fun _ => hapart⟩

theorem Step.remembers (hs : s.Remembers) (h : Guarded Step Guard s op s') : s'.Remembers := by
  obtain ⟨rfl, hguard⟩ := h
  cases op with
  | writeCr3 cr3 => exact ⟨hs.pointer, hs.apart⟩
  | mapPage virtualAddress flags =>
    obtain ⟨-, hapart⟩ := hguard
    unfold step
    dsimp only
    rcases mmMapPage_cases virtualAddress flags s.paging with
      ⟨htables, hva, hpte⟩ | ⟨hhit, pd, hcall, -⟩ | ⟨hmiss, pd, hcall, -⟩
    · -- nothing was mapped
      rw [if_neg fun h => h.1 (hva.symm.trans h.2)]
      constructor
      · show (mmMapPage virtualAddress flags s.paging).2.pageStore.fVAddr ≠ 0 → _
        rw [htables, hva, hpte]
        exact hs.pointer
      · show (mmMapPage virtualAddress flags s.paging).2.pageStore.fVAddr ≠ 0 → _
        rw [hva, hpte]
        exact hs.apart
    · -- the remembered entry was mapped again
      obtain ⟨hne, -, rfl⟩ := hhit
      rw [if_neg fun h => h.1 rfl, hcall]
      apply Remembers.of_eq
      · apply Eq.trans (mapped_get (hs.apart hne))
        exact hs.pointer hne
      · exact hs.apart hne
    · -- an entry was looked up
      rw [hcall, if_pos ⟨hmiss, rfl⟩]
      apply Remembers.of_eq
      · exact mapped_get hapart
      · exact hapart

theorem nonNull_boot (cr3 : UInt64) (tables : Store) : (boot cr3 tables).NonNull := by
  intro h
  exact absurd rfl h

theorem remembers_boot (cr3 : UInt64) (tables : Store) : (boot cr3 tables).Remembers :=
  ⟨fun h => absurd rfl h, fun h => absurd rfl h⟩

theorem Remembers.entryPointer (hs : s.Remembers) {virtualAddress : UInt64} {flags : UInt32}
    (hguard : s.Guard (.mapPage virtualAddress flags)) (hhit : s.paging.Hit virtualAddress flags) :
    s.paging.entryPointer virtualAddress = s.paging.pageStore.fPte := by
  obtain ⟨hne, -, hva⟩ := hhit
  rw [Paging.entryPointer, hguard.1 hva, ← hva]
  apply hs.pointer
  rw [hva]
  exact hne

end PagingTrace

/-- In every run each call is transparent exactly if, for the remembered address, the tables in force hold the
remembered pointer; and in a run that keeps to the guard each call is. -/
theorem page_store_transparent (cr3 : UInt64) (tables : Store) (ops : List PagingOp) (s : PagingTrace)
    (virtualAddress : UInt64) (flags : UInt32) :
    (Run PagingTrace.Step (.boot cr3 tables) ops s →
      (Transparent virtualAddress flags s.paging ↔
        (s.paging.Hit virtualAddress flags → s.paging.entryPointer virtualAddress = s.paging.pageStore.fPte))) ∧
    (Run (Guarded PagingTrace.Step PagingTrace.Guard) (.boot cr3 tables) ops s →
      s.Guard (.mapPage virtualAddress flags) → Transparent virtualAddress flags s.paging) := by
  have hnonNull : ∀ {s}, Run PagingTrace.Step (.boot cr3 tables) ops s → s.NonNull := fun hrun =>
    hrun.invariant PagingTrace.NonNull (fun _ _ _ hs h => h.nonNull hs) (PagingTrace.nonNull_boot cr3 tables)
  constructor
  · intro hrun
    exact transparent_iff (hnonNull hrun)
  · intro hrun hguard
    have hremembers : s.Remembers := hrun.invariant PagingTrace.Remembers
      (fun _ _ _ hs h => PagingTrace.Step.remembers hs h) (PagingTrace.remembers_boot cr3 tables)
    have hunguarded : s.NonNull := hrun.invariant PagingTrace.NonNull
      (fun _ _ _ hs h => PagingTrace.Step.nonNull hs h.1) (PagingTrace.nonNull_boot cr3 tables)
    rw [transparent_iff hunguarded]
    exact hremembers.entryPointer hguard

/-- Two tables, at `0x1000` and at `0x2000`, with pointers for the page at `0x1000` to entries of their own. -/
def twoSpaces : Store :=
  let tables : Store := fun _ => 0
  let tables := tables.put Codec.u64 0x9040 0x20000
  tables.put Codec.u64 0x12040 0x30000

/-- The page mapped under the first table. -/
def mappedOnce : PagingTrace := (PagingTrace.boot 0x1000 twoSpaces).step (.mapPage 0x1000 kMMFlagsWr)

theorem page_store_transparent_again :
    (Transparent 0x1000 kMMFlagsUser mappedOnce.paging ↔
      (mappedOnce.paging.Hit 0x1000 kMMFlagsUser →
        mappedOnce.paging.entryPointer 0x1000 = mappedOnce.paging.pageStore.fPte)) ∧
    Transparent 0x1000 kMMFlagsUser mappedOnce.paging := by
  obtain ⟨hall, hguarded⟩ := page_store_transparent 0x1000 twoSpaces [.mapPage 0x1000 kMMFlagsWr] mappedOnce 0x1000
    kMMFlagsUser
  refine ⟨hall (.one rfl), hguarded (.one ⟨rfl, ?_⟩) ?_⟩
  · constructor
    · intro h
      exact absurd h (by decide)
    · decide
  · constructor
    · intro _
      decide
    · decide

/-- The same page mapped under the first table and then under the second: the entry of the first is updated again. -/
theorem second_space_not_updated :
    ∃ s, Run PagingTrace.Step (.boot 0x1000 twoSpaces) [.mapPage 0x1000 kMMFlagsWr, .writeCr3 0x2000] s ∧
      s.paging.entryPointer 0x1000 = 0x30000 ∧ ¬ Transparent 0x1000 kMMFlagsUser s.paging ∧
      (mmMapPage 0x1000 kMMFlagsUser s.paging).2.pageStore.fPte = 0x20000 := by
  have hfirst : Run PagingTrace.Step (.boot 0x1000 twoSpaces) [.mapPage 0x1000 kMMFlagsWr] mappedOnce := .one rfl
  refine ⟨mappedOnce.step (.writeCr3 0x2000), hfirst.snoc rfl, by decide, ?_, by decide⟩
  intro htrans
  have hentry := htrans.entry
  revert hentry
  decide

end OpenNE

import OpenNE.Memory.PageStore

/-!
# The flag of the page store (`HALKit/AMD64/HalPagingMgrAMD64.cc`, `HALKit/ARM64/HalPagingMgrARM64.cc`)

`mm_map_page` raises `fStoreOp` for the time of a call. It is lowered on a hit, and where an entry is stored. The
AMD64 version stores no null entry and leaves the flag raised then; the ARM64 version has no walk and leaves it raised
on every miss. The latter waits for the flag first, so the call behind a miss never returns
(`Arm64.mmMapPage_waits`).
-/

namespace OpenNE

/-! ### ARM64 -/

namespace Arm64

/-- `mmi_map_page_table_entry`. The flags are not used. -/
def mmiMapPageTableEntry (virtualAddress : UInt64) (_flags : UInt32) (ptEntry : UInt64) : Int32 × PageStore :=
  (0, { fPde := 0, fPte := ptEntry, fVAddr := virtualAddress, fStoreOp := false })

/-- A round of `while (page_store.fStoreOp);`. -/
def waitRound (store : PageStore) (_ : Unit) : Exec (Unit ⊕ Unit) :=
  if store.fStoreOp = true then .ok (.inl ()) else .ok (.inr ())

/-- `mm_map_page`. -/
def mmMapPage (fuel : Nat) (virtualAddress : UInt64) (flags : UInt32) (store : PageStore) :
    Exec (Int32 × PageStore) := do
  if virtualAddress = 0 ∨ flags = 0 then return (0, store)
  loop (waitRound store) fuel ()
  let store := { store with fStoreOp := true }
  if store.fVAddr = virtualAddress then
    let store := { store with fStoreOp := false }
    return mmiMapPageTableEntry store.fVAddr flags store.fPte
  return (1, store)

/-- A call. -/
def Step (store : PageStore) (op : UInt64 × UInt32) (store' : PageStore) : Prop :=
  ∃ fuel ret, mmMapPage fuel op.1 op.2 store = .ok (ret, store')

/-- Nothing to map, or the address that is remembered. -/
def ReleaseOK (store : PageStore) (op : UInt64 × UInt32) : Prop := op.1 = 0 ∨ op.2 = 0 ∨ store.fVAddr = op.1

section Calls

variable {fuel : Nat} {virtualAddress : UInt64} {flags : UInt32} {store store' : PageStore} {ret : Int32}
  {op : UInt64 × UInt32}

theorem mmMapPage_waits (hraised : store.fStoreOp = true) (hargs : ¬ (virtualAddress = 0 ∨ flags = 0)) (fuel : Nat) :
    mmMapPage fuel virtualAddress flags store = .error .unfinished := by
  have hwait : loop (waitRound store) fuel () = .error .unfinished := by
    induction fuel with
    | zero => rfl
    | succ fuel ih =>
      have hround : waitRound store () = .ok (.inl ()) := if_pos hraised
      rw [loop_succ_next hround, ih]
  rw [mmMapPage, if_neg hargs, hwait]
  rfl

theorem mmMapPage_lowered (hlowered : store.fStoreOp = false) (fuel : Nat) :
    mmMapPage (fuel + 1) virtualAddress flags store = .ok
      (if virtualAddress = 0 ∨ flags = 0 then (0, store)
      else if store.fVAddr = virtualAddress then mmiMapPageTableEntry virtualAddress flags store.fPte
      else (1, { store with fStoreOp := true })) := by
  have hround : waitRound store () = .ok (.inr ()) := if_neg (by simp [hlowered])
  rw [mmMapPage, loop_succ_leave hround]
  split_ifs with hargs hhit
  · rfl
  · subst hhit
    simp
  · simp [hhit]

theorem Step.lowered_iff (hlowered : store.fStoreOp = false) (h : Step store op store') :
    store'.fStoreOp = false ↔ ReleaseOK store op := by
  obtain ⟨fuel, ret, hcall⟩ := h
  obtain ⟨virtualAddress, flags⟩ := op
  cases fuel with
  | zero =>
    rw [mmMapPage] at hcall
    split_ifs at hcall with hargs
    · obtain ⟨-, rfl⟩ := Prod.mk.injEq .. ▸ Except.ok.inj hcall
      exact iff_of_true hlowered (hargs.imp id Or.inl)
    · cases hcall
  | succ fuel =>
    rw [mmMapPage_lowered hlowered] at hcall
    split_ifs at hcall with hargs hhit
    · obtain ⟨-, rfl⟩ := Prod.mk.injEq .. ▸ Except.ok.inj hcall
      exact iff_of_true hlowered (hargs.imp id Or.inl)
    · obtain ⟨-, rfl⟩ := Prod.mk.injEq .. ▸ Except.ok.inj hcall
      exact iff_of_true rfl (Or.inr (Or.inr hhit))
    · obtain ⟨-, rfl⟩ := Prod.mk.injEq .. ▸ Except.ok.inj hcall
      refine iff_of_false (fun h => Bool.noConfusion h) ?_
      rintro (hva | hflags | hsame)
      · exact hargs (Or.inl hva)
      · exact hargs (Or.inr hflags)
      · exact hhit hsame

end Calls

end Arm64

/-! ### AMD64 -/

inductive TableOp where
  /-- CR3 and the page tables are changed in any way -/
  | load (cr3 : UInt64) (tables : Store)
  | mapPage (virtualAddress : UInt64) (flags : UInt32)

namespace Paging

def Step (pg : Paging) (op : TableOp) (pg' : Paging) : Prop :=
  match op with
  | .load cr3 tables => pg' = { pg with cr3 := cr3, tables := tables }
  | .mapPage virtualAddress flags => pg' = (mmMapPage virtualAddress flags pg).2

/-- Nothing to map, the address that is remembered, or an entry in the tables. -/
def ReleaseOK (pg : Paging) : TableOp → Prop
  | .load _ _ => True
  | .mapPage virtualAddress flags =>
    virtualAddress = 0 ∨ flags = 0 ∨ pg.pageStore.fVAddr = virtualAddress ∨ pg.entryPointer virtualAddress ≠ 0

theorem Step.lowered_iff {pg pg' : Paging} {op : TableOp} (hlowered : pg.pageStore.fStoreOp = false)
    (h : Step pg op pg') : pg'.pageStore.fStoreOp = false ↔ pg.ReleaseOK op := by
  cases op with
  | load cr3 tables =>
    obtain rfl : pg' = { pg with cr3 := cr3, tables := tables } := h
    exact iff_of_true hlowered trivial
  | mapPage virtualAddress flags =>
    obtain rfl : pg' = (mmMapPage virtualAddress flags pg).2 := h
    by_cases hhit : pg.Hit virtualAddress flags
    · refine iff_of_true ?_ (Or.inr (Or.inr (Or.inl hhit.2.2)))
      rw [mmMapPage_hit hhit]
      by_cases hpte : pg.pageStore.fPte = 0
      · rw [hpte, mmiMapPageTableEntry_null]
      · rw [mmiMapPageTableEntry_mapped hpte]
        rfl
    · rw [mmMapPage_of_not_hit hhit, mmMapPageUncached]
      by_cases hargs : virtualAddress = 0 ∨ flags = 0
      · rw [if_pos hargs]
        exact iff_of_true hlowered (hargs.imp id Or.inl)
      · rw [if_neg hargs]
        by_cases hpointer : pg.entryPointer virtualAddress = 0
        · -- a null entry is not stored
          rw [hpointer, mmiMapPageTableEntry_null]
          refine iff_of_false (fun h => Bool.noConfusion h) ?_
          rintro (hva | hflags | hsame | hentry)
          · exact hargs (Or.inl hva)
          · exact hargs (Or.inr hflags)
          · exact hhit ⟨fun h => hargs (Or.inl h), fun h => hargs (Or.inr h), hsame⟩
          · exact hentry hpointer
        · rw [mmiMapPageTableEntry_mapped hpointer]
          exact iff_of_true rfl (Or.inr (Or.inr (Or.inr hpointer)))

end Paging

/-- From a lowered flag, on AMD64 and on ARM64: in every run whose calls meet the condition the flag is lowered
behind each call, and the call behind such a run lowers it exactly under the condition; on ARM64 that call returns. -/
theorem store_released_iff (pg pg' : Paging) (ops : List TableOp) (store store' : PageStore)
    (calls : List (UInt64 × UInt32)) :
    (pg.pageStore.fStoreOp = false → Run (Guarded Paging.Step Paging.ReleaseOK) pg ops pg' →
      pg'.pageStore.fStoreOp = false ∧
        ∀ op pg'', Paging.Step pg' op pg'' → (pg''.pageStore.fStoreOp = false ↔ pg'.ReleaseOK op)) ∧
    (store.fStoreOp = false → Run (Guarded Arm64.Step Arm64.ReleaseOK) store calls store' →
      store'.fStoreOp = false ∧ (∀ op, ∃ store'', Arm64.Step store' op store'') ∧
        ∀ op store'', Arm64.Step store' op store'' → (store''.fStoreOp = false ↔ Arm64.ReleaseOK store' op)) := by
  constructor
  · intro hlowered hrun
    exact hrun.guarded_iff (fun pg => pg.pageStore.fStoreOp = false) (fun _ _ _ h hstep => hstep.lowered_iff h)
      hlowered
  · intro hlowered hrun
    obtain ⟨hlowered', hnext⟩ := hrun.guarded_iff (fun store => store.fStoreOp = false)
      (fun _ _ _ h hstep => hstep.lowered_iff h) hlowered
    exact ⟨hlowered', fun op => ⟨_, 1, _, Arm64.mmMapPage_lowered hlowered' 0⟩, hnext⟩

/-- An entry mapped on AMD64, then a page without one; and a page on ARM64. -/
theorem store_released_iff_missing :
    (∃ pg, Run (Guarded Paging.Step Paging.ReleaseOK) ⟨0x1000, twoSpaces, {}⟩ [.mapPage 0x1000 kMMFlagsWr] pg ∧
      pg.pageStore.fStoreOp = false ∧
      ∀ pg', Paging.Step pg (.mapPage 0x5000 kMMFlagsWr) pg' → pg'.pageStore.fStoreOp ≠ false) ∧
    ∀ store, Arm64.Step {} (0x1000, kMMFlagsWr) store → store.fStoreOp ≠ false := by
  constructor
  · have hrun : Run (Guarded Paging.Step Paging.ReleaseOK) ⟨0x1000, twoSpaces, {}⟩ [.mapPage 0x1000 kMMFlagsWr] _ :=
      .one ⟨rfl, Or.inr (Or.inr (Or.inr (by decide)))⟩
    obtain ⟨hlowered, hnext⟩ := (store_released_iff _ _ _ {} {} []).1 rfl hrun
    refine ⟨_, hrun, hlowered, fun pg' hstep hkept => ?_⟩
    have hok := (hnext _ _ hstep).mp hkept
    revert hok
    unfold Paging.ReleaseOK
    decide
  · intro store hstep hkept
    obtain ⟨-, -, hnext⟩ := (store_released_iff ⟨0, fun _ => 0, {}⟩ ⟨0, fun _ => 0, {}⟩ [] {} {} []).2 rfl (.nil _)
    have hok := (hnext _ _ hstep).mp hkept
    revert hok
    unfold Arm64.ReleaseOK
    decide

/-- A page without an entry on AMD64, and any page on ARM64, where the next call waits forever. -/
theorem store_not_released :
    (mmMapPage 0x1000 kMMFlagsWr ⟨0x1000, fun _ => 0, {}⟩).2.pageStore.fStoreOp = true ∧
      ∃ store, Arm64.Step {} (0x1000, kMMFlagsWr) store ∧ store.fStoreOp = true ∧
        ∀ store', ¬ Arm64.Step store (0x1000, kMMFlagsWr) store' := by
  refine ⟨by decide, { fStoreOp := true }, ⟨1, 1, rfl⟩, rfl, ?_⟩
  rintro store' ⟨fuel, ret, hcall⟩
  rw [Arm64.mmMapPage_waits rfl (by decide)] at hcall
  cases hcall

end OpenNE

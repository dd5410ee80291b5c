import OpenNE.Memory.Paging

/-!
# The walk of `mm_map_page`

The processor reads an entry at each of four levels to find the next table. `mm_map_page` takes the address of
the entry for the entry: rounded down, it is the table it lies in, so that all four tables are the one CR3 points
to (`tableBase_entry`) and only the lowest index is left. What is mapped is the entry that a pointer in this table
leads to (`mmMapPage_miss`).
-/

namespace OpenNE

/-! ### The walk of the processor -/

namespace Walk

/-- Bits 51 to 12 of an entry, and of CR3: where the table stands. -/
def tableMask : UInt64 := 0xFFFFFFFFFF000

/-- The entry of the table at `table` for the nine bits of the address from `shift` on. -/
def entryAddr (table virtualAddress shift : UInt64) : UInt64 := table + ((virtualAddress >>> shift) &&& 0x1FF) * 8

/-- The entry that stands at `addr`. -/
def entry (pg : Paging) (addr : UInt64) : UInt64 := pg.tables.get Codec.u64 addr.toNat

variable (pg : Paging) (virtualAddress : UInt64)

def pml4Entry : UInt64 := entryAddr (pg.cr3 &&& tableMask) virtualAddress 39
def pdptEntry : UInt64 := entryAddr (entry pg (pml4Entry pg virtualAddress) &&& tableMask) virtualAddress 30
def pdEntry : UInt64 := entryAddr (entry pg (pdptEntry pg virtualAddress) &&& tableMask) virtualAddress 21

/-- The page-table entry the walk ends at. -/
def ptEntry : UInt64 := entryAddr (entry pg (pdEntry pg virtualAddress) &&& tableMask) virtualAddress 12

/-- The entries of the three upper levels are present. -/
def Present : Prop :=
  entry pg (pml4Entry pg virtualAddress) &&& ptePresent ≠ 0 ∧
    entry pg (pdptEntry pg virtualAddress) &&& ptePresent ≠ 0 ∧
    entry pg (pdEntry pg virtualAddress) &&& ptePresent ≠ 0

instance : Decidable (Present pg virtualAddress) := inferInstanceAs (Decidable (_ ∧ _ ∧ _))

/-- Bits 63 to 47 are equal. -/
def Canonical : Prop := virtualAddress.toNat < 2 ^ 47 ∨ 2 ^ 64 - 2 ^ 47 ≤ virtualAddress.toNat

instance : Decidable (Canonical virtualAddress) := inferInstanceAs (Decidable (_ ∨ _))

end Walk

/-! ### The walk of the code -/

/-- `cr3 & ~cPtIndexMask`. -/
def tableBase (cr3 : UInt64) : UInt64 := cr3 &&& ~~~0xFFF

/-- Bits 20 to 12. -/
def ptIndex (virtualAddress : UInt64) : UInt64 := (virtualAddress >>> 12) &&& 0x1FF

/-- `&pde_struct->fEntries[pt_entry]`. -/
def pointerAddr (ptBase virtualAddress : UInt64) : UInt64 := ptBase + 8 * (ptBase + ptIndex virtualAddress * 8)

/-- `pde_struct->fEntries[pt_entry]`. -/
def Paging.entryPointer (pg : Paging) (virtualAddress : UInt64) : UInt64 :=
  pg.tables.get Codec.u64 (pointerAddr (tableBase pg.cr3) virtualAddress).toNat

theorem toNat_tableBase (x : UInt64) : (x &&& ~~~0xFFF).toNat = 4096 * (x.toNat / 4096) := by
  have hmask : (~~~(0xFFF : UInt64)).toNat = 2 ^ 12 * (2 ^ 52 - 1) := rfl
  have hround : 4096 * (x.toNat / 4096) = 2 ^ 12 * (x.toNat / 2 ^ 12) := rfl
  rw [UInt64.toNat_and, hmask, hround]
  apply Nat.eq_of_testBit_eq
  intro i
  rw [Nat.testBit_and, Nat.testBit_two_pow_mul, Nat.testBit_two_pow_mul, Nat.testBit_two_pow_sub_one,
    Nat.testBit_div_two_pow]
  by_cases hlow : 12 ≤ i
  · by_cases hhigh : i < 64
    · have hin : i - 12 < 52 := by omega
      simp [hlow, hin, Nat.sub_add_cancel hlow]
    · have hpow : 2 ^ 64 ≤ 2 ^ i := Nat.pow_le_pow_right (by decide) (by omega)
      have hbit : x.toNat.testBit i = false := Nat.testBit_lt_two_pow (Nat.lt_of_lt_of_le x.toNat_lt hpow)
      simp [hbit, Nat.sub_add_cancel hlow]
  · simp [hlow]

theorem toNat_index_lt (v : UInt64) : (v &&& 0x1FF).toNat < 512 := by
  have hmask : (0x1FF : UInt64).toNat = 2 ^ 9 - 1 := rfl
  rw [UInt64.toNat_and, hmask, Nat.and_two_pow_sub_one_eq_mod]
  omega

theorem tableBase_entry (x v : UInt64) :
    ((x &&& ~~~0xFFF) + (v &&& 0x1FF) * 8) &&& ~~~0xFFF = x &&& ~~~0xFFF := by
  have hindex := toNat_index_lt v
  have hx := x.toNat_lt
  have hbase := toNat_tableBase x
  have hoffset : ((v &&& 0x1FF) * 8).toNat = (v &&& 0x1FF).toNat * 8 := by
    have height : (8 : UInt64).toNat = 8 := rfl
    rw [UInt64.toNat_mul, height]
    exact Nat.mod_eq_of_lt (by omega)
  apply UInt64.toNat_inj.mp
  rw [toNat_tableBase, UInt64.toNat_add, hoffset, hbase]
  omega

section Map

variable {virtualAddress : UInt64} {flags : UInt32} {pg : Paging}

theorem mmMapPage_miss (hva : virtualAddress ≠ 0) (hflags : flags ≠ 0)
    (hmiss : pg.pageStore.fVAddr ≠ virtualAddress) :
    mmMapPage virtualAddress flags pg =
      mmiMapPageTableEntry virtualAddress flags (pg.entryPointer virtualAddress) (tableBase pg.cr3)
        { pg with pageStore := { pg.pageStore with fStoreOp := true } } := by
  have hargs : ¬ (virtualAddress = 0 ∨ flags = 0) := by
    rintro (h | h)
    · exact hva h
    · exact hflags h
  unfold mmMapPage
  rw [if_neg hargs]
  simp only
  rw [if_neg hmiss, tableBase_entry, tableBase_entry, tableBase_entry]
  rfl

/-- The entry with the flags put on it. -/
def mapEntry (flags : UInt32) (entry : UInt64) : UInt64 :=
  let entry := setPteField ptePresent true entry
  let entry := applyFlag flags kMMFlagsWr pteWr entry
  let entry := applyFlag flags kMMFlagsNX pteExecDisable entry
  applyFlag flags kMMFlagsUser pteUser entry

/-- The entry at `ptEntry` mapped, and remembered. -/
def Paging.mapped (pg : Paging) (virtualAddress : UInt64) (flags : UInt32) (ptEntry pdEntry : UInt64) : Paging :=
  { pg with
    tables := pg.tables.put Codec.u64 ptEntry.toNat (mapEntry flags (pg.tables.get Codec.u64 ptEntry.toNat))
    pageStore := { fPde := pdEntry, fPte := ptEntry, fVAddr := virtualAddress, fStoreOp := false } }

theorem mmiMapPageTableEntry_null {pdEntry : UInt64} :
    mmiMapPageTableEntry virtualAddress flags 0 pdEntry pg = (1, pg) := if_pos rfl

theorem mmiMapPageTableEntry_mapped {ptEntry pdEntry : UInt64} (h : ptEntry ≠ 0) :
    mmiMapPageTableEntry virtualAddress flags ptEntry pdEntry pg =
      (0, pg.mapped virtualAddress flags ptEntry pdEntry) := if_neg h

/-- The call maps the entry the walk of the processor ends at, and no other. -/
structure FollowsWalk (virtualAddress : UInt64) (flags : UInt32) (pg : Paging) : Prop where
  returns : (mmMapPage virtualAddress flags pg).1 = 0
  tables : (mmMapPage virtualAddress flags pg).2.tables =
    pg.tables.put Codec.u64 (Walk.ptEntry pg virtualAddress).toNat
      (mapEntry flags (Walk.entry pg (Walk.ptEntry pg virtualAddress)))
  entry : (mmMapPage virtualAddress flags pg).2.pageStore.fPte = Walk.ptEntry pg virtualAddress
  address : (mmMapPage virtualAddress flags pg).2.pageStore.fVAddr = virtualAddress

/-- On a cache miss the call follows the walk exactly when the address is not null and the pointer found in the
table of CR3 happens to lead to the entry the walk ends at. Two addresses that agree in bits 20 to 12 lead to one
entry. -/
theorem follows_walk_iff (hflags : flags ≠ 0) (hmiss : pg.pageStore.fVAddr ≠ virtualAddress) :
    (FollowsWalk virtualAddress flags pg ↔
      virtualAddress ≠ 0 ∧ pg.entryPointer virtualAddress = Walk.ptEntry pg virtualAddress ∧
        Walk.ptEntry pg virtualAddress ≠ 0) ∧
    ∀ virtualAddress', virtualAddress ≠ 0 → virtualAddress' ≠ 0 → pg.pageStore.fVAddr ≠ virtualAddress' →
      ptIndex virtualAddress' = ptIndex virtualAddress →
        (mmMapPage virtualAddress' flags pg).2.tables = (mmMapPage virtualAddress flags pg).2.tables := by
  constructor
  · constructor
    · intro hwalk
      have hva : virtualAddress ≠ 0 := by
        rintro rfl
        have haddress := hwalk.address
        rw [mmMapPage, if_pos (Or.inl rfl)] at haddress
        exact hmiss haddress
      have hcall := mmMapPage_miss hva hflags hmiss
      by_cases hnull : pg.entryPointer virtualAddress = 0
      · have hret := hwalk.returns
        rw [hcall, hnull, mmiMapPageTableEntry_null] at hret
        cases hret
      · have hentry := hwalk.entry
        rw [hcall, mmiMapPageTableEntry_mapped hnull] at hentry
        have hsame : pg.entryPointer virtualAddress = Walk.ptEntry pg virtualAddress := hentry
        exact ⟨hva, hsame, hsame ▸ hnull⟩
    · rintro ⟨hva, hsame, hnull⟩
      have hcall := mmMapPage_miss hva hflags hmiss
      rw [hsame, mmiMapPageTableEntry_mapped hnull] at hcall
      refine ⟨?_, ?_, ?_, ?_⟩
      all_goals rw [hcall]
      all_goals rfl
  · intro virtualAddress' hva hva' hmiss' hindex
    have hpointer : pg.entryPointer virtualAddress' = pg.entryPointer virtualAddress := by
      unfold Paging.entryPointer pointerAddr
      rw [hindex]
    rw [mmMapPage_miss hva hflags hmiss, mmMapPage_miss hva' hflags hmiss', hpointer]
    by_cases hnull : pg.entryPointer virtualAddress = 0
    · rw [hnull, mmiMapPageTableEntry_null, mmiMapPageTableEntry_null]
    · rw [mmiMapPageTableEntry_mapped hnull, mmiMapPageTableEntry_mapped hnull]
      rfl

end Map

/-- Tables of four levels at `0x1000`, `0x2000`, `0x3000` and `0x4000`, the first entry of each of the upper three
present and leading to the next. -/
def fourTables : Paging where
  cr3 := 0x1000
  tables :=
    let tables : Store := fun _ => 0
    let tables := tables.put Codec.u64 0x1000 0x2001
    let tables := tables.put Codec.u64 0x2000 0x3001
    tables.put Codec.u64 0x3000 0x4001
  pageStore := {}

theorem follows_walk_iff_fourTables :
    (FollowsWalk 0x1000 kMMFlagsPresent fourTables ↔
      (0x1000 : UInt64) ≠ 0 ∧ fourTables.entryPointer 0x1000 = Walk.ptEntry fourTables 0x1000 ∧
        Walk.ptEntry fourTables 0x1000 ≠ 0) ∧
    ∀ virtualAddress', (0x1000 : UInt64) ≠ 0 → virtualAddress' ≠ 0 →
      fourTables.pageStore.fVAddr ≠ virtualAddress' → ptIndex virtualAddress' = ptIndex 0x1000 →
        (mmMapPage virtualAddress' kMMFlagsPresent fourTables).2.tables =
          (mmMapPage 0x1000 kMMFlagsPresent fourTables).2.tables :=
  follows_walk_iff (by decide) (by decide)

/-- The second page of tables that map it: the entry at `0x4008` is not found, and nothing is mapped. -/
theorem second_page_not_mapped :
    Walk.Canonical 0x1000 ∧ Walk.Present fourTables 0x1000 ∧ fourTables.pageStore.fVAddr ≠ 0x1000 ∧
      Walk.ptEntry fourTables 0x1000 = 0x4008 ∧ (mmMapPage 0x1000 kMMFlagsPresent fourTables).1 = 1 ∧
      ¬ FollowsWalk 0x1000 kMMFlagsPresent fourTables := by
  have hret : (mmMapPage 0x1000 kMMFlagsPresent fourTables).1 = 1 := by decide
  have hpresent : Walk.Present fourTables 0x1000 := by decide
  have hentry : Walk.ptEntry fourTables 0x1000 = 0x4008 := by decide
  refine ⟨by decide, hpresent, by decide, hentry, hret, ?_⟩
  intro hwalk
  rw [hwalk.returns] at hret
  cases hret

end OpenNE

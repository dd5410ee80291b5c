import OpenNE.Base.Codec

/-!
# Page-table entries (`HALKit/AMD64/HalPagingMgrAMD64.cc`)

`mm_map_page` walks from CR3 and sets the flags of the entry it arrives at, a word of the memory that the page
tables lie in.
-/

namespace OpenNE

/-! ### Flags (`HALKit/AMD64/Processor.h`) -/

def kMMFlagsPresent : UInt32 := 1
def kMMFlagsWr : UInt32 := 2
def kMMFlagsUser : UInt32 := 4
def kMMFlagsNX : UInt32 := 8

/-! ### Fields of `OPENNE_PTE` (`HALKit/AMD64/Paging.h`), as masks of the entry word -/

def ptePresent : UInt64 := 0x1
def pteWr : UInt64 := 0x2
def pteUser : UInt64 := 0x4
def pteExecDisable : UInt64 := 0x8000000000000000

/-- One field of an entry set or cleared. -/
def setPteField (field : UInt64) (on : Bool) (entry : UInt64) : UInt64 :=
  if on then entry ||| field else entry &&& ~~~field

/-- `OPENNE_PAGE_STORE`: the entry mapped last. -/
structure PageStore where
  fPde : UInt64 := 0
  fPte : UInt64 := 0
  fVAddr : UInt64 := 0
  fStoreOp : Bool := false

/-- What `mm_map_page` reads and writes. -/
structure Paging where
  cr3 : UInt64
  tables : Store
  pageStore : PageStore

/-- A field set when `flags` has its mask, cleared when `flags` has any other. -/
def applyFlag (flags mask : UInt32) (field entry : UInt64) : UInt64 :=
  if flags &&& mask ≠ 0 then setPteField field true entry
  else if flags &&& ~~~mask ≠ 0 then setPteField field false entry
  else entry

/-- `mmi_map_page_table_entry`. -/
def mmiMapPageTableEntry (virtualAddress : UInt64) (flags : UInt32) (ptEntry pdEntry : UInt64)
    (pg : Paging) : Int32 × Paging :=
  if ptEntry = 0 then (1, pg)
  else
    let entry := pg.tables.get Codec.u64 ptEntry.toNat
    let entry := setPteField ptePresent true entry
    let entry := applyFlag flags kMMFlagsWr pteWr entry
    let entry := applyFlag flags kMMFlagsNX pteExecDisable entry
    let entry := applyFlag flags kMMFlagsUser pteUser entry
    (0, { pg with
      tables := pg.tables.put Codec.u64 ptEntry.toNat entry
      pageStore :=
        { fPde := pdEntry, fPte := ptEntry, fVAddr := virtualAddress, fStoreOp := false } })

/-- `mm_map_page`. Each level's entry is the address computed for it, never the word stored there. -/
def mmMapPage (virtualAddress : UInt64) (flags : UInt32) (pg : Paging) : Int32 × Paging :=
  if virtualAddress = 0 ∨ flags = 0 then (0, pg)
  else
    let cPmlIndexMask : UInt64 := 0x1FF
    let cPtIndexMask : UInt64 := 0xFFF
    let pmlIndex := (virtualAddress >>> 39) &&& cPmlIndexMask
    let pdptIndex := (virtualAddress >>> 30) &&& cPmlIndexMask
    let pdIndex := (virtualAddress >>> 21) &&& cPmlIndexMask
    let ptIndex := (virtualAddress >>> 12) &&& cPmlIndexMask
    let pg := { pg with pageStore := { pg.pageStore with fStoreOp := true } }
    if pg.pageStore.fVAddr = virtualAddress then
      let pg := { pg with pageStore := { pg.pageStore with fStoreOp := false } }
      mmiMapPageTableEntry pg.pageStore.fVAddr flags pg.pageStore.fPte pg.pageStore.fPde pg
    else
      let cPmlEntrySize : UInt64 := 8
      let pmlBase := pg.cr3 &&& ~~~cPtIndexMask
      let pmlEntry := pmlBase + pmlIndex * cPmlEntrySize
      let pdptBase := pmlEntry &&& ~~~cPtIndexMask
      let pdptEntry := pdptBase + pdptIndex * cPmlEntrySize
      let pdBase := pdptEntry &&& ~~~cPtIndexMask
      let pdEntry := pdBase + pdIndex * cPmlEntrySize
      let ptBase := pdEntry &&& ~~~cPtIndexMask
      let ptEntry := ptBase + ptIndex * cPmlEntrySize
      -- pde_struct->fEntries[pt_entry]: an array of pointers indexed by the address of the entry
      let pte := pg.tables.get Codec.u64 (ptBase + 8 * ptEntry).toNat
      mmiMapPageTableEntry virtualAddress flags pte ptBase pg

end OpenNE

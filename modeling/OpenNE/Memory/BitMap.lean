import OpenNE.Base.Exec
import OpenNE.Memory.Paging

/-!
# The bitmap allocator (`src/BitMapMgr.cc`)

A block of the pool starts with three words: magic, size, used flag. The blocks follow each other, a
block's header at the end of the one before; behind the last one the pool is still zero.
-/

namespace OpenNE

def kPageSize : UInt64 := 0x1000

def kBitMapMagic : UInt64 := 0x10210

def kBitMapMagIdx : Nat := 0
def kBitMapSizeIdx : Nat := 1
def kBitMapUsedIdx : Nat := 2

/-- The length of a block's header: three words. -/
def bitMapHeaderSize : Nat := 24

/-- The kernel's memory, which the pool and the page tables lie in, and what the allocators keep outside of it. -/
structure Kernel where
  mem : Store
  cr3 : UInt64
  pageStore : PageStore
  kKernelBitMpStart : UInt64

/-- What `mm_map_page` sees of the kernel. -/
def Kernel.paging (k : Kernel) : Paging := ⟨k.cr3, k.mem, k.pageStore⟩

/-- `ptr_bit_set[idx]`. -/
def bitSet (mem : Store) (ptr : UInt64) (idx : Nat) : UInt64 :=
  mem.get Codec.u64 (ptr.toNat + 8 * idx)

/-- `ptr_bit_set[idx] = value`. -/
def setBitSet (mem : Store) (ptr : UInt64) (idx : Nat) (value : UInt64) : Store :=
  mem.put Codec.u64 (ptr.toNat + 8 * idx) value

/-- `IBitMapProxy::IsBitMap`, `mm_is_bitmap`. -/
def isBitMap (pagePtr : UInt64) (mem : Store) : Bool :=
  if pagePtr = 0 then false
  else if bitSet mem pagePtr kBitMapMagIdx = 0 ∨ bitSet mem pagePtr kBitMapMagIdx ≠ kBitMapMagic then false
  else true

/-- `IBitMapProxy::FreeBitMap`. -/
def freeBitMap (pagePtr : UInt64) (mem : Store) : Bool × Store :=
  if isBitMap pagePtr mem = false then (false, mem)
  else
    let mem := setBitSet mem pagePtr kBitMapMagIdx kBitMapMagic
    let mem := setBitSet mem pagePtr kBitMapUsedIdx 0
    (true, mem)

/-- `IBitMapProxy::MakeMMFlags`. -/
def makeMMFlags (wr user : Bool) : UInt32 :=
  let flags := kMMFlagsPresent
  let flags := if wr then flags ||| kMMFlagsWr else flags
  if user then flags ||| kMMFlagsUser else flags

/-- `mm_map_page`, on the kernel. -/
def Kernel.mapPage (k : Kernel) (ptr : UInt64) (flags : UInt32) : Kernel :=
  let paging := (mmMapPage ptr flags k.paging).2
  { k with mem := paging.tables, pageStore := paging.pageStore }

/-- Map the block handed out. -/
def Kernel.mapBlock (k : Kernel) (ptr : UInt64) (wr user : Bool) : Kernel :=
  k.mapPage ptr (makeMMFlags wr user)

/-- One round of the search of `FindBitMap`, at `base`. -/
def findBitMapRound (size : UInt64) (wr user : Bool) (k : Kernel) (base : UInt64) :
    Exec (UInt64 ⊕ (UInt64 × Kernel)) :=
  let next := base + (if bitSet k.mem base kBitMapMagIdx ≠ kBitMapMagic then size
    else bitSet k.mem base kBitMapSizeIdx)
  if bitSet k.mem base kBitMapMagIdx = kBitMapMagic ∧ bitSet k.mem base kBitMapSizeIdx ≤ size then
    if bitSet k.mem base kBitMapUsedIdx = 0 then
      let mem := setBitSet k.mem base kBitMapSizeIdx size
      let mem := setBitSet mem base kBitMapUsedIdx 1
      .ok (.inr (base, { k with mem := mem }.mapBlock base wr user))
    else
      .ok (.inl next)
  else if bitSet k.mem base kBitMapMagIdx ≠ kBitMapMagic then
    let mem := setBitSet k.mem base kBitMapMagIdx kBitMapMagic
    let mem := setBitSet mem base kBitMapSizeIdx size
    let mem := setBitSet mem base kBitMapUsedIdx 1
    .ok (.inr (base, { k with mem := mem }.mapBlock base wr user))
  else
    .ok (.inl next)

/-- `IBitMapProxy::FindBitMap`. -/
def findBitMap (fuel : Nat) (basePtr size : UInt64) (wr user : Bool) (k : Kernel) :
    Exec (UInt64 × Kernel) :=
  if size = 0 then .ok (0, k)
  else loop (findBitMapRound size wr user k) fuel (basePtr + kPageSize)

/-- `mm_alloc_bitmap`. -/
def mmAllocBitmap (debug : Bool) (fuel : Nat) (wr user : Bool) (size : UInt64) (k : Kernel) :
    Exec (UInt64 × Kernel) := do
  let (ptrNew, k) ← findBitMap fuel k.kKernelBitMpStart size wr user k
  mustPass debug (ptrNew ≠ 0)
  return (ptrNew, k)

/-- `mm_free_bitmap`. -/
def mmFreeBitmap (ptr : UInt64) (k : Kernel) : Bool × Kernel :=
  if ptr = 0 then (false, k)
  else
    let (ret, mem) := freeBitMap ptr k.mem
    (ret, { k with mem := mem })

end OpenNE

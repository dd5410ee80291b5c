import OpenNE.Memory.PoolRun

/-!
# The kernel heap (`src/Heap.cc`, `src/PageMgr.cc`)

A heap pointer has an information block right before it. `mm_new_heap` asks `PageMgr::Request` for the
payload and one information block, puts the information block one block's length behind the address it
got, and the payload behind that: every payload sticks out of its bitmap block (`HeapBlock.not_inside`).
-/

namespace OpenNE

def kKernelHeapMagic : UInt64 := 0xD4D7D5

/-- `__BIGGEST_ALIGNMENT__`. -/
def kKernelHeapAlignSz : Nat := 16

/-- `gib_cast(2)`. -/
def kKernelHeapMaxSize : UInt64 := 2 * 1024 * 1024 * 1024

def kErrorSuccess : Int32 := 0
def kErrorInternal : Int32 := 49
def kErrorHeapNotPresent : Int32 := 52

/-! ### Information blocks -/

/-- `HEAP_INFORMATION_BLOCK`, its bit fields packed into one byte. -/
structure HeapInformationBlock where
  fMagic : UInt64
  bits : Bytes 1
  fCRC32 : UInt32
  fFlags : UInt64
  fHeapSize : UInt64
  fHeapPtr : UInt64
  fPadding : Bytes 16

/-- The packed image. -/
def HeapInformationBlock.codec : Codec HeapInformationBlock :=
  (Codec.u64.pair <| (Codec.bytes 1).pair <| Codec.u32.pair <| Codec.u64.pair <| Codec.u64.pair <|
      Codec.u64.pair (Codec.bytes 16)).map
    (fun ⟨magic, bits, crc, flags, size, ptr, padding⟩ => ⟨magic, bits, crc, flags, size, ptr, padding⟩)
    (fun h => (h.fMagic, h.bits, h.fCRC32, h.fFlags, h.fHeapSize, h.fHeapPtr, h.fPadding))
    (fun _ => rfl) (fun _ => rfl)

/-- `sizeof(HEAP_INFORMATION_BLOCK)`. -/
def hibSize : UInt64 := 53

theorem hibSize_codec : HeapInformationBlock.codec.size = hibSize.toNat := rfl

/-- The masks of the bit fields. -/
def hibPresent : UInt8 := 1
def hibWriteRead : UInt8 := 2
def hibUser : UInt8 := 4
def hibPagePtr : UInt8 := 8

/-- A bit field assigned. -/
def HeapInformationBlock.setBit (mask : UInt8) (on : Bool) (h : HeapInformationBlock) : HeapInformationBlock :=
  { h with bits := ⟨h.bits.1.map fun b => if on then b ||| mask else b &&& ~~~mask, by simp [h.bits.2]⟩ }

/-- A bit field read. -/
def HeapInformationBlock.bit (mask : UInt8) (h : HeapInformationBlock) : Bool :=
  h.bits.1.any fun b => b &&& mask ≠ 0

/-- What `mm_new_heap` assigns. -/
def HeapInformationBlock.created (szFix heapPtr : UInt64) (wr user : Bool) (info : HeapInformationBlock) :
    HeapInformationBlock :=
  let info := { info with
    fHeapSize := szFix
    fMagic := kKernelHeapMagic
    fCRC32 := 0 -- dont fill it for now.
    fHeapPtr := heapPtr }
  let info := info.setBit hibPagePtr false
  let info := info.setBit hibWriteRead wr
  let info := info.setBit hibUser user
  info.setBit hibPresent true

/-- What `mm_delete_heap` assigns. -/
def HeapInformationBlock.released (info : HeapInformationBlock) : HeapInformationBlock :=
  let info := { info with fHeapSize := 0, fHeapPtr := 0, fCRC32 := 0, fMagic := 0 }
  let info := info.setBit hibPresent false
  let info := info.setBit hibWriteRead false
  info.setBit hibUser false

/-- `heap_info_ptr`, dereferenced. -/
def heapInfo (mem : Store) (heapInfoPtr : UInt64) : HeapInformationBlock :=
  mem.get HeapInformationBlock.codec heapInfoPtr.toNat

/-- The information block at `heapInfoPtr` written. -/
def setHeapInfo (mem : Store) (heapInfoPtr : UInt64) (h : HeapInformationBlock) : Store :=
  mem.put HeapInformationBlock.codec heapInfoPtr.toNat h

/-! ### Pages -/

/-- `PTEWrapper`. -/
structure PTEWrapper where
  fRw : Bool
  fUser : Bool
  fExecDisable : Bool
  fVirtAddr : UInt64

/-- `PageMgr::Request`. -/
def PageMgr.request (debug : Bool) (fuel : Nat) (rw user execDisable : Bool) (sz : UInt64) (k : Kernel) :
    Exec (PTEWrapper × Kernel) := do
  let (ptr, k) ← mmAllocBitmap debug fuel rw user sz k
  return (⟨rw, user, execDisable, ptr⟩, k)

/-- `PageMgr::Free`. -/
def PageMgr.free (wrapper : PTEWrapper) (k : Kernel) : Bool × Kernel :=
  mmFreeBitmap wrapper.fVirtAddr k

/-! ### Allocation -/

/-- `mm_check_heap_address`. The difference is unsigned: the test for one below zero never holds. -/
def mmCheckHeapAddress (heapPtr : UInt64) : Bool :=
  if heapPtr = 0 then false else true

/-- `rt_set_memory(heap_info_ptr->fPadding, 0, kKernelHeapAlignSz)`: the length counts 32-bit words. -/
def clearPadding (mem : Store) (heapInfoPtr : UInt64) : Store :=
  mem.write (heapInfoPtr.toNat + 37) (List.replicate (4 * kKernelHeapAlignSz) 0)

/-- `mm_new_heap`. -/
def mmNewHeap (debug : Bool) (fuel : Nat) (sz : UInt64) (wr user : Bool) (k : Kernel) :
    Exec (UInt64 × Kernel) := do
  let szFix := sz
  if szFix = 0 then return (0, k)
  mustPass debug (sz < kKernelHeapMaxSize)
  let szFix := szFix + hibSize
  let (wrapper, k) ← PageMgr.request debug fuel wr user false szFix k
  let heapInfoPtr := wrapper.fVirtAddr + hibSize
  let info := (heapInfo k.mem heapInfoPtr).created szFix (heapInfoPtr + hibSize) wr user
  let mem := setHeapInfo k.mem heapInfoPtr info
  let mem := clearPadding mem heapInfoPtr
  let result := (heapInfo mem heapInfoPtr).fHeapPtr
  return (result, { k with mem := mem })

/-- `mm_delete_heap`. -/
def mmDeleteHeap (heapPtr : UInt64) (k : Kernel) : Int32 × Kernel :=
  if mmCheckHeapAddress heapPtr = false then (kErrorHeapNotPresent, k)
  else
    let heapInfoPtr := heapPtr - hibSize
    let info := heapInfo k.mem heapInfoPtr
    if heapInfoPtr ≠ 0 ∧ info.fMagic = kKernelHeapMagic then
      if info.bit hibPresent = false then (kErrorHeapNotPresent, k)
      else
        let k := { k with mem := setHeapInfo k.mem heapInfoPtr info.released }
        let pageWrapper : PTEWrapper := ⟨false, false, false, heapInfoPtr - hibSize⟩
        (kErrorSuccess, (PageMgr.free pageWrapper k).2)
    else (kErrorInternal, k)

/-! ### What a call returns -/

theorem PageMgr.request_of_alloc {debug rw user : Bool} (execDisable : Bool) {fuel : Nat} {sz ptr : UInt64}
    {k k' : Kernel} (h : mmAllocBitmap debug fuel rw user sz k = .ok (ptr, k')) :
    PageMgr.request debug fuel rw user execDisable sz k = .ok (⟨rw, user, execDisable, ptr⟩, k') := by
  rw [PageMgr.request, h]
  rfl

theorem heapInfo_eq (mem : Store) (heapInfoPtr : UInt64) :
    heapInfo mem heapInfoPtr =
      { fMagic := mem.get Codec.u64 heapInfoPtr.toNat
        bits := mem.get (Codec.bytes 1) (heapInfoPtr.toNat + 8)
        fCRC32 := mem.get Codec.u32 (heapInfoPtr.toNat + 9)
        fFlags := mem.get Codec.u64 (heapInfoPtr.toNat + 13)
        fHeapSize := mem.get Codec.u64 (heapInfoPtr.toNat + 21)
        fHeapPtr := mem.get Codec.u64 (heapInfoPtr.toNat + 29)
        fPadding := mem.get (Codec.bytes 16) (heapInfoPtr.toNat + 37) } := by
  have hget : heapInfo mem heapInfoPtr =
      (fun ⟨magic, bits, crc, flags, size, ptr, padding⟩ => ⟨magic, bits, crc, flags, size, ptr, padding⟩ :
        UInt64 × Bytes 1 × UInt32 × UInt64 × UInt64 × UInt64 × Bytes 16 → HeapInformationBlock)
        (mem.get (Codec.u64.pair <| (Codec.bytes 1).pair <| Codec.u32.pair <| Codec.u64.pair <|
          Codec.u64.pair <| Codec.u64.pair (Codec.bytes 16)) heapInfoPtr.toNat) := rfl
  rw [hget]
  simp only [Store.get_pair]
  rfl

theorem heapInfo_fHeapPtr (mem : Store) (heapInfoPtr : UInt64) :
    (heapInfo mem heapInfoPtr).fHeapPtr = mem.get Codec.u64 (heapInfoPtr.toNat + 29) := by
  rw [heapInfo_eq]

theorem clearPadding_outside {mem : Store} {heapInfoPtr : UInt64} {a : Nat}
    (h : a < heapInfoPtr.toNat + 37 ∨ heapInfoPtr.toNat + 101 ≤ a) :
    clearPadding mem heapInfoPtr a = mem a :=
  Store.write_apply_outside (by simpa [kKernelHeapAlignSz] using h)

theorem heapInfo_setHeapInfo (mem : Store) (heapInfoPtr : UInt64) (info : HeapInformationBlock) :
    heapInfo (setHeapInfo mem heapInfoPtr info) heapInfoPtr = info :=
  Store.get_put_same

theorem setHeapInfo_outside {mem : Store} {heapInfoPtr : UInt64} {info : HeapInformationBlock} {a : Nat}
    (h : a < heapInfoPtr.toNat ∨ heapInfoPtr.toNat + 53 ≤ a) : setHeapInfo mem heapInfoPtr info a = mem a :=
  Store.put_apply_outside h

/-- The memory `mm_new_heap` leaves when the search returned the block `b`. -/
def newHeapMem (wr user : Bool) (sz b : UInt64) (mem : Store) : Store :=
  clearPadding (setHeapInfo mem (b + hibSize)
    ((heapInfo mem (b + hibSize)).created (sz + hibSize) (b + hibSize + hibSize) wr user)) (b + hibSize)

theorem newHeapMem_fHeapPtr (wr user : Bool) (sz b : UInt64) (mem : Store) :
    (heapInfo (newHeapMem wr user sz b mem) (b + hibSize)).fHeapPtr = b + hibSize + hibSize := by
  rw [heapInfo_fHeapPtr, newHeapMem, Store.get_congr fun a _ hlt => clearPadding_outside (Or.inl ?_),
    ← heapInfo_fHeapPtr, heapInfo_setHeapInfo]
  · rfl
  · simp only [Codec.u64, Codec.map, Codec.word] at hlt
    omega

theorem newHeapMem_outside {wr user : Bool} {sz b : UInt64} {mem : Store} {a : Nat}
    (h : a < (b + hibSize).toNat ∨ (b + hibSize).toNat + 101 ≤ a) : newHeapMem wr user sz b mem a = mem a := by
  rw [newHeapMem, clearPadding_outside (by omega), setHeapInfo_outside (by omega)]

theorem mmNewHeap_of_request {debug wr user : Bool} {fuel : Nat} {sz : UInt64} {w : PTEWrapper} {k k₁ : Kernel}
    (hpos : sz ≠ 0) (hmax : sz < kKernelHeapMaxSize)
    (hreq : PageMgr.request debug fuel wr user false (sz + hibSize) k = .ok (w, k₁)) :
    mmNewHeap debug fuel sz wr user k =
      .ok (w.fVirtAddr + hibSize + hibSize, { k₁ with mem := newHeapMem wr user sz w.fVirtAddr k₁.mem }) := by
  simp only [mmNewHeap, hpos, hreq, mustPass, hmax, decide_true, Bool.not_true, Bool.and_false,
    Bool.false_eq_true, ↓reduceIte, Exec.ok_bind, Exec.pure_eq_ok]
  have hptr := newHeapMem_fHeapPtr wr user sz w.fVirtAddr k₁.mem
  unfold newHeapMem at hptr ⊢
  rw [hptr]

end OpenNE

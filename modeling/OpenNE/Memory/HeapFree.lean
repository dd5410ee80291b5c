import OpenNE.Memory.Heap

/-!
# Freeing what was allocated

`mm_delete_heap` gets back to the information block and to the bitmap block by the two subtractions that
mirror the additions of `mm_new_heap`. The information block and the padding loop of `mm_new_heap` lie behind
the bitmap header (`header_apart`), so the header is as the search left it when the block is freed. Each of the
three addresses is tested against null on the way, and `mm_map_page` sets flags in a word that may be one of the
header: a block is freed exactly when none of the addresses is null and the header's magic and size still stand
(`undone_iff`).
-/

namespace OpenNE

/-! ### The header the search leaves -/

/-- The magic and the size of a block stand in its header. -/
def HeaderStands (mem : Store) (b size : UInt64) : Prop := ∃ used, HeaderAt mem ⟨b, size, used⟩

/-- What the search returns: a block whose header it has written at the size asked for, and then mapped. -/
def Found (size : UInt64) (wr user : Bool) (k : Kernel) (r : UInt64 × Kernel) : Prop :=
  ∃ mem, HeaderAt mem ⟨r.1, size, true⟩ ∧
    (∀ a, a < r.1.toNat ∨ r.1.toNat + bitMapHeaderSize ≤ a → mem a = k.mem a) ∧
    r.2 = { k with mem := mem }.mapBlock r.1 wr user

section Search

variable {size base b : UInt64} {wr user : Bool} {k k₁ : Kernel} {r : UInt64 × Kernel} {fuel : Nat}

theorem Found.of_header {mem : Store} (hhead : HeaderAt mem ⟨b, size, true⟩)
    (hsame : ∀ a, a < b.toNat ∨ b.toNat + bitMapHeaderSize ≤ a → mem a = k.mem a) :
    Found size wr user k (b, { k with mem := mem }.mapBlock b wr user) :=
  ⟨mem, hhead, hsame, rfl⟩

theorem findBitMapRound_found (h : findBitMapRound size wr user k base = .ok (.inr r)) : Found size wr user k r := by
  by_cases hmagic : bitSet k.mem base kBitMapMagIdx = kBitMapMagic
  · have hheader : HeaderAt k.mem ⟨base, bitSet k.mem base kBitMapSizeIdx,
        decide (bitSet k.mem base kBitMapUsedIdx ≠ 0)⟩ := ⟨hmagic, rfl, by simp⟩
    by_cases hs : Suitable size ⟨base, bitSet k.mem base kBitMapSizeIdx,
        decide (bitSet k.mem base kBitMapUsedIdx ≠ 0)⟩
    · have hround := findBitMapRound_reuse wr user hheader hs
      dsimp only at hround
      have htaken := @reuseHeader_headerAt k.mem size _ hheader
      dsimp only at htaken
      rw [hround, Except.ok.injEq, Sum.inr.injEq] at h
      rw [← h]
      exact .of_header htaken fun a => reuseHeader_outside
    · rw [findBitMapRound_skip wr user hheader hs] at h
      cases h
  · rw [findBitMapRound_format hmagic, Except.ok.injEq, Sum.inr.injEq] at h
    rw [← h]
    exact .of_header (formatHeader_headerAt base) fun a => formatHeader_outside

theorem findBitMap_found (hsize : size ≠ 0) (h : findBitMap fuel base size wr user k = .ok r) :
    Found size wr user k r := by
  rw [findBitMap, if_neg hsize] at h
  exact loop_invariant (fun _ => True) (Found size wr user k) (fun _ _ _ _ => trivial)
    (fun _ _ _ hround => findBitMapRound_found hround) trivial h

theorem Found.headerAt_null (h : Found size wr user k (0, k₁)) : HeaderAt k₁.mem ⟨0, size, true⟩ := by
  obtain ⟨mem, hhead, -, hk⟩ := h
  dsimp only at hk
  rw [hk, Kernel.mapBlock, Kernel.mapPage, mmMapPage_null]
  exact hhead

theorem Found.stands (h : Found size wr user k (b, k₁))
    (hout : ∀ w ∈ k.paging.words b, w.Disjoint ⟨b.toNat, bitMapHeaderSize⟩) : HeaderStands k₁.mem b size := by
  obtain ⟨mem, hhead, hsame, hk⟩ := h
  dsimp only at hhead hsame hk
  refine ⟨true, hhead.congr fun a ha hlt => ?_⟩
  rw [hk]
  refine (Kernel.mapBlock_outside wr user (fun w hw x hx => hsame x ?_) fun w hw haw => ?_).symm
  · have hapart := hout w hw x hx
    simp only [Span.mem_def] at hapart
    omega
  · exact hout w hw a haw ⟨ha, hlt⟩

end Search

/-! ### The information block -/

@[simp] theorem HeapInformationBlock.setBit_fMagic (mask : UInt8) (on : Bool) (h : HeapInformationBlock) :
    (h.setBit mask on).fMagic = h.fMagic := rfl

theorem HeapInformationBlock.bit_setBit_present (h : HeapInformationBlock) :
    (h.setBit hibPresent true).bit hibPresent = true := by
  obtain ⟨b, hb⟩ := List.length_eq_one_iff.mp h.bits.2
  have hset : (b ||| hibPresent) &&& hibPresent ≠ 0 := by
    intro hzero
    have hlow := congrArg (fun v : UInt8 => v.toBitVec.getLsbD 0) hzero
    simp [hibPresent] at hlow
  simp [HeapInformationBlock.bit, HeapInformationBlock.setBit, hb, hset]

theorem HeapInformationBlock.created_fMagic (szFix heapPtr : UInt64) (wr user : Bool) (info : HeapInformationBlock) :
    (info.created szFix heapPtr wr user).fMagic = kKernelHeapMagic := rfl

theorem HeapInformationBlock.created_present (szFix heapPtr : UInt64) (wr user : Bool) (info : HeapInformationBlock) :
    (info.created szFix heapPtr wr user).bit hibPresent = true :=
  bit_setBit_present _

theorem HeapInformationBlock.released_fMagic (info : HeapInformationBlock) : info.released.fMagic = 0 := rfl

theorem heapInfo_fMagic (mem : Store) (heapInfoPtr : UInt64) :
    (heapInfo mem heapInfoPtr).fMagic = mem.get Codec.u64 heapInfoPtr.toNat := by
  rw [heapInfo_eq]

theorem heapInfo_bits (mem : Store) (heapInfoPtr : UInt64) :
    (heapInfo mem heapInfoPtr).bits = mem.get (Codec.bytes 1) (heapInfoPtr.toNat + 8) := by
  rw [heapInfo_eq]

theorem heapInfo_clearPadding (mem : Store) (heapInfoPtr : UInt64) :
    (heapInfo (clearPadding mem heapInfoPtr) heapInfoPtr).fMagic = (heapInfo mem heapInfoPtr).fMagic ∧
      (heapInfo (clearPadding mem heapInfoPtr) heapInfoPtr).bits = (heapInfo mem heapInfoPtr).bits := by
  constructor
  · rw [heapInfo_fMagic, heapInfo_fMagic]
    apply Store.get_congr
    intro a _ hlt
    apply clearPadding_outside
    simp only [Codec.u64, Codec.map, Codec.word] at hlt
    omega
  · rw [heapInfo_bits, heapInfo_bits]
    apply Store.get_congr
    intro a _ hlt
    apply clearPadding_outside
    simp only [Codec.bytes] at hlt
    omega

theorem header_apart (b : UInt64) :
    b.toNat + bitMapHeaderSize ≤ (b + hibSize).toNat ∨ (b + hibSize).toNat + 101 ≤ b.toNat := by
  have hb := b.toNat_lt
  have hhib : hibSize.toNat = 53 := rfl
  rw [UInt64.toNat_add, hhib, bitMapHeaderSize]
  omega

/-! ### The two calls -/

section Calls

variable {debug wr user : Bool} {fuel : Nat} {sz b p : UInt64} {k k₁ k' : Kernel}

theorem newHeapMem_info (wr user : Bool) (sz b : UInt64) (mem : Store) :
    (heapInfo (newHeapMem wr user sz b mem) (b + hibSize)).fMagic = kKernelHeapMagic ∧
      (heapInfo (newHeapMem wr user sz b mem) (b + hibSize)).bit hibPresent = true := by
  unfold newHeapMem HeapInformationBlock.bit
  obtain ⟨hmagic, hbits⟩ := heapInfo_clearPadding (setHeapInfo mem (b + hibSize)
    ((heapInfo mem (b + hibSize)).created (sz + hibSize) (b + hibSize + hibSize) wr user)) (b + hibSize)
  rw [hmagic, hbits, heapInfo_setHeapInfo]
  exact ⟨HeapInformationBlock.created_fMagic .., HeapInformationBlock.created_present ..⟩

theorem newHeapMem_header {mem : Store} {a : Nat} (ha : b.toNat ≤ a) (hlt : a < b.toNat + bitMapHeaderSize) :
    newHeapMem wr user sz b mem a = mem a := by
  have hapart := header_apart b
  exact newHeapMem_outside (by omega)

theorem mmNewHeap_of_search (hpos : 0 < sz) (hmax : sz < kKernelHeapMaxSize)
    (hpass : mustPass debug (b ≠ 0) = .ok ())
    (hfind : findBitMap fuel k.kKernelBitMpStart (sz + hibSize) wr user k = .ok (b, k₁)) :
    mmNewHeap debug fuel sz wr user k =
      .ok (b + hibSize + hibSize, { k₁ with mem := newHeapMem wr user sz b k₁.mem }) := by
  have halloc : mmAllocBitmap debug fuel wr user (sz + hibSize) k = .ok (b, k₁) := by
    rw [mmAllocBitmap, hfind, Exec.ok_bind]
    simp only [hpass, Exec.ok_bind, Exec.pure_eq_ok]
  have hsz : sz ≠ 0 := by
    rintro rfl
    cases hpos
  rw [mmNewHeap_of_request hsz hmax (PageMgr.request_of_alloc false halloc)]

theorem mmNewHeap_eq_ok (hpos : 0 < sz) (hmax : sz < kKernelHeapMaxSize)
    (hfind : findBitMap fuel k.kKernelBitMpStart (sz + hibSize) wr user k = .ok (b, k₁))
    (hcall : mmNewHeap debug fuel sz wr user k = .ok (p, k')) :
    p = b + hibSize + hibSize ∧ k' = { k₁ with mem := newHeapMem wr user sz b k₁.mem } := by
  rcases hpass : mustPass debug (b ≠ 0) with e | ⟨⟩
  · have halloc : mmAllocBitmap debug fuel wr user (sz + hibSize) k = .error e := by
      rw [mmAllocBitmap, hfind, Exec.ok_bind]
      simp only [hpass, Exec.error_bind]
    have hsz : sz ≠ 0 := by
      rintro rfl
      cases hpos
    simp only [mmNewHeap, hsz, PageMgr.request, halloc, mustPass, hmax, decide_true, Bool.not_true, Bool.and_false,
      Bool.false_eq_true, ↓reduceIte, Exec.ok_bind, Exec.error_bind] at hcall
    cases hcall
  · rw [mmNewHeap_of_search hpos hmax hpass hfind] at hcall
    cases hcall
    exact ⟨rfl, rfl⟩

theorem mmDeleteHeap_live (hptr : p ≠ 0) (hinfo : p - hibSize ≠ 0)
    (hmagic : (heapInfo k.mem (p - hibSize)).fMagic = kKernelHeapMagic)
    (hpresent : (heapInfo k.mem (p - hibSize)).bit hibPresent = true) :
    mmDeleteHeap p k = (kErrorSuccess, (mmFreeBitmap (p - hibSize - hibSize)
      { k with mem := setHeapInfo k.mem (p - hibSize) (heapInfo k.mem (p - hibSize)).released }).2) := by
  have haddr : mmCheckHeapAddress p = true := if_neg hptr
  rw [mmDeleteHeap, haddr, if_neg (by decide)]
  simp only
  rw [if_pos ⟨hinfo, hmagic⟩, hpresent, if_neg (by decide)]
  rfl

theorem mmDeleteHeap_refused
    (h : p = 0 ∨ p - hibSize = 0 ∨ (heapInfo k.mem (p - hibSize)).fMagic ≠ kKernelHeapMagic) :
    (mmDeleteHeap p k).1 ≠ kErrorSuccess ∧ (mmDeleteHeap p k).2 = k := by
  unfold mmDeleteHeap
  by_cases hptr : p = 0
  · have haddr : mmCheckHeapAddress p = false := if_pos hptr
    rw [haddr, if_pos rfl]
    have hcode : kErrorHeapNotPresent ≠ kErrorSuccess := by decide
    exact ⟨hcode, rfl⟩
  · have haddr : mmCheckHeapAddress p = true := if_neg hptr
    rw [haddr, if_neg (by decide)]
    simp only
    rw [if_neg]
    · have hcode : kErrorInternal ≠ kErrorSuccess := by decide
      exact ⟨hcode, rfl⟩
    · rintro ⟨hinfo, hmagic⟩
      rcases h with h | h | h
      · exact hptr h
      · exact hinfo h
      · exact h hmagic

/-- Deleting `p` undoes its allocation: the call succeeds, the bitmap block `b` is as requested and free, and
deleting once more is refused with the memory left alone. -/
structure Undone (p b sz : UInt64) (k : Kernel) : Prop where
  deleted : (mmDeleteHeap p k).1 = kErrorSuccess
  freed : HeaderAt (mmDeleteHeap p k).2.mem ⟨b, sz + hibSize, false⟩
  rejected : (mmDeleteHeap p (mmDeleteHeap p k).2).1 ≠ kErrorSuccess
  unchanged : (mmDeleteHeap p (mmDeleteHeap p k).2).2 = (mmDeleteHeap p k).2

theorem Undone.reusable (h : Undone p b sz k) {size : UInt64} (hsize : sz + hibSize ≤ size) (wr user : Bool) :
    ∃ k', findBitMapRound size wr user (mmDeleteHeap p k).2 b = .ok (.inr (b, k')) := by
  exact ⟨_, findBitMapRound_reuse wr user (b := ⟨b, sz + hibSize, false⟩) h.freed ⟨hsize, rfl⟩⟩

/-- A live information block behind the bitmap block `b`. -/
structure Live (b : UInt64) (mem : Store) : Prop where
  magic : (heapInfo mem (b + hibSize)).fMagic = kKernelHeapMagic
  present : (heapInfo mem (b + hibSize)).bit hibPresent = true

/-- The memory in which the bitmap block of a released information block is freed. -/
def releasedMem (b : UInt64) (mem : Store) : Store :=
  setHeapInfo mem (b + hibSize) (heapInfo mem (b + hibSize)).released

theorem releasedMem_header {mem : Store} {a : Nat} (ha : b.toNat ≤ a) (hlt : a < b.toNat + bitMapHeaderSize) :
    releasedMem b mem a = mem a := by
  have hapart := header_apart b
  exact setHeapInfo_outside (by omega)

theorem Live.deleted (h : Live b k.mem) (hinfo : b + hibSize ≠ 0) (hptr : b + hibSize + hibSize ≠ 0) :
    mmDeleteHeap (b + hibSize + hibSize) k =
      (kErrorSuccess, (mmFreeBitmap b { k with mem := releasedMem b k.mem }).2) := by
  have hback : b + hibSize + hibSize - hibSize = b + hibSize := UInt64.add_sub_cancel ..
  have hblock : b + hibSize - hibSize = b := UInt64.add_sub_cancel ..
  have hcall := mmDeleteHeap_live (k := k) hptr (by rwa [hback]) (by rw [hback]; exact h.magic)
    (by rw [hback]; exact h.present)
  rwa [hback, hblock] at hcall

theorem Live.undone (h : Live b k.mem) (hb : b ≠ 0) (hinfo : b + hibSize ≠ 0) (hptr : b + hibSize + hibSize ≠ 0)
    (hstands : HeaderStands k.mem b (sz + hibSize)) : Undone (b + hibSize + hibSize) b sz k := by
  have hback : b + hibSize + hibSize - hibSize = b + hibSize := UInt64.add_sub_cancel ..
  have hcall := h.deleted hinfo hptr
  rw [mmFreeBitmap, if_neg hb] at hcall
  have hapart := header_apart b
  obtain ⟨used, hheader⟩ := hstands
  -- the header under the released information block is the one the search left
  have hreleased : HeaderAt (releasedMem b k.mem) ⟨b, sz + hibSize, used⟩ :=
    hheader.congr fun a ha hlt => (releasedMem_header ha hlt).symm
  obtain ⟨-, hfreed, houtside⟩ := freeBitMap_block hreleased hb
  have hmagic : (heapInfo (mmDeleteHeap (b + hibSize + hibSize) k).2.mem (b + hibSize)).fMagic = 0 := by
    rw [hcall, heapInfo_fMagic, Store.get_congr fun a ha hlt => houtside a ?_, ← heapInfo_fMagic, releasedMem,
      heapInfo_setHeapInfo, HeapInformationBlock.released_fMagic]
    simp only [Codec.u64, Codec.map, Codec.word] at hlt
    omega
  have hrefused := mmDeleteHeap_refused (p := b + hibSize + hibSize)
    (k := (mmDeleteHeap (b + hibSize + hibSize) k).2) (Or.inr (Or.inr (by rw [hback, hmagic]; decide)))
  refine ⟨?_, ?_, hrefused.1, hrefused.2⟩
  · rw [hcall]
  · rw [hcall]
    exact hfreed

theorem Live.stands (h : Live b k.mem) (hb : b ≠ 0) (hinfo : b + hibSize ≠ 0) (hptr : b + hibSize + hibSize ≠ 0)
    (hundone : Undone (b + hibSize + hibSize) b sz k) : HeaderStands k.mem b (sz + hibSize) := by
  have hfreed := hundone.freed
  rw [h.deleted hinfo hptr, mmFreeBitmap, if_neg hb] at hfreed
  dsimp only at hfreed
  suffices hstands : HeaderStands (releasedMem b k.mem) b (sz + hibSize) by
    obtain ⟨used, hheader⟩ := hstands
    exact ⟨used, hheader.congr fun a => releasedMem_header⟩
  generalize releasedMem b k.mem = mem at hfreed
  unfold freeBitMap at hfreed
  by_cases his : isBitMap b mem = false
  · rw [if_pos his] at hfreed
    exact ⟨false, hfreed⟩
  · rw [if_neg his] at hfreed
    dsimp only at hfreed
    obtain ⟨-, hsize, -⟩ := hfreed
    rw [bitSet_setBitSet_ne (by decide), bitSet_setBitSet_ne (by decide)] at hsize
    have hmagic : bitSet mem b kBitMapMagIdx = kBitMapMagic := by
      by_contra hne
      apply his
      rw [isBitMap, if_neg hb, if_pos (Or.inr hne)]
    exact ⟨decide (bitSet mem b kBitMapUsedIdx ≠ 0), hmagic, hsize, by simp⟩

theorem newHeapMem_live (mem : Store) : Live b (newHeapMem wr user sz b mem) := by
  obtain ⟨hmagic, hpresent⟩ := newHeapMem_info wr user sz b mem
  exact ⟨hmagic, hpresent⟩

theorem newHeapMem_stands {mem : Store} {size : UInt64} :
    HeaderStands (newHeapMem wr user sz b mem) b size ↔ HeaderStands mem b size := by
  constructor
  · rintro ⟨used, h⟩
    exact ⟨used, h.congr fun a => newHeapMem_header⟩
  · rintro ⟨used, h⟩
    exact ⟨used, h.congr fun a ha hlt => (newHeapMem_header ha hlt).symm⟩

/-! ### Null addresses -/

theorem Live.not_undone_of_block (h : Live 0 k.mem) (hheader : HeaderAt k.mem ⟨0, sz + hibSize, true⟩) :
    ¬ Undone (0 + hibSize + hibSize) 0 sz k := by
  intro hundone
  have hfreed := hundone.freed.2.2
  rw [h.deleted (by decide) (by decide), mmFreeBitmap, if_pos rfl] at hfreed
  have hused : bitSet (releasedMem 0 k.mem) 0 kBitMapUsedIdx = bitSet k.mem 0 kBitMapUsedIdx := by
    apply bitSet_congr
    intro a ha hlt
    simp only [kBitMapUsedIdx] at ha hlt
    exact releasedMem_header (by omega) (by simp only [bitMapHeaderSize]; omega)
  have hset : bitSet k.mem 0 kBitMapUsedIdx ≠ 0 := hheader.2.2.mpr rfl
  rw [← hused] at hset
  cases hfreed.mp hset

theorem not_undone_of_null (h : b + hibSize = 0 ∨ b + hibSize + hibSize = 0) :
    ¬ Undone (b + hibSize + hibSize) b sz k := by
  intro hundone
  have hback : b + hibSize + hibSize - hibSize = b + hibSize := UInt64.add_sub_cancel ..
  have hrefused := mmDeleteHeap_refused (p := b + hibSize + hibSize) (k := k) (by
    rw [hback]
    rcases h with h | h
    · exact Or.inr (Or.inl h)
    · exact Or.inl h)
  exact hrefused.1 hundone.deleted

/-- A block is undone by deleting its pointer exactly when none of the three addresses, of the bitmap block,
of the information block and of the payload, is null, and `mm_map_page`, which sets flags in a word of the same
memory, has left the magic and the size in the block's header. -/
theorem undone_iff (hpos : 0 < sz) (hmax : sz < kKernelHeapMaxSize)
    (hfind : findBitMap fuel k.kKernelBitMpStart (sz + hibSize) wr user k = .ok (b, k₁)) :
    (∃ p k', mmNewHeap debug fuel sz wr user k = .ok (p, k') ∧ Undone p b sz k') ↔
      (b ≠ 0 ∧ b + hibSize ≠ 0 ∧ b + hibSize + hibSize ≠ 0) ∧ HeaderStands k₁.mem b (sz + hibSize) := by
  have hsize : sz + hibSize ≠ 0 := by
    have hszmax : sz.toNat < 2 ^ 31 := UInt64.lt_iff_toNat_lt.mp hmax
    intro hzero
    have hsum := congrArg UInt64.toNat hzero
    rw [UInt64.toNat_add, show hibSize.toNat = 53 from rfl, Nat.mod_eq_of_lt (by omega)] at hsum
    rw [UInt64.toNat_zero] at hsum
    omega
  have hfound := findBitMap_found hsize hfind
  let k₂ : Kernel := { k₁ with mem := newHeapMem wr user sz b k₁.mem }
  have hlive : Live b k₂.mem := newHeapMem_live k₁.mem
  constructor
  · rintro ⟨p, k', hcall, hundone⟩
    obtain ⟨rfl, rfl⟩ := mmNewHeap_eq_ok hpos hmax hfind hcall
    have hinfo : b + hibSize ≠ 0 := fun hinfo => not_undone_of_null (Or.inl hinfo) hundone
    have hptr : b + hibSize + hibSize ≠ 0 := fun hptr => not_undone_of_null (Or.inr hptr) hundone
    have hb : b ≠ 0 := by
      rintro rfl
      refine Live.not_undone_of_block (k := k₂) hlive ?_ hundone
      exact hfound.headerAt_null.congr fun a ha hlt => (newHeapMem_header ha hlt).symm
    exact ⟨⟨hb, hinfo, hptr⟩, newHeapMem_stands.mp (Live.stands (k := k₂) hlive hb hinfo hptr hundone)⟩
  · rintro ⟨⟨hb, hinfo, hptr⟩, hstands⟩
    have hpass : mustPass debug (b ≠ 0) = .ok () := by simp [mustPass, hb]
    refine ⟨b + hibSize + hibSize, k₂, ?_, ?_⟩
    · exact mmNewHeap_of_search hpos hmax hpass hfind
    · exact Live.undone (k := k₂) hlive hb hinfo hptr (newHeapMem_stands.mpr hstands)

end Calls

/-- A kernel whose pool starts one page below `b`. -/
def poolBelow (mem : Store) (cr3 b : UInt64) : Kernel := ⟨mem, cr3, {}, b - kPageSize⟩

theorem poolBelow_search {mem : Store} {b : UInt64} (cr3 : UInt64) {size : UInt64} (hsize : size ≠ 0)
    (hmagic : bitSet mem b kBitMapMagIdx ≠ kBitMapMagic) :
    findBitMap 1 (b - kPageSize) size true false (poolBelow mem cr3 b) =
      .ok (b, (poolBelow (formatHeader mem b size) cr3 b).mapBlock b true false) := by
  rw [findBitMap, if_neg hsize, UInt64.sub_add_cancel]
  exact loop_succ_leave (findBitMapRound_format (k := poolBelow mem cr3 b) hmagic) 0

theorem zeroed_no_magic (b : UInt64) : bitSet (fun _ => 0) b kBitMapMagIdx ≠ kBitMapMagic := by
  have hzero : bitSet (fun _ => 0) b kBitMapMagIdx = 0 := bitSet_zeroed fun _ _ _ => rfl
  rw [hzero]
  decide

/-- A heap of 128 bytes in zeroed memory is undone. -/
theorem undone_iff_page : ∃ k₁ : Kernel,
    ((∃ p k', mmNewHeap true 1 128 true false (poolBelow (fun _ => 0) 0 0x10001000) = .ok (p, k') ∧
        Undone p 0x10001000 128 k') ↔
      ((0x10001000 : UInt64) ≠ 0 ∧ 0x10001000 + hibSize ≠ 0 ∧ 0x10001000 + hibSize + hibSize ≠ 0) ∧
        HeaderStands k₁.mem 0x10001000 (128 + hibSize)) ∧ HeaderStands k₁.mem 0x10001000 (128 + hibSize) := by
  have hsize : (128 : UInt64) + hibSize ≠ 0 := by decide
  have hfind := poolBelow_search 0 hsize (zeroed_no_magic 0x10001000)
  refine ⟨_, undone_iff (by decide) (by decide) hfind, (findBitMap_found hsize hfind).stands ?_⟩
  have hwords : (poolBelow (fun _ => 0) 0 0x10001000).paging.words 0x10001000 = [⟨64, 8⟩] := by decide
  rw [hwords]
  intro w hw
  obtain rfl := List.mem_singleton.mp hw
  exact Span.disjoint_of_le (by decide)

/-- The search returns `b` for a heap of one byte, and deleting that heap does not undo it. -/
def StaysNew (mem : Store) (cr3 b : UInt64) : Prop :=
  ∃ k₁ p k', findBitMap 1 (b - kPageSize) (1 + hibSize) true false (poolBelow mem cr3 b) = .ok (b, k₁) ∧
    mmNewHeap false 1 1 true false (poolBelow mem cr3 b) = .ok (p, k') ∧ ¬ Undone p b 1 k'

/-- The kernel after the search. -/
def searchedPool (mem : Store) (cr3 b : UInt64) : Kernel :=
  (poolBelow (formatHeader mem b (1 + hibSize)) cr3 b).mapBlock b true false

theorem staysNew {mem : Store} {cr3 b : UInt64} (hmagic : bitSet mem b kBitMapMagIdx ≠ kBitMapMagic)
    (h : (b = 0 ∨ b + hibSize = 0 ∨ b + hibSize + hibSize = 0) ∨
      ¬ HeaderStands (searchedPool mem cr3 b).mem b (1 + hibSize)) : StaysNew mem cr3 b := by
  have hsize : (1 : UInt64) + hibSize ≠ 0 := by decide
  have hpos : (0 : UInt64) < 1 := by decide
  have hmax : (1 : UInt64) < kKernelHeapMaxSize := by decide
  have hfind := poolBelow_search cr3 hsize hmagic
  have hnew : mmNewHeap false 1 1 true false (poolBelow mem cr3 b) = _ := mmNewHeap_of_search hpos hmax rfl hfind
  refine ⟨_, _, _, hfind, hnew, fun hundone => ?_⟩
  obtain ⟨⟨hb, hinfo, hptr⟩, hstands⟩ := (undone_iff hpos hmax hfind).mp ⟨_, _, hnew, hundone⟩
  rcases h with (h | h | h) | h
  · exact hb h
  · exact hinfo h
  · exact hptr h
  · exact h hstands

/-- Memory in which the table that CR3 = 0x2000 leads `mm_map_page` to points, for the page at `0x10001000`, to
that page itself. -/
def selfMapped : Store := Store.put Codec.u64 (fun _ => 0) 0x12040 0x10001000

theorem selfMapped_no_magic : bitSet selfMapped 0x10001000 kBitMapMagIdx ≠ kBitMapMagic := by
  have hzero : bitSet selfMapped 0x10001000 kBitMapMagIdx = 0 :=
    bitSet_zeroed fun a ha _ => Store.put_apply_outside (.inr (Nat.le_trans (by decide) ha))
  rw [hzero]
  decide

theorem selfMapped_magic :
    bitSet (searchedPool selfMapped 0x2000 0x10001000).mem 0x10001000 kBitMapMagIdx = 0x10213 := by
  obtain ⟨mem, hmem⟩ : ∃ mem, mem = formatHeader selfMapped 0x10001000 (1 + hibSize) := ⟨_, rfl⟩
  have hpointer : (poolBelow mem 0x2000 0x10001000).paging.entryPointer 0x10001000 = 0x10001000 := by
    have hkept : ∀ a, 0x12040 ≤ a → a < 0x12040 + Codec.u64.size → mem a = selfMapped a := by
      intro a _ hlt
      rw [hmem]
      exact formatHeader_outside (.inl (Nat.lt_trans hlt (by decide)))
    have hword : mem.get Codec.u64 0x12040 = selfMapped.get Codec.u64 0x12040 := Store.get_congr hkept
    have haddr : (pointerAddr (tableBase 0x2000) 0x10001000).toNat = 0x12040 := by decide
    show mem.get Codec.u64 (pointerAddr (tableBase 0x2000) 0x10001000).toNat = _
    rw [haddr, hword, selfMapped, Store.get_put_same]
  have hmiss : (poolBelow mem 0x2000 0x10001000).pageStore.fVAddr ≠ 0x10001000 := by
    show (0 : UInt64) ≠ 0x10001000
    decide
  have hmagic : bitSet mem 0x10001000 kBitMapMagIdx = kBitMapMagic := by
    rw [hmem]
    exact (formatHeader_headerAt 0x10001000).1
  have hword : bitSet ((poolBelow mem 0x2000 0x10001000).mapBlock 0x10001000 true false).mem 0x10001000
      kBitMapMagIdx = mapEntry (makeMMFlags true false) (bitSet mem 0x10001000 kBitMapMagIdx) := by
    have haddr : (0x10001000 : UInt64).toNat + 8 * kBitMapMagIdx = (0x10001000 : UInt64).toNat := rfl
    rw [Kernel.mapBlock_mapped true false (by decide) hmiss hpointer (by decide)]
    unfold bitSet
    rw [haddr, Store.get_put_same]
    rfl
  rw [searchedPool, ← hmem, hword, hmagic]
  decide

/-- Blocks that deleting their pointer does not undo: at address null, one information block below it, two below
it, and one that is mapped through an entry over its own header. -/
theorem blocks_not_undone : StaysNew (fun _ => 0) 0 0 ∧ StaysNew (fun _ => 0) 0 (0 - hibSize) ∧
    StaysNew (fun _ => 0) 0 (0 - hibSize - hibSize) ∧ StaysNew selfMapped 0x2000 0x10001000 := by
  refine ⟨?_, ?_, ?_, ?_⟩
  · exact staysNew (zeroed_no_magic _) (.inl (.inl rfl))
  · exact staysNew (zeroed_no_magic _) (.inl (.inr (.inl (by decide))))
  · exact staysNew (zeroed_no_magic _) (.inl (.inr (.inr (by decide))))
  · refine staysNew selfMapped_no_magic (.inr ?_)
    rintro ⟨used, hmagic, -⟩
    rw [selfMapped_magic] at hmagic
    exact absurd hmagic (by decide)

end OpenNE

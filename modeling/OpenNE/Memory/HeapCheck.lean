import OpenNE.Memory.HeapFree

/-!
# The check value of the heap (`src/Heap.cc`, `src/Crc32.cc`)

`mm_protect_heap` stores a CRC in the information block and `mm_is_valid_heap` compares it. The stored size counts
the information block, which lies in front, so the CRC runs as far behind the payload as that block is long; and
the payload itself is asked for the magic of a bitmap block first. So no check lasts (`heap_check_never`).
-/

namespace OpenNE

/-! ### The CRC -/

/-- `kCrcTbl`. -/
def kCrcTbl : List UInt32 :=
  [0x00000000, 0xF26B8303, 0xE13B70F7, 0x1350F3F4, 0xC79A971F, 0x35F1141C, 0x26A1E7E8, 0xD4CA64EB,
    0x8AD958CF, 0x78B2DBCC, 0x6BE22838, 0x9989AB3B, 0x4D43CFD0, 0xBF284CD3, 0xAC78BF27, 0x5E133C24,
    0x105EC76F, 0xE235446C, 0xF165B798, 0x030E349B, 0xD7C45070, 0x25AFD373, 0x36FF2087, 0xC494A384,
    0x9A879FA0, 0x68EC1CA3, 0x7BBCEF57, 0x89D76C54, 0x5D1D08BF, 0xAF768BBC, 0xBC267848, 0x4E4DFB4B,
    0x20BD8EDE, 0xD2D60DDD, 0xC186FE29, 0x33ED7D2A, 0xE72719C1, 0x154C9AC2, 0x061C6936, 0xF477EA35,
    0xAA64D611, 0x580F5512, 0x4B5FA6E6, 0xB93425E5, 0x6DFE410E, 0x9F95C20D, 0x8CC531F9, 0x7EAEB2FA,
    0x30E349B1, 0xC288CAB2, 0xD1D83946, 0x23B3BA45, 0xF779DEAE, 0x05125DAD, 0x1642AE59, 0xE4292D5A,
    0xBA3A117E, 0x4851927D, 0x5B016189, 0xA96AE28A, 0x7DA08661, 0x8FCB0562, 0x9C9BF696, 0x6EF07595,
    0x417B1DBC, 0xB3109EBF, 0xA0406D4B, 0x522BEE48, 0x86E18AA3, 0x748A09A0, 0x67DAFA54, 0x95B17957,
    0xCBA24573, 0x39C9C670, 0x2A993584, 0xD8F2B687, 0x0C38D26C, 0xFE53516F, 0xED03A29B, 0x1F682198,
    0x5125DAD3, 0xA34E59D0, 0xB01EAA24, 0x42752927, 0x96BF4DCC, 0x64D4CECF, 0x77843D3B, 0x85EFBE38,
    0xDBFC821C, 0x2997011F, 0x3AC7F2EB, 0xC8AC71E8, 0x1C661503, 0xEE0D9600, 0xFD5D65F4, 0x0F36E6F7,
    0x61C69362, 0x93AD1061, 0x80FDE395, 0x72966096, 0xA65C047D, 0x5437877E, 0x4767748A, 0xB50CF789,
    0xEB1FCBAD, 0x197448AE, 0x0A24BB5A, 0xF84F3859, 0x2C855CB2, 0xDEEEDFB1, 0xCDBE2C45, 0x3FD5AF46,
    0x7198540D, 0x83F3D70E, 0x90A324FA, 0x62C8A7F9, 0xB602C312, 0x44694011, 0x5739B3E5, 0xA55230E6,
    0xFB410CC2, 0x092A8FC1, 0x1A7A7C35, 0xE811FF36, 0x3CDB9BDD, 0xCEB018DE, 0xDDE0EB2A, 0x2F8B6829,
    0x82F63B78, 0x709DB87B, 0x63CD4B8F, 0x91A6C88C, 0x456CAC67, 0xB7072F64, 0xA457DC90, 0x563C5F93,
    0x082F63B7, 0xFA44E0B4, 0xE9141340, 0x1B7F9043, 0xCFB5F4A8, 0x3DDE77AB, 0x2E8E845F, 0xDCE5075C,
    0x92A8FC17, 0x60C37F14, 0x73938CE0, 0x81F80FE3, 0x55326B08, 0xA759E80B, 0xB4091BFF, 0x466298FC,
    0x1871A4D8, 0xEA1A27DB, 0xF94AD42F, 0x0B21572C, 0xDFEB33C7, 0x2D80B0C4, 0x3ED04330, 0xCCBBC033,
    0xA24BB5A6, 0x502036A5, 0x4370C551, 0xB11B4652, 0x65D122B9, 0x97BAA1BA, 0x84EA524E, 0x7681D14D,
    0x2892ED69, 0xDAF96E6A, 0xC9A99D9E, 0x3BC21E9D, 0xEF087A76, 0x1D63F975, 0x0E330A81, 0xFC588982,
    0xB21572C9, 0x407EF1CA, 0x532E023E, 0xA145813D, 0x758FE5D6, 0x87E466D5, 0x94B49521, 0x66DF1622,
    0x38CC2A06, 0xCAA7A905, 0xD9F75AF1, 0x2B9CD9F2, 0xFF56BD19, 0x0D3D3E1A, 0x1E6DCDEE, 0xEC064EED,
    0xC38D26C4, 0x31E6A5C7, 0x22B65633, 0xD0DDD530, 0x0417B1DB, 0xF67C32D8, 0xE52CC12C, 0x1747422F,
    0x49547E0B, 0xBB3FFD08, 0xA86F0EFC, 0x5A048DFF, 0x8ECEE914, 0x7CA56A17, 0x6FF599E3, 0x9D9E1AE0,
    0xD3D3E1AB, 0x21B862A8, 0x32E8915C, 0xC083125F, 0x144976B4, 0xE622F5B7, 0xF5720643, 0x07198540,
    0x590AB964, 0xAB613A67, 0xB831C993, 0x4A5A4A90, 0x9E902E7B, 0x6CFBAD78, 0x7FAB5E8C, 0x8DC0DD8F,
    0xE330A81A, 0x115B2B19, 0x020BD8ED, 0xF0605BEE, 0x24AA3F05, 0xD6C1BC06, 0xC5914FF2, 0x37FACCF1,
    0x69E9F0D5, 0x9B8273D6, 0x88D28022, 0x7AB90321, 0xAE7367CA, 0x5C18E4C9, 0x4F48173D, 0xBD23943E,
    0xF36E6F75, 0x0105EC76, 0x12551F82, 0xE03E9C81, 0x34F4F86A, 0xC69F7B69, 0xD5CF889D, 0x27A40B9E,
    0x79B737BA, 0x8BDCB4B9, 0x988C474D, 0x6AE7C44E, 0xBE2DA0A5, 0x4C4623A6, 0x5F16D052, 0xAD7D5351]

/-- `(UInt8)crc ^ *(p++)`: both are promoted to `int`, and `Char` is signed. -/
def crcIndex (crc : UInt32) (c : UInt8) : Int :=
  (Int32.ofNat crc.toUInt8.toNat ^^^ c.toInt8.toInt32).toInt

/-- `kCrcTbl[index]`. A negative index reads the words that stand before the table. -/
def crcEntry (before : Nat → UInt32) : Int → UInt32
  | .ofNat i => kCrcTbl.getD i 0
  | .negSucc i => before i

/-- One round of `ke_calculate_crc32`. -/
def crcRound (before : Nat → UInt32) (crc : UInt32) (c : UInt8) : UInt32 :=
  crcEntry before (crcIndex crc c) ^^^ (crc >>> 8)

/-- `ke_calculate_crc32`. -/
def keCalculateCrc32 (before : Nat → UInt32) (mem : Store) (p : UInt64) (len : UInt32) : UInt32 :=
  (mem.read p.toNat len.toNat).foldl (crcRound before) 0xffffffff ^^^ 0xffffffff

/-! ### The two calls -/

/-- `mm_is_valid_heap`. -/
def mmIsValidHeap (before : Nat → UInt32) (heapPtr : UInt64) (mem : Store) : Bool :=
  if heapPtr ≠ 0 ∧ isBitMap heapPtr mem = true then
    let heapInfoPtr := heapPtr - hibSize
    let info := heapInfo mem heapInfoPtr
    if heapInfoPtr ≠ 0 ∧ info.bit hibPresent = true ∧ info.fMagic = kKernelHeapMagic then
      if info.fCRC32 ≠ keCalculateCrc32 before mem info.fHeapPtr info.fHeapSize.toUInt32 then false
      else true
    else false
  else false

/-- `mm_protect_heap`. -/
def mmProtectHeap (before : Nat → UInt32) (heapPtr : UInt64) (k : Kernel) : Bool × Kernel :=
  if heapPtr ≠ 0 then
    let heapInfoPtr := heapPtr - hibSize
    let info := heapInfo k.mem heapInfoPtr
    if heapInfoPtr ≠ 0 ∧ info.bit hibPresent = true ∧ kKernelHeapMagic = info.fMagic then
      let crc := keCalculateCrc32 before k.mem info.fHeapPtr info.fHeapSize.toUInt32
      (true, { k with mem := setHeapInfo k.mem heapInfoPtr { info with fCRC32 := crc } })
    else (false, k)
  else (false, k)

/-- What the check promises of a payload of `sz` bytes at `p`, in the state after it was protected. -/
structure HeapCheck (before : Nat → UInt32) (p sz : UInt64) (k : Kernel) : Prop where
  kept : ∀ mem, (∀ a, (p - hibSize).toNat ≤ a → a < p.toNat + sz.toNat → mem a = k.mem a) →
    mmIsValidHeap before p mem = true
  deleted : mmIsValidHeap before p (mmDeleteHeap p k).2.mem = false
  changed : ∀ a, p.toNat ≤ a → a < p.toNat + sz.toNat → ∀ c ≠ k.mem a,
    mmIsValidHeap before p (Function.update k.mem a c) = false

/-! ### What a CRC depends on -/

section Crc

variable {before : Nat → UInt32} {crc : UInt32}

theorem crcIndex_zero (crc : UInt32) : crcIndex crc 0 = .ofNat crc.toUInt8.toNat := by
  have hall : ∀ i : Fin 256, (Int32.ofNat i ^^^ (0 : UInt8).toInt8.toInt32).toInt = .ofNat i := by decide +kernel
  exact hall ⟨_, crc.toUInt8.toNat_lt⟩

theorem crcIndex_one (crc : UInt32) : crcIndex crc 1 = .ofNat (crc.toUInt8.toNat ^^^ 1) := by
  have hall : ∀ i : Fin 256, (Int32.ofNat i ^^^ (1 : UInt8).toInt8.toInt32).toInt = .ofNat (i ^^^ 1) := by
    decide +kernel
  exact hall ⟨_, crc.toUInt8.toNat_lt⟩

theorem crcRound_zero_ne_one (before : Nat → UInt32) (crc : UInt32) :
    crcRound before crc 0 ≠ crcRound before crc 1 := by
  have hall : ∀ i : Fin 256, kCrcTbl.getD i 0 ≠ kCrcTbl.getD (i ^^^ 1) 0 := by decide +kernel
  intro h
  unfold crcRound at h
  rw [crcIndex_zero, crcIndex_one] at h
  exact hall ⟨_, crc.toUInt8.toNat_lt⟩ ((UInt32.xor_left_inj _).mp h)

theorem keCalculateCrc32_update {mem : Store} {p : UInt64} {len : UInt32} {n : Nat} (hlen : len.toNat = n + 1) :
    keCalculateCrc32 before (Function.update mem (p.toNat + n) 0) p len ≠
      keCalculateCrc32 before (Function.update mem (p.toNat + n) 1) p len := by
  have hread : ∀ c, Store.read (Function.update mem (p.toNat + n) c) p.toNat (n + 1) = mem.read p.toNat n ++ [c] := by
    intro c
    rw [Store.read_add]
    congr 1
    · apply Store.read_congr
      intro a _ hlt
      exact Function.update_of_ne (Nat.ne_of_lt hlt) c mem
    · simp [Store.read]
  unfold keCalculateCrc32
  rw [hlen, hread, hread, List.foldl_append, List.foldl_append, ne_eq, UInt32.xor_left_inj]
  exact crcRound_zero_ne_one before _

end Crc

/-! ### What the calls return -/

section Calls

variable {before : Nat → UInt32} {debug wr user : Bool} {fuel : Nat} {sz p : UInt64} {k k' k₁ : Kernel} {mem : Store}

theorem mmIsValidHeap_iff : mmIsValidHeap before p mem = true ↔ p ≠ 0 ∧ isBitMap p mem = true ∧ p - hibSize ≠ 0 ∧
    (heapInfo mem (p - hibSize)).bit hibPresent = true ∧
    (heapInfo mem (p - hibSize)).fMagic = kKernelHeapMagic ∧
    (heapInfo mem (p - hibSize)).fCRC32 = keCalculateCrc32 before mem (heapInfo mem (p - hibSize)).fHeapPtr
      (heapInfo mem (p - hibSize)).fHeapSize.toUInt32 := by
  simp [mmIsValidHeap, and_assoc]

theorem heapInfo_fHeapSize (mem : Store) (heapInfoPtr : UInt64) :
    (heapInfo mem heapInfoPtr).fHeapSize = mem.get Codec.u64 (heapInfoPtr.toNat + 21) := by
  rw [heapInfo_eq]

theorem mmProtectHeap_yes (h : mmProtectHeap before p k = (true, k₁)) : p ≠ 0 ∧
    heapInfo k₁.mem (p - hibSize) = { heapInfo k.mem (p - hibSize) with
      fCRC32 := keCalculateCrc32 before k.mem (heapInfo k.mem (p - hibSize)).fHeapPtr
        (heapInfo k.mem (p - hibSize)).fHeapSize.toUInt32 } := by
  unfold mmProtectHeap at h
  split at h
  · rename_i hptr
    dsimp only at h
    split at h
    · rw [← (Prod.mk.inj h).2]
      exact ⟨hptr, heapInfo_setHeapInfo k.mem (p - hibSize) _⟩
    · cases h
  · cases h

theorem mmProtectHeap_returns (before : Nat → UInt32) (hptr : p ≠ 0) (hinfo : p - hibSize ≠ 0)
    (hmagic : (heapInfo k.mem (p - hibSize)).fMagic = kKernelHeapMagic)
    (hpresent : (heapInfo k.mem (p - hibSize)).bit hibPresent = true) :
    ∃ k₁, mmProtectHeap before p k = (true, k₁) ∧
      ∀ a, a < (p - hibSize).toNat ∨ (p - hibSize).toNat + 53 ≤ a → k₁.mem a = k.mem a := by
  unfold mmProtectHeap
  rw [if_pos hptr]
  dsimp only
  rw [if_pos ⟨hinfo, hpresent, hmagic.symm⟩]
  exact ⟨_, rfl, fun a ha => setHeapInfo_outside ha⟩

theorem freeBitMap_outside {ptr : UInt64} {a : Nat} (h : a < ptr.toNat ∨ ptr.toNat + bitMapHeaderSize ≤ a) :
    (freeBitMap ptr mem).2 a = mem a := by
  simp only [bitMapHeaderSize] at h
  unfold freeBitMap
  split
  · rfl
  · show setBitSet (setBitSet mem ptr kBitMapMagIdx kBitMapMagic) ptr kBitMapUsedIdx 0 a = mem a
    rw [setBitSet_outside (by simp only [kBitMapUsedIdx]; omega),
      setBitSet_outside (by simp only [kBitMapMagIdx]; omega)]

theorem mmFreeBitmap_outside {ptr : UInt64} {a : Nat} (h : a < ptr.toNat ∨ ptr.toNat + bitMapHeaderSize ≤ a) :
    (mmFreeBitmap ptr k).2.mem a = k.mem a := by
  unfold mmFreeBitmap
  split
  · rfl
  · exact freeBitMap_outside h

theorem newHeapMem_fHeapSize (wr user : Bool) (sz b : UInt64) (mem : Store) :
    (heapInfo (newHeapMem wr user sz b mem) (b + hibSize)).fHeapSize = sz + hibSize := by
  rw [heapInfo_fHeapSize, newHeapMem, Store.get_congr fun a _ hlt => clearPadding_outside (Or.inl ?_),
    ← heapInfo_fHeapSize, heapInfo_setHeapInfo]
  · rfl
  · simp only [Codec.u64, Codec.map, Codec.word] at hlt
    omega

theorem mmNewHeap_range (hpos : sz ≠ 0) (hmax : sz < kKernelHeapMaxSize)
    (hnew : mmNewHeap debug fuel sz wr user k = .ok (p, k')) :
    (heapInfo k'.mem (p - hibSize)).fHeapPtr = p ∧ (heapInfo k'.mem (p - hibSize)).fHeapSize = sz + hibSize := by
  obtain ⟨⟨w, k₁⟩, hreq⟩ : ∃ r, PageMgr.request debug fuel wr user false (sz + hibSize) k = .ok r := by
    simp only [mmNewHeap, hpos, if_false, Exec.pure_eq_ok] at hnew
    obtain ⟨-, -, hrest⟩ := Exec.bind_eq_ok.mp hnew
    obtain ⟨r, hreq, -⟩ := Exec.bind_eq_ok.mp hrest
    exact ⟨r, hreq⟩
  rw [mmNewHeap_of_request hpos hmax hreq] at hnew
  obtain ⟨rfl, rfl⟩ := Prod.mk.inj (Except.ok.inj hnew)
  rw [UInt64.add_sub_cancel]
  exact ⟨newHeapMem_fHeapPtr wr user sz w.fVirtAddr k₁.mem, newHeapMem_fHeapSize wr user sz w.fVirtAddr k₁.mem⟩

theorem heapInfo_update_behind {n : Nat} (hn : n < 2 ^ 63) (c : UInt8) :
    heapInfo (Function.update mem (p.toNat + n) c) (p - hibSize) = heapInfo mem (p - hibSize) := by
  have hp := p.toNat_lt
  have hstart : (p - hibSize).toNat = (2 ^ 64 - 53 + p.toNat) % 2 ^ 64 := UInt64.toNat_sub p hibSize
  apply Store.get_congr
  intro a ha hlt
  rw [hibSize_codec, show hibSize.toNat = 53 from rfl] at hlt
  have hne : a ≠ p.toNat + n := by omega
  exact Function.update_of_ne hne c mem

end Calls

/-- No payload keeps its check: the CRC covers the 53 bytes behind it too. The information block is as
`mm_new_heap` left it, whatever has happened to the rest of the memory since. -/
theorem heap_check_never {before : Nat → UInt32} {debug wr user : Bool} {fuel : Nat} {sz p : UInt64}
    {k k' k₁ : Kernel} {mem : Store} (hmax : sz < kKernelHeapMaxSize)
    (hnew : mmNewHeap debug fuel sz wr user k = .ok (p, k'))
    (hinfo : heapInfo mem (p - hibSize) = heapInfo k'.mem (p - hibSize))
    (hprot : mmProtectHeap before p { k' with mem := mem } = (true, k₁)) : ¬ HeapCheck before p sz k₁ := by
  intro hcheck
  obtain ⟨hptr, hstored⟩ := mmProtectHeap_yes hprot
  have hpos : sz ≠ 0 := by
    rintro rfl
    exact hptr (Prod.mk.inj (Except.ok.inj hnew)).1.symm
  have hszmax : sz.toNat < 2 ^ 31 := UInt64.lt_iff_toNat_lt.mp hmax
  have hlen : (sz + hibSize).toUInt32.toNat = sz.toNat + 52 + 1 := by
    rw [UInt64.toNat_toUInt32, UInt64.toNat_add, show hibSize.toNat = 53 from rfl]
    omega
  obtain ⟨haddr, hsize⟩ := mmNewHeap_range hpos hmax hnew
  -- the last byte the CRC covers is not the payload's
  have hcovered : ∀ c, (heapInfo k₁.mem (p - hibSize)).fCRC32 =
      keCalculateCrc32 before (Function.update k₁.mem (p.toNat + (sz.toNat + 52)) c) p (sz + hibSize).toUInt32 := by
    intro c
    have hvalid := hcheck.kept (Function.update k₁.mem (p.toNat + (sz.toNat + 52)) c) (by
      intro a _ hlt
      have hne : a ≠ p.toNat + (sz.toNat + 52) := by omega
      exact Function.update_of_ne hne c k₁.mem)
    obtain ⟨-, -, -, -, -, hcrc⟩ := mmIsValidHeap_iff.mp hvalid
    rw [heapInfo_update_behind (by omega)] at hcrc
    rw [hcrc, hstored]
    dsimp only
    rw [hinfo, haddr, hsize]
  exact keCalculateCrc32_update hlen ((hcovered 0).symm.trans (hcovered 1))

theorem newHeapMem_payload {wr user : Bool} {sz b : UInt64} {mem : Store} {a : Nat}
    (hlow : (b + hibSize).toNat + 37 ≤ a) (hhigh : a < (b + hibSize).toNat + 101) :
    newHeapMem wr user sz b mem a = 0 := by
  have hlen : (List.replicate (4 * kKernelHeapAlignSz) (0 : UInt8)).length = 64 := rfl
  rw [newHeapMem, clearPadding, Store.write, if_pos ⟨hlow, by omega⟩, List.getD_replicate]
  exact show a - _ < 64 by omega

/-- What a request of 128 bytes leaves of the zeroed pool. -/
def newHeapKernel : Kernel :=
  { zeroPool.kernel with
    mem := newHeapMem true false 128 0x10001000 (formatHeader zeroPool.kernel.mem 0x10001000 181) }.mapBlock
      0x10001000 true false

theorem newHeapKernel_new : mmNewHeap true 1 128 true false zeroPool.kernel = .ok (0x1000106A, newHeapKernel) := by
  have hchain : IsChain zeroPool.kernel.mem zeroPool.kernel.poolBase (2 ^ 32) [] 0x10001000 := .nil (by decide)
  have hsize : bitMapHeaderSize ≤ (128 + hibSize).toNat := by decide
  have halloc := mmAllocBitmap_format true true false hchain (by decide) hsize (by decide) (by decide) (by decide)
  exact mmNewHeap_of_request (by decide) (by decide) (PageMgr.request_of_alloc false halloc)

theorem newHeapKernel_protect : ∃ k₁, mmProtectHeap (fun _ => 0) 0x1000106A newHeapKernel = (true, k₁) ∧
    bitSet k₁.mem 0x1000106A kBitMapMagIdx = 0 := by
  obtain ⟨hmagic, hpresent⟩ := newHeapMem_info true false 128 0x10001000
    (formatHeader zeroPool.kernel.mem 0x10001000 181)
  obtain ⟨k₁, hprot, hsame⟩ := mmProtectHeap_returns (k := newHeapKernel) (p := 0x1000106A) (fun _ => 0)
    (by decide) (by decide) hmagic hpresent
  refine ⟨k₁, hprot, bitSet_zeroed ?_⟩
  intro a ha hlt
  have hlow : 0x1000106A ≤ a := ha
  have hhigh : a < 0x1000106A + 8 := hlt
  have hinfo : ((0x1000106A : UInt64) - hibSize).toNat = 0x10001035 := rfl
  rw [hsame a (by omega)]
  have hblock : ((0x10001000 : UInt64) + hibSize).toNat = 0x10001035 := rfl
  exact newHeapMem_payload (by omega) (by omega)

theorem heap_check_never_small : ∃ k₁,
    mmNewHeap true 1 128 true false zeroPool.kernel = .ok (0x1000106A, newHeapKernel) ∧
    mmProtectHeap (fun _ => 0) 0x1000106A newHeapKernel = (true, k₁) ∧ ¬ HeapCheck (fun _ => 0) 0x1000106A 128 k₁ := by
  obtain ⟨k₁, hprot, -⟩ := newHeapKernel_protect
  exact ⟨k₁, newHeapKernel_new, hprot, heap_check_never (by decide) newHeapKernel_new rfl hprot⟩

/-- A zeroed payload is not valid right behind `mm_protect_heap`: it does not start as a bitmap block does. -/
theorem protected_not_valid : ∃ k₁,
    mmNewHeap true 1 128 true false zeroPool.kernel = .ok (0x1000106A, newHeapKernel) ∧
    mmProtectHeap (fun _ => 0) 0x1000106A newHeapKernel = (true, k₁) ∧
    mmIsValidHeap (fun _ => 0) 0x1000106A k₁.mem = false := by
  obtain ⟨k₁, hprot, hword⟩ := newHeapKernel_protect
  refine ⟨k₁, newHeapKernel_new, hprot, ?_⟩
  have hbitmap : isBitMap 0x1000106A k₁.mem = false := by
    rw [isBitMap, if_neg (by decide), if_pos (.inl hword)]
  rw [mmIsValidHeap, hbitmap, if_neg]
  exact fun hand => by cases hand.2

end OpenNE

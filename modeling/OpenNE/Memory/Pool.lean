import OpenNE.Memory.BitMap
import OpenNE.Memory.PageStore

/-!
# The pool as a chain of blocks

The headers of the pool, read from its base by adding the stored sizes, lie end to end (`IsChain`).
`findBitMap` walks this chain to the first freed block that is not larger than the request, or behind the
last block. A call that replaces blocks of the chain by one over the same range leaves a chain
(`IsChain.replace`).
-/

namespace OpenNE

/-! ### Headers -/

theorem bitSet_congr {mem mem' : Store} {ptr : UInt64} {idx : Nat}
    (h : ∀ a, ptr.toNat + 8 * idx ≤ a → a < ptr.toNat + 8 * idx + 8 → mem a = mem' a) :
    bitSet mem ptr idx = bitSet mem' ptr idx :=
  Store.get_congr h

@[simp] theorem bitSet_setBitSet_same (mem : Store) (ptr value : UInt64) (idx : Nat) :
    bitSet (setBitSet mem ptr idx value) ptr idx = value :=
  Store.get_put_same

theorem bitSet_setBitSet_ne {mem : Store} {ptr value : UInt64} {i j : Nat} (h : i ≠ j) :
    bitSet (setBitSet mem ptr i value) ptr j = bitSet mem ptr j := by
  refine Store.get_put_disjoint ?_
  simp only [Codec.u64, Codec.map, Codec.word]
  omega

theorem setBitSet_outside {mem : Store} {ptr value : UInt64} {idx a : Nat}
    (h : a < ptr.toNat + 8 * idx ∨ ptr.toNat + 8 * idx + 8 ≤ a) :
    setBitSet mem ptr idx value a = mem a :=
  Store.put_apply_outside h

theorem bitSet_zeroed {mem : Store} {ptr : UInt64} {idx : Nat}
    (h : ∀ a, ptr.toNat + 8 * idx ≤ a → a < ptr.toNat + 8 * idx + 8 → mem a = 0) :
    bitSet mem ptr idx = 0 :=
  Store.get_zeroed (c := Codec.u64) h

/-- A header as it stands in memory, with the range it claims. -/
structure Block where
  addr : UInt64
  size : UInt64
  used : Bool
  deriving DecidableEq

/-- The range of a block. -/
def Block.span (b : Block) : Span := ⟨b.addr.toNat, b.size.toNat⟩

/-- The header of `b` stands at its address. -/
def HeaderAt (mem : Store) (b : Block) : Prop :=
  bitSet mem b.addr kBitMapMagIdx = kBitMapMagic ∧ bitSet mem b.addr kBitMapSizeIdx = b.size ∧
    (bitSet mem b.addr kBitMapUsedIdx ≠ 0 ↔ b.used = true)

instance (mem : Store) (b : Block) : Decidable (HeaderAt mem b) :=
  inferInstanceAs (Decidable (_ ∧ _ ∧ _))

theorem HeaderAt.congr {mem mem' : Store} {b : Block}
    (h : ∀ a, b.addr.toNat ≤ a → a < b.addr.toNat + bitMapHeaderSize → mem a = mem' a)
    (hb : HeaderAt mem b) : HeaderAt mem' b := by
  have hword : ∀ idx, idx < 3 → bitSet mem b.addr idx = bitSet mem' b.addr idx := fun idx hidx =>
    bitSet_congr fun a _ _ => h a (by omega) (by simp only [bitMapHeaderSize]; omega)
  obtain ⟨hmagic, hsize, hused⟩ := hb
  refine ⟨?_, ?_, ?_⟩
  · rw [← hword _ (by decide), hmagic]
  · rw [← hword _ (by decide), hsize]
  · rw [← hword _ (by decide), hused]

/-- A block `FindBitMap` takes for a request of `size` bytes: freed, and not larger than the request. -/
def Suitable (size : UInt64) (b : Block) : Prop := b.size ≤ size ∧ b.used = false

instance (size : UInt64) (b : Block) : Decidable (Suitable size b) :=
  inferInstanceAs (Decidable (_ ∧ _))

/-! ### The chain -/

/-- The headers from `base` on, as the stored sizes link them, up to the first place without one. The
blocks have room for their header and end inside the zeroed memory, which reaches to `limit`. -/
structure IsChain (mem : Store) (base limit : Nat) (blocks : List Block) (top : Nat) : Prop where
  tiles : Tiles base (blocks.map Block.span) top
  headers : ∀ b ∈ blocks, HeaderAt mem b
  sizes : ∀ b ∈ blocks, bitMapHeaderSize ≤ b.size.toNat
  top_le : top ≤ limit

/-- The place behind the last block holds no header. -/
def Ends (mem : Store) (top : Nat) : Prop :=
  bitSet mem (UInt64.ofNat top) kBitMapMagIdx ≠ kBitMapMagic

section Chain

variable {mem : Store} {base limit top : Nat} {blocks : List Block}

instance : Decidable (Ends mem top) := inferInstanceAs (Decidable (_ ≠ _))

theorem IsChain.nil (h : base ≤ limit) : IsChain mem base limit [] base :=
  ⟨rfl, by simp, by simp, h⟩

theorem IsChain.bounds (h : IsChain mem base limit blocks top) {b : Block} (hb : b ∈ blocks) :
    base ≤ b.addr.toNat ∧ b.addr.toNat + b.size.toNat ≤ top :=
  h.tiles.bounds (List.mem_map_of_mem hb)

theorem IsChain.base_le (h : IsChain mem base limit blocks top) : base ≤ top :=
  h.tiles.le_end

theorem IsChain.tail {b : Block} (h : IsChain mem base limit (b :: blocks) top) :
    IsChain mem (base + b.size.toNat) limit blocks top :=
  ⟨h.tiles.2, fun c hc => h.headers c (by simp [hc]), fun c hc => h.sizes c (by simp [hc]), h.top_le⟩

theorem IsChain.pairwise (h : IsChain mem base limit blocks top) :
    blocks.Pairwise fun b c => b.addr.toNat + b.size.toNat ≤ c.addr.toNat :=
  List.pairwise_map.mp h.tiles.pairwise

theorem IsChain.apart (h : IsChain mem base limit blocks top) {b c : Block} (hb : b ∈ blocks)
    (hc : c ∈ blocks) (hne : b ≠ c) :
    b.addr.toNat + b.size.toNat ≤ c.addr.toNat ∨ c.addr.toNat + c.size.toNat ≤ b.addr.toNat := by
  have hpair := List.pairwise_iff_getElem.mp h.pairwise
  obtain ⟨i, hi, rfl⟩ := List.getElem_of_mem hb
  obtain ⟨j, hj, rfl⟩ := List.getElem_of_mem hc
  rcases Nat.lt_trichotomy i j with hlt | rfl | hlt
  · exact Or.inl (hpair i j hi hj hlt)
  · exact absurd rfl hne
  · exact Or.inr (hpair j i hj hi hlt)

theorem IsChain.addr_ne {pre post : List Block} {b : Block} (h : IsChain mem base limit (pre ++ b :: post) top) :
    (∀ c ∈ pre, c.addr ≠ b.addr) ∧ ∀ c ∈ post, c.addr ≠ b.addr := by
  obtain ⟨-, hafter, hbefore⟩ := List.pairwise_append.mp h.pairwise
  have hsizes := h.sizes
  simp only [bitMapHeaderSize] at hsizes
  refine ⟨fun c hc heq => ?_, fun c hc heq => ?_⟩
  · have hle := hbefore c hc b (by simp)
    have := hsizes c (by simp [hc])
    rw [heq] at hle
    omega
  · have hle := (List.pairwise_cons.mp hafter).1 c hc
    have := hsizes b (by simp)
    rw [heq] at hle
    omega

theorem IsChain.prefix {blocks' : List Block} {top' : Nat}
    (hzero : ∀ a, top ≤ a → a < limit → mem a = 0)
    (h : IsChain mem base limit blocks top) (h' : IsChain mem base limit blocks' top') :
    ∃ rest, blocks = blocks' ++ rest := by
  induction blocks' generalizing base blocks with
  | nil => exact ⟨blocks, rfl⟩
  | cons c rest' ih =>
    have hc := h'.headers c (by simp)
    have haddr' : c.addr.toNat = base := h'.tiles.1
    cases blocks with
    | nil =>
      -- a header where the memory is zeroed
      obtain rfl : base = top := h.tiles
      have hsize := h'.sizes c (by simp)
      have hbound := (h'.bounds (b := c) (by simp)).2
      have htop := h'.top_le
      have hmagic : bitSet mem c.addr kBitMapMagIdx = 0 :=
        bitSet_zeroed fun a ha hlt => hzero a (by omega)
          (by simp only [kBitMapMagIdx, bitMapHeaderSize] at hlt hsize; omega)
      rw [hc.1] at hmagic
      exact absurd hmagic (by decide)
    | cons b rest =>
      have haddr : b.addr.toNat = base := h.tiles.1
      have hb := h.headers b (by simp)
      have hsame : c.addr = b.addr := UInt64.toNat_inj.mp (by omega)
      obtain rfl : c = b := by
        obtain ⟨caddr, csize, cused⟩ := c
        obtain ⟨baddr, bsize, bused⟩ := b
        obtain rfl : caddr = baddr := hsame
        obtain rfl : csize = bsize := hc.2.1.symm.trans hb.2.1
        obtain rfl : cused = bused := Bool.eq_iff_iff.mpr (hc.2.2.symm.trans hb.2.2)
        rfl
      obtain ⟨more, rfl⟩ := ih h.tail h'.tail
      exact ⟨more, rfl⟩

theorem IsChain.unique {blocks' : List Block} {top' : Nat}
    (hzero : ∀ a, top ≤ a → a < limit → mem a = 0)
    (h : IsChain mem base limit blocks top) (h' : IsChain mem base limit blocks' top')
    (hends : Ends mem top') : blocks' = blocks ∧ top' = top := by
  obtain ⟨rest, rfl⟩ := h.prefix hzero h'
  obtain ⟨m, hpre, hrest⟩ := Tiles.append.mp (List.map_append ▸ h.tiles)
  obtain rfl : m = top' := hpre.end_unique h'.tiles
  cases rest with
  | nil => exact ⟨by simp, hrest⟩
  | cons c rest =>
    obtain rfl : c.addr.toNat = m := hrest.1
    rw [Ends, UInt64.ofNat_toNat] at hends
    exact absurd (h.headers c (by simp)).1 hends

/-! ### The search -/

variable {k : Kernel} {size : UInt64} {wr user : Bool}

theorem findBitMapRound_skip (wr user : Bool) {b : Block} (hb : HeaderAt k.mem b) (hns : ¬ Suitable size b) :
    findBitMapRound size wr user k b.addr = .ok (.inl (b.addr + b.size)) := by
  obtain ⟨hmagic, hsize, hused⟩ := hb
  have hnused : b.size ≤ size → ¬ bitSet k.mem b.addr kBitMapUsedIdx = 0 := by
    intro hle
    rw [← ne_eq, hused]
    by_contra hfree
    exact hns ⟨hle, Bool.eq_false_iff.mpr hfree⟩
  unfold findBitMapRound
  rw [hmagic, hsize]
  by_cases hle : b.size ≤ size
  · rw [if_pos ⟨rfl, hle⟩, if_neg (hnused hle)]
    simp
  · rw [if_neg (fun h => hle h.2)]
    simp

/-- The memory after `FindBitMap` took the freed block at `ptr`. -/
def reuseHeader (mem : Store) (ptr size : UInt64) : Store :=
  setBitSet (setBitSet mem ptr kBitMapSizeIdx size) ptr kBitMapUsedIdx 1

/-- The memory after `FindBitMap` formatted a block at `ptr`. -/
def formatHeader (mem : Store) (ptr size : UInt64) : Store :=
  reuseHeader (setBitSet mem ptr kBitMapMagIdx kBitMapMagic) ptr size

theorem findBitMapRound_reuse (wr user : Bool) {b : Block} (hb : HeaderAt k.mem b) (hs : Suitable size b) :
    findBitMapRound size wr user k b.addr =
      .ok (.inr (b.addr, { k with mem := reuseHeader k.mem b.addr size }.mapBlock b.addr wr user)) := by
  obtain ⟨hmagic, hsize, hused⟩ := hb
  have hfree : bitSet k.mem b.addr kBitMapUsedIdx = 0 := by
    by_contra hne
    have := hused.mp hne
    rw [hs.2] at this
    cases this
  unfold findBitMapRound
  rw [hmagic, hsize, if_pos ⟨rfl, hs.1⟩, if_pos hfree]
  rfl

theorem findBitMapRound_format {ptr : UInt64} (h : bitSet k.mem ptr kBitMapMagIdx ≠ kBitMapMagic) :
    findBitMapRound size wr user k ptr =
      .ok (.inr (ptr, { k with mem := formatHeader k.mem ptr size }.mapBlock ptr wr user)) := by
  unfold findBitMapRound
  rw [if_neg (fun hand => h hand.1), if_pos h]
  rfl

theorem loop_findBitMap_skip (pre : List Block) {a m : Nat} (hm : m < 2 ^ 64)
    (htiles : Tiles a (pre.map Block.span) m) (hheaders : ∀ b ∈ pre, HeaderAt k.mem b)
    (hskip : ∀ b ∈ pre, ¬ Suitable size b) (fuel : Nat) :
    loop (findBitMapRound size wr user k) (pre.length + fuel) (UInt64.ofNat a) =
      loop (findBitMapRound size wr user k) fuel (UInt64.ofNat m) := by
  induction pre generalizing a with
  | nil =>
    obtain rfl : a = m := htiles
    simp
  | cons b rest ih =>
    have haddr : b.addr.toNat = a := htiles.1
    have hround := findBitMapRound_skip wr user (hheaders b (by simp)) (hskip b (by simp))
    have hnext : b.addr + b.size = UInt64.ofNat (a + b.size.toNat) := by
      apply UInt64.toNat_inj.mp
      rw [UInt64.toNat_add, UInt64.toNat_ofNat', haddr]
    rw [List.length_cons, show rest.length + 1 + fuel = rest.length + fuel + 1 by omega, ← haddr,
      UInt64.ofNat_toNat, loop_succ_next hround, hnext]
    exact ih htiles.2 (fun c hc => hheaders c (by simp [hc])) (fun c hc => hskip c (by simp [hc]))

theorem loop_findBitMap_reuse {pre post : List Block} {b : Block}
    (hchain : IsChain k.mem base limit (pre ++ b :: post) top)
    (hskip : ∀ c ∈ pre, ¬ Suitable size c) (hs : Suitable size b) :
    loop (findBitMapRound size wr user k) (pre.length + 1) (UInt64.ofNat base) =
      .ok (b.addr, { k with mem := reuseHeader k.mem b.addr size }.mapBlock b.addr wr user) := by
  have htiles := hchain.tiles
  rw [List.map_append, Tiles.append] at htiles
  obtain ⟨m, hpre, hrest⟩ := htiles
  obtain rfl : b.addr.toNat = m := hrest.1
  rw [loop_findBitMap_skip pre b.addr.toNat_lt hpre (fun c hc => hchain.headers c (by simp [hc])) hskip,
    UInt64.ofNat_toNat]
  exact loop_succ_leave (findBitMapRound_reuse wr user (hchain.headers b (by simp)) hs) 0

theorem loop_findBitMap_format (hchain : IsChain k.mem base limit blocks top)
    (hskip : ∀ c ∈ blocks, ¬ Suitable size c) (htop : top < 2 ^ 64) (hends : Ends k.mem top) :
    loop (findBitMapRound size wr user k) (blocks.length + 1) (UInt64.ofNat base) =
      .ok (UInt64.ofNat top,
        { k with mem := formatHeader k.mem (UInt64.ofNat top) size }.mapBlock (UInt64.ofNat top) wr user) := by
  rw [loop_findBitMap_skip blocks htop hchain.tiles hchain.headers hskip]
  exact loop_succ_leave (findBitMapRound_format hends) 0

/-! ### What a call does to the chain -/

theorem formatHeader_headerAt (ptr : UInt64) :
    HeaderAt (formatHeader mem ptr size) ⟨ptr, size, true⟩ := by
  refine ⟨?_, ?_, ?_⟩
  · rw [formatHeader, reuseHeader, bitSet_setBitSet_ne (by decide), bitSet_setBitSet_ne (by decide),
      bitSet_setBitSet_same]
  · rw [formatHeader, reuseHeader, bitSet_setBitSet_ne (by decide), bitSet_setBitSet_same]
  · rw [formatHeader, reuseHeader, bitSet_setBitSet_same]
    simp

theorem reuseHeader_headerAt {b : Block} (hb : HeaderAt mem b) :
    HeaderAt (reuseHeader mem b.addr size) ⟨b.addr, size, true⟩ := by
  refine ⟨?_, ?_, ?_⟩
  · rw [reuseHeader, bitSet_setBitSet_ne (by decide), bitSet_setBitSet_ne (by decide), hb.1]
  · rw [reuseHeader, bitSet_setBitSet_ne (by decide), bitSet_setBitSet_same]
  · rw [reuseHeader, bitSet_setBitSet_same]
    simp

theorem reuseHeader_outside {ptr : UInt64} {a : Nat}
    (h : a < ptr.toNat ∨ ptr.toNat + bitMapHeaderSize ≤ a) : reuseHeader mem ptr size a = mem a := by
  simp only [bitMapHeaderSize] at h
  rw [reuseHeader, setBitSet_outside (by simp only [kBitMapUsedIdx]; omega),
    setBitSet_outside (by simp only [kBitMapSizeIdx]; omega)]

theorem formatHeader_outside {ptr : UInt64} {a : Nat}
    (h : a < ptr.toNat ∨ ptr.toNat + bitMapHeaderSize ≤ a) : formatHeader mem ptr size a = mem a := by
  rw [formatHeader, reuseHeader_outside h]
  simp only [bitMapHeaderSize] at h
  exact setBitSet_outside (by simp only [kBitMapMagIdx]; omega)

theorem freeBitMap_block {ptr : UInt64} {used : Bool} (hb : HeaderAt mem ⟨ptr, size, used⟩) (hne : ptr ≠ 0) :
    (freeBitMap ptr mem).1 = true ∧ HeaderAt (freeBitMap ptr mem).2 ⟨ptr, size, false⟩ ∧
      ∀ a, a < ptr.toNat ∨ ptr.toNat + bitMapHeaderSize ≤ a → (freeBitMap ptr mem).2 a = mem a := by
  obtain ⟨hmagic, hsize, -⟩ := hb
  simp only at hmagic hsize
  have his : isBitMap ptr mem = true := by
    rw [isBitMap, if_neg hne, hmagic]
    simp [kBitMapMagic]
  rw [freeBitMap, his, if_neg (by simp)]
  refine ⟨rfl, ⟨?_, ?_, ?_⟩, fun a ha => ?_⟩
  · rw [bitSet_setBitSet_ne (by decide), bitSet_setBitSet_same]
  · rw [bitSet_setBitSet_ne (by decide), bitSet_setBitSet_ne (by decide), hsize]
  · rw [bitSet_setBitSet_same]
    simp
  · show setBitSet (setBitSet mem ptr kBitMapMagIdx kBitMapMagic) ptr kBitMapUsedIdx 0 a = mem a
    simp only [bitMapHeaderSize] at ha
    rw [setBitSet_outside (by simp only [kBitMapUsedIdx]; omega),
      setBitSet_outside (by simp only [kBitMapMagIdx]; omega)]

theorem IsChain.congr {mem' : Store} (h : IsChain mem base limit blocks top)
    (hkeep : ∀ b ∈ blocks, ∀ a, b.addr.toNat ≤ a → a < b.addr.toNat + bitMapHeaderSize → mem a = mem' a) :
    IsChain mem' base limit blocks top :=
  ⟨h.tiles, fun b hb => (h.headers b hb).congr (hkeep b hb), h.sizes, h.top_le⟩

theorem IsChain.replace {mem' : Store} {pre mid post : List Block} {b : Block} {top' : Nat}
    (h : IsChain mem base limit (pre ++ (mid ++ post)) top)
    (hpre : Tiles base (pre.map Block.span) b.addr.toNat)
    (hpost : Tiles (b.addr.toNat + b.size.toNat) (post.map Block.span) top')
    (hhead : HeaderAt mem' b) (hsize : bitMapHeaderSize ≤ b.size.toNat) (htop : top' ≤ limit)
    (hsame : ∀ a, base ≤ a → a < limit → a < b.addr.toNat ∨ b.addr.toNat + bitMapHeaderSize ≤ a →
      mem' a = mem a) :
    IsChain mem' base limit (pre ++ b :: post) top' := by
  have hcase : ∀ c ∈ pre ++ b :: post, c = b ∨ c ∈ pre ∨ c ∈ post := by
    intro c hc
    simp only [List.mem_append, List.mem_cons] at hc
    tauto
  refine ⟨?_, fun c hc => ?_, fun c hc => ?_, htop⟩
  · rw [List.map_append, Tiles.append]
    exact ⟨b.addr.toNat, hpre, rfl, hpost⟩
  · rcases hcase c hc with rfl | hc | hc
    · exact hhead
    · have hle := (hpre.bounds (List.mem_map_of_mem hc)).2
      have hcs := h.sizes c (by simp [hc])
      have hbound := h.bounds (b := c) (by simp [hc])
      have hlimit := h.top_le
      simp only [Block.span] at hle
      exact (h.headers c (by simp [hc])).congr fun a _ _ => (hsame a (by omega) (by omega) (by omega)).symm
    · have hle := (hpost.bounds (List.mem_map_of_mem hc)).1
      have hcs := h.sizes c (by simp [hc])
      have hbound := h.bounds (b := c) (by simp [hc])
      have hlimit := h.top_le
      simp only [Block.span] at hle
      exact (h.headers c (by simp [hc])).congr fun a _ _ => (hsame a (by omega) (by omega) (by omega)).symm
  · rcases hcase c hc with rfl | hc | hc
    · exact hsize
    · exact h.sizes c (by simp [hc])
    · exact h.sizes c (by simp [hc])

end Chain

/-! ### The page-table words of a block -/

/-- Where the search starts. -/
def Kernel.poolBase (k : Kernel) : Nat := (k.kKernelBitMpStart + kPageSize).toNat

/-- The words that `mm_map_page` reads and writes for a block at `ptr` lie outside of the pool. -/
def Kernel.MapsOutside (k : Kernel) (limit : Nat) (ptr : UInt64) : Prop :=
  ∀ w ∈ k.paging.words ptr, w.start + w.len ≤ k.poolBase ∨ limit ≤ w.start

instance (k : Kernel) (limit : Nat) (ptr : UInt64) : Decidable (k.MapsOutside limit ptr) :=
  inferInstanceAs (Decidable (∀ w ∈ _, _))

theorem makeMMFlags_ne_zero (wr user : Bool) : makeMMFlags wr user ≠ 0 := by cases wr <;> cases user <;> decide

theorem Kernel.mapBlock_null {k : Kernel} {ptr : UInt64} (wr user : Bool) (hptr : ptr ≠ 0)
    (hmiss : k.pageStore.fVAddr ≠ ptr) (hnull : k.paging.entryPointer ptr = 0) :
    k.mapBlock ptr wr user = { k with pageStore := { k.pageStore with fStoreOp := true } } := by
  have hcall : mmMapPage ptr (makeMMFlags wr user) k.paging = _ :=
    mmMapPage_miss hptr (makeMMFlags_ne_zero wr user) hmiss
  rw [hnull, mmiMapPageTableEntry_null] at hcall
  unfold Kernel.mapBlock Kernel.mapPage
  rw [hcall]
  rfl

theorem Kernel.mapBlock_mapped {k : Kernel} {ptr entry : UInt64} (wr user : Bool) (hptr : ptr ≠ 0)
    (hmiss : k.pageStore.fVAddr ≠ ptr) (hentry : k.paging.entryPointer ptr = entry) (hne : entry ≠ 0) :
    (k.mapBlock ptr wr user).mem = k.mem.put Codec.u64 entry.toNat
      (mapEntry (makeMMFlags wr user) (k.mem.get Codec.u64 entry.toNat)) := by
  have hcall : mmMapPage ptr (makeMMFlags wr user) k.paging = _ :=
    mmMapPage_miss hptr (makeMMFlags_ne_zero wr user) hmiss
  rw [hentry, mmiMapPageTableEntry_mapped hne] at hcall
  unfold Kernel.mapBlock Kernel.mapPage
  rw [hcall]
  rfl

theorem Kernel.mapBlock_outside {k : Kernel} {ptr : UInt64} {mem : Store} (wr user : Bool)
    (hsame : ∀ w ∈ k.paging.words ptr, ∀ a ∈ w, mem a = k.mem a) {a : Nat}
    (ha : ∀ w ∈ k.paging.words ptr, a ∉ w) : ({ k with mem := mem }.mapBlock ptr wr user).mem a = mem a := by
  have hwords : ({ k with mem := mem } : Kernel).paging.words ptr = k.paging.words ptr :=
    Paging.words_congr rfl rfl hsame
  refine mmMapPage_outside ?_
  rw [hwords]
  exact ha

theorem Kernel.mapBlock_pool {k : Kernel} {limit : Nat} {ptr : UInt64} {mem : Store} (wr user : Bool)
    (hout : k.MapsOutside limit ptr) (hsame : ∀ a, a < k.poolBase ∨ limit ≤ a → mem a = k.mem a) {a : Nat}
    (hbase : k.poolBase ≤ a) (hlimit : a < limit) : ({ k with mem := mem }.mapBlock ptr wr user).mem a = mem a := by
  refine Kernel.mapBlock_outside wr user (fun w hw x hx => hsame x ?_) fun w hw => ?_
  · have hw' := hout w hw
    rw [Span.mem_def] at hx
    omega
  · have hw' := hout w hw
    rw [Span.mem_def]
    omega

theorem Kernel.mapBlock_taken {k : Kernel} {limit : Nat} {ptr size : UInt64} {mem : Store} (wr user : Bool)
    (hout : k.MapsOutside limit ptr) (hbase : k.poolBase ≤ ptr.toNat) (hlimit : ptr.toNat + bitMapHeaderSize ≤ limit)
    (hhead : HeaderAt mem ⟨ptr, size, true⟩)
    (hsame : ∀ a, a < ptr.toNat ∨ ptr.toNat + bitMapHeaderSize ≤ a → mem a = k.mem a) :
    HeaderAt ({ k with mem := mem }.mapBlock ptr wr user).mem ⟨ptr, size, true⟩ ∧
      ∀ a, k.poolBase ≤ a → a < limit → a < ptr.toNat ∨ ptr.toNat + bitMapHeaderSize ≤ a →
        ({ k with mem := mem }.mapBlock ptr wr user).mem a = k.mem a := by
  have hpool : ∀ a, k.poolBase ≤ a → a < limit → ({ k with mem := mem }.mapBlock ptr wr user).mem a = mem a :=
    fun a => Kernel.mapBlock_pool wr user hout fun a ha => hsame a (by omega)
  refine ⟨hhead.congr fun a ha hlt => ?_, fun a ha hlt hne => ?_⟩
  · simp only at ha hlt
    exact (hpool a (by omega) (by omega)).symm
  · rw [hpool a ha hlt, hsame a hne]

end OpenNE

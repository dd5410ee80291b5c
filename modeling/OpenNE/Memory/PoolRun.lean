import OpenNE.Memory.Pool

/-!
# Runs of the bitmap allocator

`mm_alloc_bitmap`, `mm_free_bitmap` and the owners' writes, in any order, from a zeroed pool. A request has
`Room` when the freed block it takes, together with the freed blocks right behind it, is as long as the
request, and the page-table words of the block lie outside of the pool. The blocks then stay end to end
(`PoolInv`), so live blocks stay apart (`live_apart_of_room`). Otherwise a freed block grows over its neighbour
(`live_overlap_after_reuse`).
-/

namespace OpenNE

/-- A call to the allocator, or an owner's write `off` bytes into its block. -/
inductive PoolOp where
  | alloc (wr user : Bool) (size : UInt64)
  | free (ptr : UInt64)
  | write (ptr : UInt64) (off : Nat) (bs : List UInt8)

/-- The kernel, and the blocks handed out and not freed since, with the sizes they were requested with. -/
structure PoolState where
  kernel : Kernel
  live : List (UInt64 × UInt64)

/-- The bytes `[p, p + size)` of a live block. -/
def liveSpan (r : UInt64 × UInt64) : Span := ⟨r.1.toNat, r.2.toNat⟩

inductive PoolStep (debug : Bool) : PoolState → PoolOp → PoolState → Prop
  | alloc {s : PoolState} {wr user : Bool} {size ptr : UInt64} {k : Kernel} (fuel : Nat)
      (hsize : bitMapHeaderSize ≤ size.toNat)
      (hcall : mmAllocBitmap debug fuel wr user size s.kernel = .ok (ptr, k)) :
      PoolStep debug s (.alloc wr user size) ⟨k, (ptr, size) :: s.live⟩
  | free {s : PoolState} {ptr : UInt64} (size : UInt64) (hlive : (ptr, size) ∈ s.live) :
      PoolStep debug s (.free ptr) ⟨(mmFreeBitmap ptr s.kernel).2, s.live.filter (·.1 ≠ ptr)⟩
  | write {s : PoolState} {ptr size : UInt64} {off : Nat} {bs : List UInt8}
      (hlive : (ptr, size) ∈ s.live) (hoff : bitMapHeaderSize ≤ off)
      (hlen : off + bs.length ≤ size.toNat) :
      PoolStep debug s (.write ptr off bs)
        ⟨{ s.kernel with mem := s.kernel.mem.write (ptr.toNat + off) bs }, s.live⟩

/-- No block is live, and the pool is zeroed up to `limit`. -/
structure ZeroedPool (limit : Nat) (s : PoolState) : Prop where
  base_pos : 0 < s.kernel.poolBase
  base_le : s.kernel.poolBase ≤ limit
  limit_le : limit ≤ 2 ^ 64
  zeroed : ∀ a, s.kernel.poolBase ≤ a → a < limit → s.kernel.mem a = 0
  live : s.live = []

/-- The first freed block not larger than the request, with the freed blocks right behind it, holds the
request exactly (`fits`), or is the last of the pool and may grow (`last`); or there is no such block and
the pool is long enough (`fresh`). And the page-table words of the block lie outside of the pool. -/
inductive Room (k : Kernel) (limit : Nat) (size : UInt64) : Prop
  | fits (pre mid : List Block) (b : Block) (m : Nat)
      (hchain : IsChain k.mem k.poolBase limit (pre ++ b :: mid) m) (hpre : ∀ c ∈ pre, ¬ Suitable size c)
      (hb : Suitable size b) (hmid : ∀ c ∈ mid, c.used = false)
      (hsize : b.addr.toNat + size.toNat = m) (hpage : k.MapsOutside limit b.addr)
  | last (pre mid : List Block) (b : Block) (m : Nat)
      (hchain : IsChain k.mem k.poolBase limit (pre ++ b :: mid) m) (hpre : ∀ c ∈ pre, ¬ Suitable size c)
      (hb : Suitable size b) (hmid : ∀ c ∈ mid, c.used = false) (hends : Ends k.mem m)
      (hsize : m ≤ b.addr.toNat + size.toNat) (hlimit : b.addr.toNat + size.toNat ≤ limit)
      (hpage : k.MapsOutside limit b.addr)
  | fresh (blocks : List Block) (m : Nat) (hchain : IsChain k.mem k.poolBase limit blocks m)
      (hskip : ∀ c ∈ blocks, ¬ Suitable size c) (hends : Ends k.mem m) (hlimit : m + size.toNat ≤ limit)
      (hpage : k.MapsOutside limit (UInt64.ofNat m))

/-- Every request has room. -/
def HasRoom (limit : Nat) (s : PoolState) : PoolOp → Prop
  | .alloc _ _ size => Room s.kernel limit size
  | .free _ => True
  | .write _ _ _ => True

/-! ### The invariant -/

/-- What the used blocks of a chain claim. -/
def claims (blocks : List Block) : List (UInt64 × UInt64) :=
  (blocks.filter (·.used)).map fun b => (b.addr, b.size)

theorem claims_append (l r : List Block) : claims (l ++ r) = claims l ++ claims r := by
  simp [claims]

theorem claims_used {addr size : UInt64} (l : List Block) :
    claims (⟨addr, size, true⟩ :: l) = (addr, size) :: claims l := by
  simp [claims]

theorem claims_unused {l : List Block} (h : ∀ c ∈ l, c.used = false) : claims l = [] := by
  simp only [claims, List.map_eq_nil_iff, List.filter_eq_nil_iff]
  intro c hc
  simp [h c hc]

theorem claims_freed {addr size : UInt64} (l : List Block) :
    claims (⟨addr, size, false⟩ :: l) = claims l := by
  simp [claims]

theorem mem_claims {blocks : List Block} {ptr size : UInt64} :
    (ptr, size) ∈ claims blocks ↔ ⟨ptr, size, true⟩ ∈ blocks := by
  simp only [claims, List.mem_map, List.mem_filter]
  constructor
  · rintro ⟨⟨addr, sz, used⟩, ⟨hb, rfl⟩, heq⟩
    obtain ⟨rfl, rfl⟩ := Prod.mk.injEq .. ▸ heq
    exact hb
  · exact fun hb => ⟨_, ⟨hb, rfl⟩, rfl⟩

theorem claims_filter {blocks : List Block} {ptr : UInt64} (h : ∀ c ∈ blocks, c.addr ≠ ptr) :
    (claims blocks).filter (·.1 ≠ ptr) = claims blocks := by
  refine List.filter_eq_self.mpr fun r hr => ?_
  simpa using h _ (mem_claims.mp hr)

/-- The pool is a chain of blocks with zeroed memory behind it, and the live blocks are its used ones. -/
structure PoolInv (limit : Nat) (s : PoolState) (blocks : List Block) (top : Nat) : Prop where
  base_pos : 0 < s.kernel.poolBase
  limit_le : limit ≤ 2 ^ 64
  chain : IsChain s.kernel.mem s.kernel.poolBase limit blocks top
  zeroed : ∀ a, top ≤ a → a < limit → s.kernel.mem a = 0
  live : s.live.Perm (claims blocks)

theorem ZeroedPool.inv {limit : Nat} {s : PoolState} (h : ZeroedPool limit s) :
    PoolInv limit s [] s.kernel.poolBase :=
  ⟨h.base_pos, h.limit_le, .nil h.base_le, h.zeroed, by simp [h.live, claims]⟩

section Inv

variable {limit top : Nat} {s : PoolState} {blocks : List Block}

theorem PoolInv.apart (h : PoolInv limit s blocks top) :
    s.live.Pairwise fun r r' => (liveSpan r).Disjoint (liveSpan r') := by
  refine (h.live.pairwise_iff fun hxy => hxy.symm).mpr ?_
  refine List.pairwise_map.mpr (List.Pairwise.filter _ (h.chain.pairwise.imp fun hle => ?_))
  exact Span.disjoint_of_le hle

theorem PoolInv.block_of_live (h : PoolInv limit s blocks top) {ptr size : UInt64}
    (hlive : (ptr, size) ∈ s.live) : ⟨ptr, size, true⟩ ∈ blocks :=
  mem_claims.mp (h.live.mem_iff.mp hlive)

theorem mmAllocBitmap_eq_ok {debug wr user : Bool} {fuel : Nat} {size ptr : UInt64} {k k' : Kernel}
    (hsize : bitMapHeaderSize ≤ size.toNat) (h : mmAllocBitmap debug fuel wr user size k = .ok (ptr, k')) :
    loop (findBitMapRound size wr user k) fuel (UInt64.ofNat k.poolBase) = .ok (ptr, k') := by
  have hne : size ≠ 0 := by
    rintro rfl
    simp [bitMapHeaderSize] at hsize
  obtain ⟨⟨p, k₁⟩, hfind, hrest⟩ := Exec.bind_eq_ok.mp h
  obtain ⟨-, -, hret⟩ := Exec.bind_eq_ok.mp hrest
  cases hret
  rw [findBitMap, if_neg hne] at hfind
  rw [Kernel.poolBase, UInt64.ofNat_toNat]
  exact hfind

section Calls

variable {k : Kernel} {size : UInt64}

theorem mmAllocBitmap_of_loop (debug : Bool) {wr user : Bool} {fuel : Nat} {ptr : UInt64} {k' : Kernel}
    (hsize : bitMapHeaderSize ≤ size.toNat) (hpos : 0 < ptr.toNat)
    (h : loop (findBitMapRound size wr user k) fuel (UInt64.ofNat k.poolBase) = .ok (ptr, k')) :
    mmAllocBitmap debug fuel wr user size k = .ok (ptr, k') := by
  have hne : size ≠ 0 := by
    rintro rfl
    simp [bitMapHeaderSize] at hsize
  have hptr : ptr ≠ 0 := by
    rintro rfl
    simp at hpos
  rw [Kernel.poolBase, UInt64.ofNat_toNat] at h
  rw [mmAllocBitmap, findBitMap, if_neg hne, h]
  simp [mustPass, hptr]

theorem mmAllocBitmap_reuse (debug wr user : Bool) {pre post : List Block} {b : Block}
    (hchain : IsChain k.mem k.poolBase limit (pre ++ b :: post) top) (hpos : 0 < k.poolBase)
    (hsize : bitMapHeaderSize ≤ size.toNat) (hskip : ∀ c ∈ pre, ¬ Suitable size c) (hb : Suitable size b) :
    mmAllocBitmap debug (pre.length + 1) wr user size k =
      .ok (b.addr, { k with mem := reuseHeader k.mem b.addr size }.mapBlock b.addr wr user) := by
  have hbound := (hchain.bounds (b := b) (by simp)).1
  exact mmAllocBitmap_of_loop debug hsize (by omega) (loop_findBitMap_reuse hchain hskip hb)

theorem mmAllocBitmap_format (debug wr user : Bool) (hchain : IsChain k.mem k.poolBase limit blocks top)
    (hpos : 0 < k.poolBase) (hsize : bitMapHeaderSize ≤ size.toNat)
    (hskip : ∀ c ∈ blocks, ¬ Suitable size c) (htop : top + size.toNat ≤ 2 ^ 64) (hends : Ends k.mem top) :
    mmAllocBitmap debug (blocks.length + 1) wr user size k =
      .ok (UInt64.ofNat top,
        { k with mem := formatHeader k.mem (UInt64.ofNat top) size }.mapBlock (UInt64.ofNat top) wr user) := by
  have hlt : top < 2 ^ 64 := by
    simp only [bitMapHeaderSize] at hsize
    omega
  refine mmAllocBitmap_of_loop debug hsize ?_ (loop_findBitMap_format hchain hskip hlt hends)
  have := hchain.base_le
  rw [UInt64.toNat_ofNat_of_lt' hlt]
  omega

end Calls

theorem PoolInv.replaced {pre mid post : List Block} {ptr size : UInt64} {top' : Nat} {k : Kernel}
    (h : PoolInv limit s (pre ++ (mid ++ post)) top)
    (hbase : k.poolBase = s.kernel.poolBase)
    (hpre : Tiles s.kernel.poolBase (pre.map Block.span) ptr.toNat)
    (hpost : Tiles (ptr.toNat + size.toNat) (post.map Block.span) top')
    (hmid : ∀ c ∈ mid, c.used = false)
    (hhead : HeaderAt k.mem ⟨ptr, size, true⟩) (hsize : bitMapHeaderSize ≤ size.toNat)
    (hle : top ≤ top') (htop : top' ≤ limit)
    (hsame : ∀ a, s.kernel.poolBase ≤ a → a < limit → a < ptr.toNat ∨ ptr.toNat + bitMapHeaderSize ≤ a →
      k.mem a = s.kernel.mem a) :
    PoolInv limit ⟨k, (ptr, size) :: s.live⟩ (pre ++ ⟨ptr, size, true⟩ :: post) top' := by
  have hchain := h.chain.replace hpre hpost hhead hsize htop hsame
  refine ⟨?_, h.limit_le, ?_, fun a ha hlt => ?_, ?_⟩
  · rw [hbase]
    exact h.base_pos
  · rw [hbase]
    exact hchain
  · have hbound := (hchain.bounds (b := ⟨ptr, size, true⟩) (by simp)).2
    have hbase := h.chain.base_le
    rw [hsame a (by omega) hlt (by simp only at hbound; omega)]
    exact h.zeroed a (by omega) hlt
  · have hlive := h.live
    rw [claims_append, claims_append, claims_unused hmid, List.nil_append] at hlive
    rw [claims_append, claims_used]
    exact (hlive.cons _).trans List.perm_middle.symm

theorem PoolInv.alloc {debug wr user : Bool} {fuel : Nat} {size ptr : UInt64} {k : Kernel}
    (h : PoolInv limit s blocks top) (hsize : bitMapHeaderSize ≤ size.toNat)
    (hcall : mmAllocBitmap debug fuel wr user size s.kernel = .ok (ptr, k))
    (hroom : Room s.kernel limit size) :
    (∃ blocks' top', PoolInv limit ⟨k, (ptr, size) :: s.live⟩ blocks' top') ∧
      ∀ a, s.kernel.poolBase ≤ a → a < limit → a < ptr.toNat ∨ ptr.toNat + bitMapHeaderSize ≤ a →
        k.mem a = s.kernel.mem a := by
  have hloop := mmAllocBitmap_eq_ok hsize hcall
  -- the freed block `b` is taken, with the freed blocks `mid` behind it
  have reuse : ∀ (pre mid post : List Block) (b : Block) (top' : Nat), blocks = pre ++ (b :: mid ++ post) →
      (∀ c ∈ pre, ¬ Suitable size c) → Suitable size b → (∀ c ∈ mid, c.used = false) →
      Tiles (b.addr.toNat + size.toNat) (post.map Block.span) top' → top ≤ top' → top' ≤ limit →
      s.kernel.MapsOutside limit b.addr →
      (∃ blocks' top', PoolInv limit ⟨k, (ptr, size) :: s.live⟩ blocks' top') ∧
        ∀ a, s.kernel.poolBase ≤ a → a < limit → a < ptr.toNat ∨ ptr.toNat + bitMapHeaderSize ≤ a →
          k.mem a = s.kernel.mem a := by
    rintro pre mid post b top' rfl hpre hb hmid hpost hle hlimit hpage
    obtain ⟨rfl, rfl⟩ := Prod.mk.injEq .. ▸ loop_unique hloop (loop_findBitMap_reuse h.chain hpre hb)
    obtain ⟨m, hfirst, hrest⟩ := Tiles.append.mp (List.map_append ▸ h.chain.tiles)
    obtain rfl : b.addr.toNat = m := hrest.1
    have hbound := h.chain.bounds (b := b) (by simp)
    have hroom := h.chain.sizes b (by simp)
    have htop := h.chain.top_le
    have hheader : HeaderAt (reuseHeader s.kernel.mem b.addr size) ⟨b.addr, size, true⟩ :=
      reuseHeader_headerAt (h.chain.headers b (by simp))
    obtain ⟨hhead, hsame⟩ := Kernel.mapBlock_taken wr user hpage hbound.1 (by omega) hheader
      fun a => reuseHeader_outside
    refine ⟨⟨_, _, h.replaced rfl hfirst hpost ?_ hhead hsize hle hlimit hsame⟩, hsame⟩
    simpa [hb.2] using hmid
  cases hroom with
  | fits pre mid b m hchain hpre hb hmid hexact hpage =>
    obtain ⟨post, rfl⟩ := h.chain.prefix h.zeroed hchain
    obtain ⟨m', hfirst, hpost⟩ := Tiles.append.mp (List.map_append ▸ h.chain.tiles)
    obtain rfl : m = m' := hchain.tiles.end_unique hfirst
    exact reuse pre mid post b top (by simp) hpre hb hmid (hexact ▸ hpost) le_rfl h.chain.top_le hpage
  | last pre mid b m hchain hpre hb hmid hends hgrow hlimit hpage =>
    obtain ⟨rfl, rfl⟩ := h.chain.unique h.zeroed hchain hends
    exact reuse pre mid [] b _ (by simp) hpre hb hmid rfl hgrow hlimit hpage
  | fresh blocks' m hchain hskip hends hlimit hpage =>
    obtain ⟨rfl, rfl⟩ := h.chain.unique h.zeroed hchain hends
    have hm : m < 2 ^ 64 := by
      have := h.limit_le
      simp only [bitMapHeaderSize] at hsize
      omega
    obtain ⟨rfl, rfl⟩ := Prod.mk.injEq .. ▸ loop_unique hloop (loop_findBitMap_format hchain hskip hm hends)
    have hmn : (UInt64.ofNat m).toNat = m := UInt64.toNat_ofNat_of_lt' hm
    have h' : PoolInv limit s (blocks' ++ ([] ++ [])) m := by simpa using h
    have hbase := h.chain.base_le
    have hheader : HeaderAt (formatHeader s.kernel.mem (UInt64.ofNat m) size) ⟨UInt64.ofNat m, size, true⟩ :=
      formatHeader_headerAt (UInt64.ofNat m)
    obtain ⟨hhead, hsame⟩ := Kernel.mapBlock_taken wr user hpage (by omega) (by omega) hheader
      fun a => formatHeader_outside
    refine ⟨⟨_, _, h'.replaced rfl ?_ rfl (by simp) hhead hsize ?_ ?_ hsame⟩, hsame⟩
    · rw [hmn]
      exact hchain.tiles
    · omega
    · rw [hmn]
      exact hlimit

theorem PoolInv.free {ptr size : UInt64} (h : PoolInv limit s blocks top) (hlive : (ptr, size) ∈ s.live) :
    ∃ blocks', PoolInv limit ⟨(mmFreeBitmap ptr s.kernel).2, s.live.filter (·.1 ≠ ptr)⟩ blocks' top := by
  have hmem := h.block_of_live hlive
  have hbound := h.chain.bounds hmem
  have hne : ptr ≠ 0 := by
    rintro rfl
    have := h.base_pos
    simp at hbound
    omega
  obtain ⟨pre, post, rfl⟩ := List.append_of_mem hmem
  obtain ⟨hret, hhead, hsame⟩ := freeBitMap_block (h.chain.headers _ hmem) hne
  obtain ⟨m, hpre, hrest⟩ := Tiles.append.mp (List.map_append ▸ h.chain.tiles)
  obtain rfl : ptr.toNat = m := hrest.1
  have hhdr : bitMapHeaderSize ≤ size.toNat := h.chain.sizes _ hmem
  have hchain : IsChain s.kernel.mem s.kernel.poolBase limit (pre ++ ([⟨ptr, size, true⟩] ++ post)) top :=
    h.chain
  have hnew : IsChain (freeBitMap ptr s.kernel.mem).2 s.kernel.poolBase limit
      (pre ++ ⟨ptr, size, false⟩ :: post) top :=
    hchain.replace hpre hrest.2 hhead hhdr h.chain.top_le fun a _ _ => hsame a
  refine ⟨pre ++ ⟨ptr, size, false⟩ :: post, ?_⟩
  have hkernel : (mmFreeBitmap ptr s.kernel).2 = { s.kernel with mem := (freeBitMap ptr s.kernel.mem).2 } := by
    rw [mmFreeBitmap, if_neg hne]
  refine ⟨?_, h.limit_le, ?_, fun a ha hlt => ?_, ?_⟩
  · rw [hkernel]
    exact h.base_pos
  · rw [hkernel]
    exact hnew
  · rw [hkernel]
    refine (hsame a (Or.inr ?_)).trans (h.zeroed a ha hlt)
    simp only at hbound
    omega
  · have hlive := h.live.filter (·.1 ≠ ptr)
    rw [claims_append, claims_used, List.filter_append, List.filter_cons_of_neg (by simp),
      claims_filter h.chain.addr_ne.1, claims_filter h.chain.addr_ne.2] at hlive
    rw [claims_append, claims_freed]
    exact hlive

theorem PoolInv.write {ptr size : UInt64} {off : Nat} {bs : List UInt8} (h : PoolInv limit s blocks top)
    (hlive : (ptr, size) ∈ s.live) (hoff : bitMapHeaderSize ≤ off) (hlen : off + bs.length ≤ size.toNat) :
    PoolInv limit ⟨{ s.kernel with mem := s.kernel.mem.write (ptr.toNat + off) bs }, s.live⟩ blocks top := by
  have hmem := h.block_of_live hlive
  have hbound := h.chain.bounds hmem
  simp only at hbound
  refine ⟨h.base_pos, h.limit_le, h.chain.congr fun c hc a ha hlt => ?_, fun a ha hlt => ?_, h.live⟩
  · refine (Store.write_apply_outside ?_).symm
    by_cases heq : c = ⟨ptr, size, true⟩
    · subst heq
      simp only at ha hlt
      omega
    · have hapart := h.chain.apart hc hmem heq
      have := h.chain.sizes c hc
      simp only at hapart
      omega
  · rw [← h.zeroed a ha hlt]
    exact Store.write_apply_outside (by omega)

/-- One step. -/
theorem PoolInv.step {debug : Bool} {op : PoolOp} {s' : PoolState} (h : PoolInv limit s blocks top)
    (hstep : PoolStep debug s op s') (hroom : HasRoom limit s op) :
    ∃ blocks' top', PoolInv limit s' blocks' top' := by
  cases hstep with
  | alloc _ hsize hcall => exact (h.alloc hsize hcall hroom).1
  | free _ hlive =>
    obtain ⟨blocks', h'⟩ := h.free hlive
    exact ⟨blocks', top, h'⟩
  | write hlive hoff hlen => exact ⟨blocks, top, h.write hlive hoff hlen⟩

end Inv

/-! ### Runs -/

/-- While every request has room, and the page-table words of its block lie outside of the pool, live blocks are
pairwise disjoint. -/
theorem live_apart_of_room {debug : Bool} {limit : Nat} {s s' : PoolState} {ops : List PoolOp}
    (hs : ZeroedPool limit s) (hrun : Run (Guarded (PoolStep debug) (HasRoom limit)) s ops s') :
    s'.live.Pairwise fun r r' => (liveSpan r).Disjoint (liveSpan r') := by
  obtain ⟨blocks, top, h⟩ := hrun.invariant (fun s => ∃ blocks top, PoolInv limit s blocks top)
    (fun _ _ _ ⟨_, _, h⟩ hstep => h.step hstep.1 hstep.2) ⟨[], _, hs.inv⟩
  exact h.apart

/-- A zeroed pool at `0x10000000`. -/
def zeroPool : PoolState := ⟨⟨fun _ => 0, 0, {}, 0x10000000⟩, []⟩

theorem zeroPool_zeroed : ZeroedPool (2 ^ 32) zeroPool :=
  ⟨by decide, by decide, by decide, fun _ _ _ => rfl, rfl⟩

/-- The kernel with the header of a block written and no entry mapped for it. -/
def Kernel.unmapped (k : Kernel) (mem : Store) : Kernel :=
  { k with mem := mem, pageStore := { k.pageStore with fStoreOp := true } }

/-- The pointer `mm_map_page` follows for a block at `ptr` is null. -/
def Kernel.NoEntry (k : Kernel) (ptr : UInt64) : Prop :=
  ptr ≠ 0 ∧ k.pageStore.fVAddr ≠ ptr ∧ k.paging.entryPointer ptr = 0

instance (k : Kernel) (ptr : UInt64) : Decidable (k.NoEntry ptr) := inferInstanceAs (Decidable (_ ∧ _ ∧ _))

theorem Kernel.NoEntry.unmapped {k : Kernel} {ptr : UInt64} {mem : Store} (wr user : Bool)
    (h : ({ k with mem := mem } : Kernel).NoEntry ptr) :
    { k with mem := mem }.mapBlock ptr wr user = k.unmapped mem :=
  Kernel.mapBlock_null wr user h.1 h.2.1 h.2.2

/-- CR3 is null, and the table there is empty. -/
structure Kernel.NoTable (k : Kernel) : Prop where
  cr3 : k.cr3 = 0
  empty : ∀ a < 0x8000, k.mem a = 0

theorem Kernel.NoTable.noEntry {k : Kernel} {ptr : UInt64} {mem : Store} (h : k.NoTable) (hptr : ptr ≠ 0)
    (hmiss : k.pageStore.fVAddr ≠ ptr) (hsame : ∀ a < 0x8000, mem a = k.mem a) :
    ({ k with mem := mem } : Kernel).NoEntry ptr := by
  refine ⟨hptr, hmiss, ?_⟩
  have hindex := toNat_index_lt (ptr >>> 12)
  have haddr : (pointerAddr (tableBase 0) ptr).toNat = 64 * (ptIndex ptr).toNat := by
    simp only [pointerAddr, tableBase, UInt64.zero_and, UInt64.zero_add, UInt64.toNat_mul]
    unfold ptIndex
    have height : (8 : UInt64).toNat = 8 := rfl
    rw [height]
    omega
  unfold Paging.entryPointer
  show mem.get Codec.u64 (pointerAddr (tableBase k.cr3) ptr).toNat = 0
  rw [h.cr3, haddr]
  apply Store.get_zeroed
  intro a _ hlt
  have hlow : a < 0x8000 := by
    simp only [Codec.u64, Codec.map, Codec.word, ptIndex] at hlt
    omega
  rw [hsame a hlow, h.empty a hlow]

/-- A block formatted at `top`. -/
def PoolState.format (top : Nat) (size : UInt64) (s : PoolState) : PoolState :=
  ⟨s.kernel.unmapped (formatHeader s.kernel.mem (UInt64.ofNat top) size), (UInt64.ofNat top, size) :: s.live⟩

/-- The freed block at `ptr` taken again. -/
def PoolState.reuse (ptr size : UInt64) (s : PoolState) : PoolState :=
  ⟨s.kernel.unmapped (reuseHeader s.kernel.mem ptr size), (ptr, size) :: s.live⟩

/-- The block at `ptr` freed. -/
def PoolState.free (ptr : UInt64) (s : PoolState) : PoolState :=
  ⟨(mmFreeBitmap ptr s.kernel).2, s.live.filter (·.1 ≠ ptr)⟩

theorem PoolStep.format (debug wr user : Bool) {size : UInt64} {limit top : Nat} {s : PoolState}
    {blocks : List Block} (hchain : IsChain s.kernel.mem s.kernel.poolBase limit blocks top)
    (hpos : 0 < s.kernel.poolBase) (hsize : bitMapHeaderSize ≤ size.toNat)
    (hskip : ∀ c ∈ blocks, ¬ Suitable size c) (htop : top + size.toNat ≤ 2 ^ 64)
    (hends : Ends s.kernel.mem top)
    (hentry : { s.kernel with mem := formatHeader s.kernel.mem (UInt64.ofNat top) size }.NoEntry (UInt64.ofNat top)) :
    PoolStep debug s (.alloc wr user size) (s.format top size) := by
  have hcall := mmAllocBitmap_format debug wr user hchain hpos hsize hskip htop hends
  rw [hentry.unmapped] at hcall
  exact .alloc _ hsize hcall

theorem PoolStep.reuse (debug wr user : Bool) {size : UInt64} {limit top : Nat} {s : PoolState}
    {pre post : List Block} {b : Block}
    (hchain : IsChain s.kernel.mem s.kernel.poolBase limit (pre ++ b :: post) top)
    (hpos : 0 < s.kernel.poolBase) (hsize : bitMapHeaderSize ≤ size.toNat)
    (hskip : ∀ c ∈ pre, ¬ Suitable size c) (hb : Suitable size b)
    (hentry : { s.kernel with mem := reuseHeader s.kernel.mem b.addr size }.NoEntry b.addr) :
    PoolStep debug s (.alloc wr user size) (s.reuse b.addr size) := by
  have hcall := mmAllocBitmap_reuse debug wr user hchain hpos hsize hskip hb
  rw [hentry.unmapped] at hcall
  exact .alloc _ hsize hcall

/-- A block of 24 bytes, freed and requested again at its size. -/
theorem live_apart_of_room_again :
    ∃ s, Run (Guarded (PoolStep true) (HasRoom (2 ^ 32))) zeroPool
        [.alloc true false 24, .alloc true true 40, .free 0x10001000, .alloc true false 24] s ∧
      s.live = [(0x10001000, 24), (0x10001018, 40)] ∧
      s.live.Pairwise fun r r' => (liveSpan r).Disjoint (liveSpan r') := by
  let s₁ := zeroPool.format 0x10001000 24
  let s₂ := s₁.format 0x10001018 40
  let s₃ := s₂.free 0x10001000
  let s₄ := s₃.reuse 0x10001000 24
  have c₀ : IsChain zeroPool.kernel.mem 0x10001000 (2 ^ 32) [] 0x10001000 := .nil (by decide)
  have c₁ : IsChain s₁.kernel.mem s₁.kernel.poolBase (2 ^ 32) [⟨0x10001000, 24, true⟩] 0x10001018 :=
    ⟨by decide, by decide, by decide, by decide⟩
  have c₃ : IsChain s₃.kernel.mem s₃.kernel.poolBase (2 ^ 32) ([] ++ ⟨0x10001000, 24, false⟩ :: []) 0x10001018 :=
    ⟨by decide, by decide, by decide, by decide⟩
  have h₁ : PoolStep true zeroPool (.alloc true false 24) s₁ :=
    .format true true false c₀ (by decide) (by decide) (by decide) (by decide) (by decide) (by decide)
  have h₂ : PoolStep true s₁ (.alloc true true 40) s₂ :=
    .format true true true c₁ (by decide) (by decide) (by decide) (by decide) (by decide) (by decide)
  have h₃ : PoolStep true s₂ (.free 0x10001000) s₃ := .free 24 (by decide)
  have h₄ : PoolStep true s₃ (.alloc true false 24) s₄ :=
    .reuse true true false c₃ (by decide) (by decide) (by decide) (by decide) (by decide)
  have r₁ : Room zeroPool.kernel (2 ^ 32) 24 :=
    .fresh [] _ c₀ (by decide) (by decide) (by decide) (by decide)
  have r₂ : Room s₁.kernel (2 ^ 32) 40 :=
    .fresh _ _ c₁ (by decide) (by decide) (by decide) (by decide)
  have r₄ : Room s₃.kernel (2 ^ 32) 24 :=
    .fits [] [] _ _ c₃ (by decide) (by decide) (by decide) (by decide) (by decide)
  have hrun : Run (Guarded (PoolStep true) (HasRoom (2 ^ 32))) zeroPool
      ([] ++ [.alloc true false 24] ++ [.alloc true true 40] ++ [.free 0x10001000] ++ [.alloc true false 24]) s₄ :=
    ((((Run.nil zeroPool).snoc ⟨h₁, r₁⟩).snoc ⟨h₂, r₂⟩).snoc ⟨h₃, trivial⟩).snoc ⟨h₄, r₄⟩
  exact ⟨s₄, hrun, rfl, live_apart_of_room zeroPool_zeroed hrun⟩

/-- The freed block at `0x10001000` is 24 bytes long and is handed out again as one of 48 bytes: it covers
the block behind it. -/
theorem live_overlap_after_reuse :
    ∃ s, ZeroedPool (2 ^ 32) zeroPool ∧
      Run (PoolStep true) zeroPool
        [.alloc true false 24, .alloc true false 24, .free 0x10001000, .alloc true false 48] s ∧
      s.live = [(0x10001000, 48), (0x10001018, 24)] ∧
      ¬ s.live.Pairwise fun r r' => (liveSpan r).Disjoint (liveSpan r') := by
  let s₁ := zeroPool.format 0x10001000 24
  let s₂ := s₁.format 0x10001018 24
  let s₃ := s₂.free 0x10001000
  let s₄ := s₃.reuse 0x10001000 48
  have c₁ : IsChain s₁.kernel.mem s₁.kernel.poolBase (2 ^ 32) [⟨0x10001000, 24, true⟩] 0x10001018 :=
    ⟨by decide, by decide, by decide, by decide⟩
  have c₃ : IsChain s₃.kernel.mem s₃.kernel.poolBase (2 ^ 32) ([] ++ ⟨0x10001000, 24, false⟩ :: []) 0x10001018 :=
    ⟨by decide, by decide, by decide, by decide⟩
  have h₁ : PoolStep true zeroPool (.alloc true false 24) s₁ :=
    .format true true false (IsChain.nil (le_refl _)) (by decide) (by decide) (by decide) (by decide) (by decide)
      (by decide)
  have h₂ : PoolStep true s₁ (.alloc true false 24) s₂ :=
    .format true true false c₁ (by decide) (by decide) (by decide) (by decide) (by decide) (by decide)
  have h₃ : PoolStep true s₂ (.free 0x10001000) s₃ := .free 24 (by decide)
  have h₄ : PoolStep true s₃ (.alloc true false 48) s₄ :=
    .reuse true true false c₃ (by decide) (by decide) (by decide) (by decide) (by decide)
  have hrun : Run (PoolStep true) zeroPool
      ([] ++ [.alloc true false 24] ++ [.alloc true false 24] ++ [.free 0x10001000] ++ [.alloc true false 48]) s₄ :=
    ((((Run.nil zeroPool).snoc h₁).snoc h₂).snoc h₃).snoc h₄
  refine ⟨s₄, zeroPool_zeroed, hrun, rfl, fun h => ?_⟩
  have hdisj := List.rel_of_pairwise_cons h (List.mem_singleton.mpr rfl)
  exact hdisj 0x10001018 (by decide) (by decide)

end OpenNE

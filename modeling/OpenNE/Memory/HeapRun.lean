import OpenNE.Memory.Heap

/-!
# Runs of the heap

A live pointer lies two information blocks behind the address requested for it, and the request counted
one (`mmNewHeap_of_request`). So its payload never ends inside the bitmap block (`HeapBlock.not_inside`), and the
block behind it gets its header in that payload (`heap_blocks_overlap`).
-/

namespace OpenNE

inductive HeapOp where
  | new (sz : UInt64) (wr user : Bool)
  | delete (ptr : UInt64)

/-- A live pointer, with the size asked for and the address `PageMgr::Request` returned. -/
structure HeapBlock where
  sz : UInt64
  base : UInt64
  ptr : UInt64
  deriving DecidableEq

structure HeapState where
  kernel : Kernel
  live : List HeapBlock

/-- The information block and the payload. -/
def HeapBlock.span (b : HeapBlock) : Span := ⟨(b.ptr - hibSize).toNat, hibSize.toNat + b.sz.toNat⟩

/-- What `PageMgr::Request` was asked for. -/
def HeapBlock.requested (b : HeapBlock) : Span := ⟨b.base.toNat, (b.sz + hibSize).toNat⟩

/-- The header of the bitmap block. -/
def HeapBlock.header (b : HeapBlock) : Span := ⟨b.base.toNat, bitMapHeaderSize⟩

inductive HeapStep (debug : Bool) : HeapState → HeapOp → HeapState → Prop
  | new {s : HeapState} {sz ptr : UInt64} {wr user : Bool} {w : PTEWrapper} {k k₁ : Kernel} (fuel : Nat)
      (hpos : 0 < sz) (hmax : sz < kKernelHeapMaxSize)
      (hreq : PageMgr.request debug fuel wr user false (sz + hibSize) s.kernel = .ok (w, k₁))
      (hcall : mmNewHeap debug fuel sz wr user s.kernel = .ok (ptr, k)) :
      HeapStep debug s (.new sz wr user) ⟨k, ⟨sz, w.fVirtAddr, ptr⟩ :: s.live⟩
  | delete {s : HeapState} {b : HeapBlock} (hlive : b ∈ s.live) :
      HeapStep debug s (.delete b.ptr) ⟨(mmDeleteHeap b.ptr s.kernel).2, s.live.filter (·.ptr ≠ b.ptr)⟩

/-- Each live pointer's blocks lie inside its bitmap block, apart from the others. -/
def BlocksInside (live : List HeapBlock) : Prop :=
  ∀ b ∈ live, (∀ x ∈ b.span, x ∈ b.requested) ∧
    ∀ b' ∈ live, b' ≠ b → b.span.Disjoint b'.header ∧ b.span.Disjoint b'.span

/-- Where a live pointer lies. -/
def HeapBlock.Placed (b : HeapBlock) : Prop :=
  0 < b.sz ∧ b.sz < kKernelHeapMaxSize ∧ b.ptr = b.base + hibSize + hibSize

theorem HeapBlock.not_inside {b : HeapBlock} (h : b.Placed) : ¬ ∀ x ∈ b.span, x ∈ b.requested := by
  obtain ⟨hpos, hmax, hptr⟩ := h
  intro hin
  have hszpos : 0 < b.sz.toNat := UInt64.lt_iff_toNat_lt.mp hpos
  have hszmax : b.sz.toNat < 2 ^ 31 := UInt64.lt_iff_toNat_lt.mp hmax
  have hhib : hibSize.toNat = 53 := rfl
  have hreq : (b.sz + hibSize).toNat = b.sz.toNat + 53 := by
    rw [UInt64.toNat_add, hhib, Nat.mod_eq_of_lt (by omega)]
  have hstart : (b.ptr - hibSize).toNat = (b.base.toNat + 53) % 2 ^ 64 := by
    rw [hptr, UInt64.add_sub_cancel, UInt64.toNat_add, hhib]
  have hfirst := hin (b.ptr - hibSize).toNat (by simp only [span, Span.mem_def, hhib]; omega)
  have hlast := hin ((b.ptr - hibSize).toNat + 52 + b.sz.toNat)
    (by simp only [span, Span.mem_def, hhib]; omega)
  simp only [requested, Span.mem_def, hreq] at hfirst hlast
  -- the start wraps around, or the end lies behind
  rcases Nat.lt_or_ge (b.base.toNat + 53) (2 ^ 64) with hlt | hge
  · rw [Nat.mod_eq_of_lt hlt] at hstart
    omega
  · have := b.base.toNat_lt
    rw [Nat.mod_eq_sub_mod hge, Nat.mod_eq_of_lt (by omega)] at hstart
    omega

section Run

variable {debug : Bool} {s s' : HeapState} {op : HeapOp} {ops : List HeapOp}

theorem HeapStep.placed (h : HeapStep debug s op s') (hs : ∀ b ∈ s.live, b.Placed) :
    ∀ b ∈ s'.live, b.Placed := by
  cases h with
  | @new sz ptr wr user w k k₁ fuel hpos hmax hreq hcall =>
    have hne : sz ≠ 0 := by
      rintro rfl
      cases hpos
    rw [mmNewHeap_of_request hne hmax hreq] at hcall
    obtain ⟨rfl, -⟩ := Prod.mk.injEq .. ▸ Except.ok.inj hcall
    intro b hb
    rcases List.mem_cons.mp hb with rfl | hb
    · exact ⟨hpos, hmax, rfl⟩
    · exact hs b hb
  | delete hlive =>
    intro b hb
    exact hs b (List.mem_filter.mp hb).1

theorem placed_of_run (hs : s.live = []) (hrun : Run (HeapStep debug) s ops s') :
    ∀ b ∈ s'.live, b.Placed :=
  hrun.invariant (fun s => ∀ b ∈ s.live, b.Placed) (fun _ _ _ hs h => h.placed hs) (by simp [hs])

/-- The live blocks of a reached state lie inside their bitmap blocks only if there are none. -/
theorem heap_blocks_inside_iff (hs : s.live = []) (hrun : Run (HeapStep debug) s ops s') :
    BlocksInside s'.live ↔ s'.live = [] := by
  have hplaced := placed_of_run hs hrun
  constructor
  · intro hin
    refine List.eq_nil_iff_forall_not_mem.mpr fun b hb => ?_
    exact HeapBlock.not_inside (hplaced b hb) (hin b hb).1
  · intro hnil b hb
    rw [hnil] at hb
    cases hb

end Run

/-- The heap over the zeroed pool at `0x10000000`. -/
def zeroHeap : HeapState := ⟨zeroPool.kernel, []⟩

/-- What two requests of 128 bytes get: the payload `[0x1000106A, 0x100010EA)` of the first ends behind
the header `[0x100010B5, 0x100010CD)` of the second. -/
def twoBlocks : List HeapBlock :=
  [⟨128, 0x100010B5, 0x1000111F⟩, ⟨128, 0x10001000, 0x1000106A⟩]

theorem HeapStep.fresh (wr user : Bool) (sz : UInt64) {limit top : Nat} {s : HeapState} {blocks : List Block}
    (hpos : 0 < sz) (hmax : sz < kKernelHeapMaxSize)
    (hchain : IsChain s.kernel.mem s.kernel.poolBase limit blocks top) (hbase : 0 < s.kernel.poolBase)
    (hskip : ∀ c ∈ blocks, ¬ Suitable (sz + hibSize) c) (hends : Ends s.kernel.mem top)
    (hlimit : top + (sz + hibSize).toNat ≤ limit) (hlimit64 : limit + 154 ≤ 2 ^ 64)
    (hentry : { s.kernel with mem := formatHeader s.kernel.mem (UInt64.ofNat top) (sz + hibSize) }.NoEntry
      (UInt64.ofNat top)) :
    ∃ mem, HeapStep true s (.new sz wr user)
        ⟨s.kernel.unmapped mem, ⟨sz, UInt64.ofNat top, UInt64.ofNat top + hibSize + hibSize⟩ :: s.live⟩ ∧
      IsChain mem s.kernel.poolBase limit (blocks ++ [⟨UInt64.ofNat top, sz + hibSize, true⟩])
        (top + (sz + hibSize).toNat) ∧
      ∀ a, a < top ∨ top + 154 ≤ a → mem a = s.kernel.mem a := by
  have hsize : bitMapHeaderSize ≤ (sz + hibSize).toNat := by
    have : sz.toNat < 2 ^ 31 := UInt64.lt_iff_toNat_lt.mp hmax
    rw [UInt64.toNat_add, show hibSize.toNat = 53 from rfl, Nat.mod_eq_of_lt (by omega), bitMapHeaderSize]
    omega
  have htop : (UInt64.ofNat top).toNat = top := UInt64.toNat_ofNat_of_lt' (by simp only [UInt64.size]; omega)
  have hinfo : (UInt64.ofNat top + hibSize).toNat = top + 53 := by
    rw [UInt64.toNat_add, htop, show hibSize.toNat = 53 from rfl, Nat.mod_eq_of_lt (by omega)]
  have hne : sz ≠ 0 := by
    rintro rfl
    cases hpos
  have halloc := mmAllocBitmap_format true wr user hchain hbase hsize hskip (by omega) hends
  rw [hentry.unmapped] at halloc
  have hreq := PageMgr.request_of_alloc false halloc
  have hcall := mmNewHeap_of_request hne hmax hreq
  refine ⟨_, .new _ hpos hmax hreq hcall, ?_, fun a ha => ?_⟩
  · have hold : IsChain s.kernel.mem s.kernel.poolBase limit (blocks ++ ([] ++ [])) top := by simpa using hchain
    refine (hold.replace (b := ⟨UInt64.ofNat top, sz + hibSize, true⟩) ?_ ?_ (formatHeader_headerAt _) hsize
      hlimit fun a _ _ => formatHeader_outside).congr fun b hb a ha hlt => ?_
    · rw [htop]
      exact hchain.tiles
    · rw [htop]
      rfl
    · refine (newHeapMem_outside (Or.inl ?_)).symm
      dsimp only
      rw [hinfo]
      rcases List.mem_append.mp hb with hb | hb
      · have := (hchain.bounds hb).2
        have := hchain.sizes b hb
        omega
      · obtain rfl := List.mem_singleton.mp hb
        simp only [htop, bitMapHeaderSize] at hlt
        omega
  · refine (newHeapMem_outside ?_).trans (formatHeader_outside ?_)
    · dsimp only
      rw [hinfo]
      omega
    · rw [htop, bitMapHeaderSize]
      omega

theorem zeroHeap_two_blocks :
    ∃ s, Run (HeapStep true) zeroHeap [.new 128 true false, .new 128 true false] s ∧ s.live = twoBlocks := by
  have c₀ : IsChain zeroHeap.kernel.mem zeroHeap.kernel.poolBase (2 ^ 32) [] 0x10001000 := .nil (by decide)
  obtain ⟨mem, h₁, c₁, hsame⟩ := HeapStep.fresh true false 128 (by decide) (by decide) c₀
    (by decide) (by decide) (by decide) (by decide) (by decide) (by decide)
  have hzero : ∀ a, a < 0x10001000 ∨ 0x100010B5 ≤ a → mem a = 0 := by
    intro a ha
    rw [hsame a (by omega)]
    rfl
  have hends : Ends mem 0x100010B5 := by
    have hmagic : bitSet mem (UInt64.ofNat 0x100010B5) kBitMapMagIdx = 0 :=
      bitSet_zeroed fun a ha _ => hzero a (.inr ha)
    rw [Ends, hmagic]
    decide
  obtain ⟨s₁, hs₁⟩ : ∃ s₁ : HeapState,
      s₁ = ⟨zeroHeap.kernel.unmapped mem, [⟨128, 0x10001000, 0x1000106A⟩]⟩ := ⟨_, rfl⟩
  have hmem : s₁.kernel.mem = mem := by rw [hs₁]; rfl
  have hbase : s₁.kernel.poolBase = 0x10001000 := by
    rw [hs₁]
    show zeroHeap.kernel.poolBase = 0x10001000
    decide
  have c₂ : IsChain s₁.kernel.mem s₁.kernel.poolBase (2 ^ 32) [⟨0x10001000, 181, true⟩] 0x100010B5 := by
    rw [hmem, hbase]
    exact c₁
  have htable : s₁.kernel.NoTable := by
    refine ⟨by rw [hs₁]; rfl, fun a ha => ?_⟩
    rw [hmem]
    exact hzero a (.inl (Nat.lt_trans ha (by decide)))
  have hmiss : s₁.kernel.pageStore.fVAddr ≠ UInt64.ofNat 0x100010B5 := by
    rw [hs₁]
    show (0 : UInt64) ≠ UInt64.ofNat 0x100010B5
    decide
  have hsame₂ : ∀ a < 0x8000, formatHeader s₁.kernel.mem (UInt64.ofNat 0x100010B5) (128 + hibSize) a =
      s₁.kernel.mem a := fun a ha => formatHeader_outside (.inl (Nat.lt_trans ha (by decide)))
  have hentry := htable.noEntry (by decide) hmiss hsame₂
  rw [← hmem] at hends
  obtain ⟨mem₂, h₂, -⟩ := HeapStep.fresh true false 128 (by decide) (by decide) c₂
    (by rw [hbase]; decide) (by decide) hends (by decide) (by decide) hentry
  have hrun : Run (HeapStep true) zeroHeap ([] ++ [.new 128 true false]) s₁ := (Run.nil zeroHeap).snoc (hs₁ ▸ h₁)
  refine ⟨_, hrun.snoc h₂, ?_⟩
  rw [hs₁]
  show [⟨128, UInt64.ofNat 0x100010B5, UInt64.ofNat 0x100010B5 + hibSize + hibSize⟩,
    ⟨128, 0x10001000, 0x1000106A⟩] = twoBlocks
  decide

theorem heap_blocks_inside_iff_two :
    ∃ s, Run (HeapStep true) zeroHeap [.new 128 true false, .new 128 true false] s ∧ s.live = twoBlocks ∧
      (BlocksInside s.live ↔ s.live = []) := by
  obtain ⟨s, hrun, hlive⟩ := zeroHeap_two_blocks
  exact ⟨s, hrun, hlive, heap_blocks_inside_iff rfl hrun⟩

/-- Two live pointers, the first one's payload over the second one's header. -/
theorem heap_blocks_overlap :
    ∃ s, ZeroedPool (2 ^ 32) ⟨zeroHeap.kernel, []⟩ ∧ zeroHeap.live = [] ∧
      Run (HeapStep true) zeroHeap [.new 128 true false, .new 128 true false] s ∧ s.live = twoBlocks ∧
      ¬ BlocksInside s.live := by
  obtain ⟨s, hrun, hlive⟩ := zeroHeap_two_blocks
  refine ⟨s, zeroPool_zeroed, rfl, hrun, hlive, fun hin => ?_⟩
  rw [hlive] at hin
  have hover := ((hin ⟨128, 0x10001000, 0x1000106A⟩ (by decide)).2 ⟨128, 0x100010B5, 0x1000111F⟩ (by decide)
    (by decide)).1
  exact hover 0x100010B5 (by decide) (by decide)

end OpenNE

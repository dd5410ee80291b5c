import OpenNE.Memory.HeapCheck
import OpenNE.Memory.HeapFree
import OpenNE.Memory.HeapRun
import OpenNE.Memory.ObjectHeap
import Mathlib.Data.List.Pairwise

/-!
# The objects of the byte heap

The callers of `mm_new_heap` see objects that do not touch each other. The heap of `src/Heap.cc` keeps that up as
long as every request is for at least 101 bytes, finds room in the pool and is mapped by page-table words outside of
it, and its owner stays off the last 53 bytes it asked for: every run of the calls is then a run of the object heap
with the same answers (`heap_refines_objects`).
-/

namespace OpenNE

/-! ### The calls on an information block -/

/-- `mm_make_page` and `mm_make_flags`: one assignment to the information block of a heap. -/
def mmMarkHeap (mark : HeapInformationBlock → HeapInformationBlock) (heapPtr : UInt64) (k : Kernel) :
    Int32 × Kernel :=
  if mmCheckHeapAddress heapPtr = false then (kErrorHeapNotPresent, k)
  else
    let heapInfoPtr := heapPtr - hibSize
    if heapInfoPtr = 0 then (kErrorHeapNotPresent, k)
    else (kErrorSuccess, { k with mem := setHeapInfo k.mem heapInfoPtr (mark (heapInfo k.mem heapInfoPtr)) })

/-- `heap_info_ptr->fPagePtr = true`. -/
def HeapInformationBlock.asPage (info : HeapInformationBlock) : HeapInformationBlock := info.setBit hibPagePtr true

/-- `heap_info_ptr->fFlags = flags`. -/
def HeapInformationBlock.withFlags (flags : UInt64) (info : HeapInformationBlock) : HeapInformationBlock :=
  { info with fFlags := flags }

/-- `mm_make_page`. -/
def mmMakePage (heapPtr : UInt64) (k : Kernel) : Int32 × Kernel := mmMarkHeap HeapInformationBlock.asPage heapPtr k

/-- `mm_make_flags`. -/
def mmMakeFlags (heapPtr flags : UInt64) (k : Kernel) : Int32 × Kernel :=
  mmMarkHeap (HeapInformationBlock.withFlags flags) heapPtr k

/-- `mm_get_flags`; null is not refused here. -/
def mmGetFlags (heapPtr : UInt64) (k : Kernel) : UInt64 :=
  let heapInfoPtr := heapPtr - hibSize
  if heapInfoPtr = 0 then kErrorHeapNotPresent.toInt64.toUInt64 else (heapInfo k.mem heapInfoPtr).fFlags

namespace ObjectHeap

/-- `mmMarkHeap` of an object. -/
def mmMarkHeap (mark : HeapInformationBlock → HeapInformationBlock) (p : UInt64) (h : ObjectHeap) :
    Int32 × ObjectHeap :=
  if mmCheckHeapAddress p = false then (kErrorHeapNotPresent, h)
  else if p - hibSize = 0 then (kErrorHeapNotPresent, h)
  else (kErrorSuccess, { h with info := Function.update h.info p (mark (h.info p)) })

/-- `mm_get_flags` of an object. -/
def mmGetFlags (p : UInt64) (h : ObjectHeap) : UInt64 :=
  if p - hibSize = 0 then kErrorHeapNotPresent.toInt64.toUInt64 else (h.info p).fFlags

end ObjectHeap

/-! ### Runs of both heaps -/

/-- A call, or an owner's access to a word of its object, with the answer. -/
inductive ObjectOp where
  | new (sz : UInt64) (wr user : Bool) (p : UInt64)
  | delete (p : UInt64) (code : Int32)
  | makePage (p : UInt64) (code : Int32)
  | makeFlags (p flags : UInt64) (code : Int32)
  | getFlags (p flags : UInt64)
  | setWord (p : UInt64) (i : Nat) (v : UInt64)
  | getWord (p : UInt64) (i : Nat) (v : UInt64)

/-- The calls on the bytes. -/
inductive ByteStep (debug : Bool) : HeapState → ObjectOp → HeapState → Prop
  | new {s : HeapState} {sz p : UInt64} {wr user : Bool} {k : Kernel} (fuel : Nat)
      (hcall : mmNewHeap debug fuel sz wr user s.kernel = .ok (p, k)) :
      ByteStep debug s (.new sz wr user p) ⟨k, ⟨sz, p - hibSize - hibSize, p⟩ :: s.live⟩
  | delete {s : HeapState} {b : HeapBlock} (hlive : b ∈ s.live) :
      ByteStep debug s (.delete b.ptr (mmDeleteHeap b.ptr s.kernel).1)
        ⟨(mmDeleteHeap b.ptr s.kernel).2, s.live.filter (·.ptr ≠ b.ptr)⟩
  | makePage {s : HeapState} {b : HeapBlock} (hlive : b ∈ s.live) :
      ByteStep debug s (.makePage b.ptr (mmMakePage b.ptr s.kernel).1) ⟨(mmMakePage b.ptr s.kernel).2, s.live⟩
  | makeFlags {s : HeapState} {b : HeapBlock} (flags : UInt64) (hlive : b ∈ s.live) :
      ByteStep debug s (.makeFlags b.ptr flags (mmMakeFlags b.ptr flags s.kernel).1)
        ⟨(mmMakeFlags b.ptr flags s.kernel).2, s.live⟩
  | getFlags {s : HeapState} {b : HeapBlock} (hlive : b ∈ s.live) :
      ByteStep debug s (.getFlags b.ptr (mmGetFlags b.ptr s.kernel)) s
  | setWord {s : HeapState} {b : HeapBlock} (i : Nat) (v : UInt64) (hlive : b ∈ s.live) :
      ByteStep debug s (.setWord b.ptr i v)
        ⟨{ s.kernel with mem := setBitSet s.kernel.mem b.ptr i v }, s.live⟩
  | getWord {s : HeapState} {b : HeapBlock} (i : Nat) (hlive : b ∈ s.live) :
      ByteStep debug s (.getWord b.ptr i (bitSet s.kernel.mem b.ptr i)) s

/-- The heap `h₀` is `h` but for what stands at `p`, where no block is live. -/
structure ObjectHeap.Dirty (h : ObjectHeap) (p : UInt64) (h₀ : ObjectHeap) : Prop where
  dead : ¬h.Live p ∧ ¬h₀.Live p
  info : ∀ q ≠ p, h₀.info q = h.info q
  words : ∀ q ≠ p, h₀.words q = h.words q

/-- The same calls on the objects. A new one may be placed wherever no block is live, whatever stood there. -/
inductive ObjectStep (debug : Bool) : ObjectHeap → ObjectOp → ObjectHeap → Prop
  | new {h h₀ h' : ObjectHeap} {sz p : UInt64} {wr user : Bool} (env : Placement) (hdirty : h.Dirty p h₀)
      (hcall : h₀.mmNewHeap env debug sz wr user = .ok (p, h')) : ObjectStep debug h (.new sz wr user p) h'
  | delete {h : ObjectHeap} {p : UInt64} (hlive : h.Live p) :
      ObjectStep debug h (.delete p (h.mmDeleteHeap p).1) (h.mmDeleteHeap p).2
  | makePage {h : ObjectHeap} {p : UInt64} (hlive : h.Live p) :
      ObjectStep debug h (.makePage p (h.mmMarkHeap HeapInformationBlock.asPage p).1)
        (h.mmMarkHeap HeapInformationBlock.asPage p).2
  | makeFlags {h : ObjectHeap} {p : UInt64} (flags : UInt64) (hlive : h.Live p) :
      ObjectStep debug h (.makeFlags p flags (h.mmMarkHeap (HeapInformationBlock.withFlags flags) p).1)
        (h.mmMarkHeap (HeapInformationBlock.withFlags flags) p).2
  | getFlags {h : ObjectHeap} {p : UInt64} (hlive : h.Live p) : ObjectStep debug h (.getFlags p (h.mmGetFlags p)) h
  | setWord {h : ObjectHeap} {p : UInt64} (i : Nat) (v : UInt64) (hlive : h.Live p) :
      ObjectStep debug h (.setWord p i v) (h.setWord p i v)
  | getWord {h : ObjectHeap} {p : UInt64} (i : Nat) (hlive : h.Live p) :
      ObjectStep debug h (.getWord p i (h.words p i)) h

/-- Word `i` of the payload ends inside what was requested for it. -/
def HeapBlock.Usable (b : HeapBlock) (i : Nat) : Prop := 8 * i + 8 + hibSize.toNat ≤ b.sz.toNat

instance (b : HeapBlock) (i : Nat) : Decidable (b.Usable i) := inferInstanceAs (Decidable (_ ≤ _))

/-- What keeps the objects apart: requests are not small, have room in the pool and page-table words outside of it, and
words are usable. -/
def Careful (limit : Nat) (s : HeapState) : ObjectOp → Prop
  | .new sz _ _ _ =>
    101 ≤ sz.toNat ∧ sz < kKernelHeapMaxSize ∧ Room s.kernel limit (sz + hibSize)
  | .setWord p i _ => ∀ b ∈ s.live, b.ptr = p → b.Usable i
  | .getWord p i _ => ∀ b ∈ s.live, b.ptr = p → b.Usable i
  | _ => True

/-! ### Where a live object lies -/

/-- The block of a careful request. -/
structure HeapBlock.Fits (b : HeapBlock) : Prop where
  ptr : b.ptr = b.base + hibSize + hibSize
  big : 101 ≤ b.sz.toNat
  small : b.sz.toNat < 2 ^ 31
  pos : 0 < b.base.toNat
  last : b.base.toNat + (b.sz.toNat + 53) ≤ 2 ^ 64

/-- The block as the pool knows it. -/
def HeapBlock.claim (b : HeapBlock) : UInt64 × UInt64 := (b.base, b.sz + hibSize)

section Fits

variable {b : HeapBlock}

theorem HeapBlock.Fits.info_eq (hb : b.Fits) : b.ptr - hibSize = b.base + hibSize := by
  rw [hb.ptr, UInt64.add_sub_cancel]

theorem HeapBlock.Fits.base_eq (hb : b.Fits) : b.ptr - hibSize - hibSize = b.base := by
  rw [hb.info_eq, UInt64.add_sub_cancel]

theorem HeapBlock.Fits.info_toNat (hb : b.Fits) : (b.base + hibSize).toNat = b.base.toNat + 53 := by
  have := hb.last
  have := hb.big
  rw [UInt64.toNat_add, show hibSize.toNat = 53 from rfl, Nat.mod_eq_of_lt (by omega)]

theorem HeapBlock.Fits.ptr_toNat (hb : b.Fits) : b.ptr.toNat = b.base.toNat + 106 := by
  have := hb.last
  have := hb.big
  rw [hb.ptr, UInt64.toNat_add, hb.info_toNat, show hibSize.toNat = 53 from rfl, Nat.mod_eq_of_lt (by omega)]

theorem HeapBlock.Fits.size_toNat (hb : b.Fits) : (b.sz + hibSize).toNat = b.sz.toNat + 53 := by
  have := hb.small
  rw [UInt64.toNat_add, show hibSize.toNat = 53 from rfl, Nat.mod_eq_of_lt (by omega)]

theorem HeapBlock.Fits.ptr_ne (hb : b.Fits) : b.ptr ≠ 0 := by
  intro hzero
  have h := hb.ptr_toNat
  rw [hzero, UInt64.toNat_zero] at h
  omega

theorem HeapBlock.Fits.info_ne (hb : b.Fits) : b.ptr - hibSize ≠ 0 := by
  intro hzero
  rw [hb.info_eq] at hzero
  have h := hb.info_toNat
  rw [hzero, UInt64.toNat_zero] at h
  omega

theorem HeapBlock.Fits.congr {mem mem' : Store} (hb : b.Fits) (h : ∀ a, b.base.toNat + bitMapHeaderSize ≤ a →
      a < b.base.toNat + (b.sz.toNat + 53) → mem' a = mem a) :
    heapInfo mem' (b.ptr - hibSize) = heapInfo mem (b.ptr - hibSize) ∧
      ∀ i, b.Usable i → bitSet mem' b.ptr i = bitSet mem b.ptr i := by
  have hbig := hb.big
  simp only [bitMapHeaderSize] at h
  refine ⟨?_, fun i hi => ?_⟩
  · rw [hb.info_eq]
    apply Store.get_congr
    intro a ha hlt
    rw [hibSize_codec, hb.info_toNat, show hibSize.toNat = 53 from rfl] at hlt
    rw [hb.info_toNat] at ha
    exact h a (by omega) (by omega)
  · apply bitSet_congr
    intro a ha hlt
    rw [hb.ptr_toNat] at ha hlt
    simp only [Usable, show hibSize.toNat = 53 from rfl] at hi
    exact h a (by omega) (by omega)

end Fits

/-! ### The simulation -/

/-- The objects are those of the bytes: the same ones are live, with the same information blocks and usable
words. -/
structure HeapSim (limit : Nat) (s : HeapState) (h : ObjectHeap) : Prop where
  pool : ∃ blocks top, PoolInv limit ⟨s.kernel, s.live.map HeapBlock.claim⟩ blocks top
  fits : ∀ b ∈ s.live, b.Fits
  live : ∀ p, h.Live p ↔ ∃ b ∈ s.live, b.ptr = p
  info : ∀ b ∈ s.live, h.info b.ptr = heapInfo s.kernel.mem (b.ptr - hibSize)
  words : ∀ b ∈ s.live, ∀ i, b.Usable i → h.words b.ptr i = bitSet s.kernel.mem b.ptr i

section Sim

variable {limit : Nat} {s : HeapState} {h : ObjectHeap} {b c : HeapBlock}

theorem claims_apart {k : Kernel} {live : List HeapBlock} {blocks : List Block} {top : Nat}
    (hpool : PoolInv limit ⟨k, live.map HeapBlock.claim⟩ blocks top) (hfits : ∀ b ∈ live, b.Fits)
    (hb : b ∈ live) (hc : c ∈ live) (hne : b ≠ c) :
    b.base.toNat + (b.sz.toNat + 53) ≤ c.base.toNat ∨ c.base.toNat + (c.sz.toNat + 53) ≤ b.base.toNat := by
  have hpair := List.pairwise_map.mp hpool.apart
  have hsymm : Std.Symm fun x y : HeapBlock => (liveSpan x.claim).Disjoint (liveSpan y.claim) :=
    ⟨fun _ _ hxy => hxy.symm⟩
  have hdisj := hpair.forall hb hc hne
  have hbig := (hfits b hb).size_toNat
  have hbig' := (hfits c hc).size_toNat
  have hiff := (Span.disjoint_iff (by simp only [liveSpan, HeapBlock.claim]; omega)
    (by simp only [liveSpan, HeapBlock.claim]; omega)).mp hdisj
  simp only [liveSpan, HeapBlock.claim] at hiff
  omega

theorem HeapSim.eq_of_ptr (hs : HeapSim limit s h) (hb : b ∈ s.live) (hc : c ∈ s.live) (heq : b.ptr = c.ptr) :
    b = c := by
  by_contra hne
  obtain ⟨blocks, top, hpool⟩ := hs.pool
  have hapart := claims_apart hpool hs.fits hb hc hne
  have hb' := (hs.fits b hb).ptr_toNat
  have hc' := (hs.fits c hc).ptr_toNat
  have := (hs.fits b hb).big
  have := (hs.fits c hc).big
  rw [heq] at hb'
  omega

theorem HeapSim.isLive (hs : HeapSim limit s h) (hb : b ∈ s.live) : h.Live b.ptr := (hs.live _).mpr ⟨b, hb, rfl⟩

theorem HeapSim.ptr_ne (hs : HeapSim limit s h) (hb : b ∈ s.live) (hc : c ∈ s.live) (hne : c ≠ b) :
    c.ptr ≠ b.ptr :=
  fun heq => hne (hs.eq_of_ptr hc hb heq)

theorem HeapSim.kept {mem : Store} (hs : HeapSim limit s h) (hc : c ∈ s.live)
    (hsame : ∀ a, c.base.toNat ≤ a → a < c.base.toNat + (c.sz.toNat + 53) → mem a = s.kernel.mem a) :
    h.info c.ptr = heapInfo mem (c.ptr - hibSize) ∧ ∀ i, c.Usable i → h.words c.ptr i = bitSet mem c.ptr i := by
  have hinside : ∀ a, c.base.toNat + bitMapHeaderSize ≤ a → a < c.base.toNat + (c.sz.toNat + 53) →
      mem a = s.kernel.mem a := fun a ha hlt => hsame a (by omega) hlt
  obtain ⟨hinfo, hwords⟩ := (hs.fits c hc).congr hinside
  exact ⟨by rw [hinfo]; exact hs.info c hc, fun i hi => by rw [hwords i hi]; exact hs.words c hc i hi⟩

theorem HeapSim.inside (hs : HeapSim limit s h) (hc : c ∈ s.live) :
    s.kernel.poolBase ≤ c.base.toNat ∧ c.base.toNat + (c.sz.toNat + 53) ≤ limit := by
  obtain ⟨blocks, top, hpool⟩ := hs.pool
  have hclaim : (c.base, c.sz + hibSize) ∈ s.live.map HeapBlock.claim := List.mem_map.mpr ⟨c, hc, rfl⟩
  have hbound := hpool.chain.bounds (hpool.block_of_live hclaim)
  have htop := hpool.chain.top_le
  have hsize := (hs.fits c hc).size_toNat
  simp only [hsize] at hbound
  exact ⟨hbound.1, by omega⟩

theorem HeapSim.others {mem : Store} (hs : HeapSim limit s h) (hb : b ∈ s.live) (hc : c ∈ s.live) (hne : c ≠ b)
    (hsame : ∀ a, a < b.base.toNat ∨ b.base.toNat + (b.sz.toNat + 53) ≤ a → mem a = s.kernel.mem a) :
    h.info c.ptr = heapInfo mem (c.ptr - hibSize) ∧ ∀ i, c.Usable i → h.words c.ptr i = bitSet mem c.ptr i := by
  obtain ⟨blocks, top, hpool⟩ := hs.pool
  have hapart := claims_apart hpool hs.fits hc hb hne
  exact hs.kept hc fun a ha hlt => hsame a (by omega)

/-- A write into the block of one object, behind its bitmap header. -/
def OwnWrite (b : HeapBlock) (mem mem' : Store) : Prop :=
  ∃ off bs, bitMapHeaderSize ≤ off ∧ off + bs.length ≤ b.sz.toNat + 53 ∧
    mem' = mem.write (b.base.toNat + off) bs

theorem OwnWrite.outside {mem mem' : Store} (hw : OwnWrite b mem mem') {a : Nat}
    (ha : a < b.base.toNat ∨ b.base.toNat + (b.sz.toNat + 53) ≤ a) : mem' a = mem a := by
  obtain ⟨off, bs, -, hlen, rfl⟩ := hw
  exact Store.write_apply_outside (by omega)

theorem OwnWrite.pool {live : List HeapBlock} {k : Kernel} {mem' : Store} (hw : OwnWrite b k.mem mem')
    (hfits : b.Fits) (hb : b ∈ live)
    (hpool : ∃ blocks top, PoolInv limit ⟨k, live.map HeapBlock.claim⟩ blocks top) :
    ∃ blocks top, PoolInv limit ⟨{ k with mem := mem' }, live.map HeapBlock.claim⟩ blocks top := by
  obtain ⟨blocks, top, hpool⟩ := hpool
  obtain ⟨off, bs, hoff, hlen, rfl⟩ := hw
  have hclaim : (b.base, b.sz + hibSize) ∈ live.map HeapBlock.claim := List.mem_map.mpr ⟨b, hb, rfl⟩
  exact ⟨blocks, top, hpool.write hclaim hoff (by rw [hfits.size_toNat]; exact hlen)⟩

theorem HeapBlock.Fits.setHeapInfo (hb : b.Fits) (mem : Store) (info : HeapInformationBlock) :
    OwnWrite b mem (setHeapInfo mem (b.ptr - hibSize) info) := by
  refine ⟨53, HeapInformationBlock.codec.enc info, by decide, ?_, ?_⟩
  · rw [Codec.enc_length, hibSize_codec, show hibSize.toNat = 53 from rfl]
    have := hb.big
    omega
  · rw [hb.info_eq, ← hb.info_toNat]
    rfl

theorem HeapBlock.Fits.clearPadding (hb : b.Fits) (mem : Store) :
    OwnWrite b mem (clearPadding mem (b.ptr - hibSize)) := by
  refine ⟨90, List.replicate (4 * kKernelHeapAlignSz) 0, by decide, ?_, ?_⟩
  · have := hb.big
    simp only [List.length_replicate, kKernelHeapAlignSz]
    omega
  · rw [hb.info_eq]
    unfold OpenNE.clearPadding
    rw [hb.info_toNat]

theorem HeapBlock.Fits.setBitSet (hb : b.Fits) (mem : Store) {i : Nat} (hi : b.Usable i) (v : UInt64) :
    OwnWrite b mem (setBitSet mem b.ptr i v) := by
  refine ⟨106 + 8 * i, Codec.u64.enc v, ?_, ?_, ?_⟩
  · simp only [bitMapHeaderSize]
    omega
  · simp only [Usable, show hibSize.toNat = 53 from rfl] at hi
    rw [Codec.enc_length]
    simp only [Codec.u64, Codec.map, Codec.word]
    omega
  · have haddr : b.base.toNat + (106 + 8 * i) = b.ptr.toNat + 8 * i := by
      rw [hb.ptr_toNat]
      omega
    rw [haddr]
    rfl

end Sim

/-! ### One step -/

section Steps

variable {limit : Nat} {s : HeapState} {h : ObjectHeap} {b : HeapBlock}

/-- A mark that leaves the block live. -/
def KeepsLive (mark : HeapInformationBlock → HeapInformationBlock) : Prop :=
  ∀ info, (mark info).fMagic = info.fMagic ∧ (mark info).bit hibPresent = info.bit hibPresent

theorem keepsLive_asPage : KeepsLive HeapInformationBlock.asPage := by
  intro info
  refine ⟨rfl, ?_⟩
  obtain ⟨b, hb⟩ := List.length_eq_one_iff.mp info.bits.2
  have hand : (b ||| hibPagePtr) &&& hibPresent = b &&& hibPresent := by
    apply UInt8.eq_of_toBitVec_eq
    simp only [UInt8.toBitVec_and, UInt8.toBitVec_or]
    rw [BitVec.and_or_distrib_right]
    simp [hibPagePtr, hibPresent]
  simp [HeapInformationBlock.asPage, HeapInformationBlock.setBit, HeapInformationBlock.bit, hb, hand]

theorem keepsLive_withFlags (flags : UInt64) : KeepsLive (HeapInformationBlock.withFlags flags) :=
  fun _ => ⟨rfl, rfl⟩

theorem HeapSim.mark {mark : HeapInformationBlock → HeapInformationBlock} (hs : HeapSim limit s h)
    (hmark : KeepsLive mark) (hb : b ∈ s.live) :
    (mmMarkHeap mark b.ptr s.kernel).1 = (h.mmMarkHeap mark b.ptr).1 ∧
      HeapSim limit ⟨(mmMarkHeap mark b.ptr s.kernel).2, s.live⟩ (h.mmMarkHeap mark b.ptr).2 := by
  have hfits := hs.fits b hb
  have hcheck : mmCheckHeapAddress b.ptr ≠ false := by simp [mmCheckHeapAddress, hfits.ptr_ne]
  have hbytes : mmMarkHeap mark b.ptr s.kernel = (kErrorSuccess, { s.kernel with
      mem := setHeapInfo s.kernel.mem (b.ptr - hibSize) (mark (heapInfo s.kernel.mem (b.ptr - hibSize))) }) := by
    rw [mmMarkHeap, if_neg hcheck]
    exact if_neg hfits.info_ne
  have hobject : h.mmMarkHeap mark b.ptr =
      (kErrorSuccess, { h with info := Function.update h.info b.ptr (mark (h.info b.ptr)) }) := by
    rw [ObjectHeap.mmMarkHeap, if_neg hcheck, if_neg hfits.info_ne]
  have hw := hfits.setHeapInfo s.kernel.mem (mark (heapInfo s.kernel.mem (b.ptr - hibSize)))
  rw [hbytes, hobject]
  refine ⟨rfl, hw.pool hfits hb hs.pool, hs.fits, ?_, ?_, ?_⟩
  · intro p
    rw [← hs.live p]
    by_cases hp : p = b.ptr
    · subst hp
      obtain ⟨hmagic, hbit⟩ := hmark (h.info b.ptr)
      simp only [ObjectHeap.Live, Function.update_self, hmagic, hbit]
    · simp [ObjectHeap.Live, hp]
  · intro c hc
    by_cases hcb : c = b
    · subst hcb
      simp only [Function.update_self]
      rw [heapInfo_setHeapInfo, hs.info c hc]
    · simp only [ne_eq, hs.ptr_ne hb hc hcb, not_false_eq_true, Function.update_of_ne]
      exact (hs.others hb hc hcb fun a ha => hw.outside ha).1
  · intro c hc i hi
    by_cases hcb : c = b
    · subst hcb
      rw [hs.words c hc i hi]
      apply bitSet_congr
      intro a ha hlt
      refine (setHeapInfo_outside (.inr ?_)).symm
      rw [hfits.info_eq, hfits.info_toNat]
      rw [hfits.ptr_toNat] at ha
      omega
    · exact (hs.others hb hc hcb fun a ha => hw.outside ha).2 i hi

theorem HeapSim.setWord (hs : HeapSim limit s h) (hb : b ∈ s.live) {i : Nat} (hi : b.Usable i) (v : UInt64) :
    HeapSim limit ⟨{ s.kernel with mem := setBitSet s.kernel.mem b.ptr i v }, s.live⟩ (h.setWord b.ptr i v) := by
  have hfits := hs.fits b hb
  have hw := hfits.setBitSet s.kernel.mem hi v
  refine ⟨hw.pool hfits hb hs.pool, hs.fits, hs.live, ?_, ?_⟩
  · intro c hc
    by_cases hcb : c = b
    · subst hcb
      show h.info c.ptr = _
      rw [hs.info c hc]
      apply Store.get_congr
      intro a ha hlt
      refine (setBitSet_outside (.inl ?_)).symm
      rw [hibSize_codec, hfits.info_eq, hfits.info_toNat, show hibSize.toNat = 53 from rfl] at hlt
      rw [hfits.ptr_toNat]
      omega
    · exact (hs.others hb hc hcb fun a ha => hw.outside ha).1
  · intro c hc j hj
    rw [ObjectHeap.words_setWord]
    by_cases hcb : c = b
    · subst hcb
      by_cases hij : j = i
      · rw [if_pos ⟨rfl, hij⟩, hij]
        exact (bitSet_setBitSet_same _ _ _ _).symm
      · rw [if_neg fun h => hij h.2, bitSet_setBitSet_ne (Ne.symm hij)]
        exact hs.words c hc j hj
    · rw [if_neg fun heq => hs.ptr_ne hb hc hcb heq.1]
      exact (hs.others hb hc hcb fun a ha => hw.outside ha).2 j hj

theorem HeapSim.delete (hs : HeapSim limit s h) (hb : b ∈ s.live) :
    (mmDeleteHeap b.ptr s.kernel).1 = (h.mmDeleteHeap b.ptr).1 ∧
      HeapSim limit ⟨(mmDeleteHeap b.ptr s.kernel).2, s.live.filter (·.ptr ≠ b.ptr)⟩ (h.mmDeleteHeap b.ptr).2 := by
  have hfits := hs.fits b hb
  have hlive := hs.isLive hb
  obtain ⟨-, -, hmagic, hbit⟩ := hlive
  rw [hs.info b hb] at hmagic hbit
  have hbytes := mmDeleteHeap_live (k := s.kernel) hfits.ptr_ne hfits.info_ne hmagic hbit
  rw [hfits.base_eq] at hbytes
  have hw := hfits.setHeapInfo s.kernel.mem (heapInfo s.kernel.mem (b.ptr - hibSize)).released
  obtain ⟨blocks, top, hpool⟩ := hw.pool hfits hb hs.pool
  have hclaim : (b.base, b.sz + hibSize) ∈ s.live.map HeapBlock.claim := List.mem_map.mpr ⟨b, hb, rfl⟩
  obtain ⟨blocks', hfreed⟩ := hpool.free hclaim
  -- the pool drops the block by its base, the run by its pointer
  have hfilter : (s.live.map HeapBlock.claim).filter (·.1 ≠ b.base) =
      (s.live.filter (·.ptr ≠ b.ptr)).map HeapBlock.claim := by
    rw [List.filter_map]
    congr 1
    apply List.filter_congr
    intro c hc
    have hiff : c.base ≠ b.base ↔ c.ptr ≠ b.ptr := by
      rw [(hs.fits c hc).ptr, hfits.ptr, ne_eq, ne_eq, UInt64.add_left_inj, UInt64.add_left_inj]
    exact decide_eq_decide.mpr hiff
  rw [hfilter] at hfreed
  obtain ⟨hok, hlive'⟩ := ObjectHeap.mmDeleteHeap_live (hs.isLive hb)
  have hsame : ∀ a, a < b.base.toNat ∨ b.base.toNat + (b.sz.toNat + 53) ≤ a →
      (mmDeleteHeap b.ptr s.kernel).2.mem a = s.kernel.mem a := by
    intro a ha
    have hbig := hfits.big
    rw [hbytes]
    refine Eq.trans (mmFreeBitmap_outside ?_) (hw.outside ha)
    simp only [bitMapHeaderSize]
    omega
  have hmem : ∀ c ∈ s.live.filter (·.ptr ≠ b.ptr), c ∈ s.live ∧ c.ptr ≠ b.ptr := fun c hc => by
    simpa using List.mem_filter.mp hc
  have hother : ∀ c ∈ s.live.filter (·.ptr ≠ b.ptr), c ≠ b := by
    rintro c hc rfl
    exact (hmem c hc).2 rfl
  refine ⟨by rw [hbytes, hok], ⟨blocks', top, ?_⟩, fun c hc => hs.fits c (hmem c hc).1, ?_, ?_, ?_⟩
  · rw [hbytes]
    exact hfreed
  · intro p
    rw [hlive' p, hs.live p]
    constructor
    · rintro ⟨hne, c, hc, rfl⟩
      exact ⟨c, List.mem_filter.mpr ⟨hc, by simpa using hne⟩, rfl⟩
    · rintro ⟨c, hc, rfl⟩
      exact ⟨(hmem c hc).2, c, (hmem c hc).1, rfl⟩
  · intro c hc
    rw [ObjectHeap.mmDeleteHeap_info (hmem c hc).2]
    exact (hs.others hb (hmem c hc).1 (hother c hc) hsame).1
  · intro c hc i hi
    rw [ObjectHeap.mmDeleteHeap_words]
    exact (hs.others hb (hmem c hc).1 (hother c hc) hsame).2 i hi

/-! ### A new object -/

theorem mmNewHeap_block {debug wr user : Bool} {fuel : Nat} {sz p : UInt64} {k k' : Kernel} (hsz : sz ≠ 0)
    (hmax : sz < kKernelHeapMaxSize) (h : mmNewHeap debug fuel sz wr user k = .ok (p, k')) :
    ∃ base k₁, mmAllocBitmap debug fuel wr user (sz + hibSize) k = .ok (base, k₁) ∧
      p = base + hibSize + hibSize ∧ k' = { k₁ with mem := newHeapMem wr user sz base k₁.mem } := by
  obtain ⟨⟨base, k₁⟩, halloc⟩ : ∃ r, mmAllocBitmap debug fuel wr user (sz + hibSize) k = .ok r := by
    simp only [mmNewHeap, hsz, if_false, Exec.pure_eq_ok] at h
    obtain ⟨-, -, hrest⟩ := Exec.bind_eq_ok.mp h
    obtain ⟨_, hreq, -⟩ := Exec.bind_eq_ok.mp hrest
    obtain ⟨r, halloc, -⟩ := Exec.bind_eq_ok.mp hreq
    exact ⟨r, halloc⟩
  rw [mmNewHeap_of_request hsz hmax (PageMgr.request_of_alloc false halloc)] at h
  obtain ⟨rfl, rfl⟩ := Prod.mk.inj (Except.ok.inj h)
  exact ⟨base, k₁, halloc, rfl, rfl⟩

theorem heapInfo_clearPadding_eq (mem : Store) (heapInfoPtr : UInt64) :
    heapInfo (clearPadding mem heapInfoPtr) heapInfoPtr =
      { heapInfo mem heapInfoPtr with fPadding := ⟨List.replicate 16 0, rfl⟩ } := by
  have hbefore : ∀ a, a < heapInfoPtr.toNat + 37 → clearPadding mem heapInfoPtr a = mem a :=
    fun a ha => clearPadding_outside (.inl ha)
  have hpadding : ∀ a, heapInfoPtr.toNat + 37 ≤ a → a < heapInfoPtr.toNat + 37 + 16 →
      clearPadding mem heapInfoPtr a = 0 := by
    intro a ha hlt
    have hlen : (List.replicate (4 * kKernelHeapAlignSz) (0 : UInt8)).length = 64 := rfl
    rw [clearPadding, Store.write, if_pos ⟨ha, by omega⟩, List.getD_replicate]
    exact show a - _ < 64 by omega
  have h64 : ∀ n, n + 8 ≤ 37 → (clearPadding mem heapInfoPtr).get Codec.u64 (heapInfoPtr.toNat + n) =
      mem.get Codec.u64 (heapInfoPtr.toNat + n) := fun n hn => Store.get_congr fun a _ hlt =>
    hbefore a (by simp only [Codec.u64, Codec.map, Codec.word] at hlt; omega)
  have hmagic := h64 0 (by decide)
  have hbits : (clearPadding mem heapInfoPtr).get (Codec.bytes 1) (heapInfoPtr.toNat + 8) =
      mem.get (Codec.bytes 1) (heapInfoPtr.toNat + 8) := Store.get_congr fun a _ hlt =>
    hbefore a (by simp only [Codec.bytes] at hlt; omega)
  have hcrc : (clearPadding mem heapInfoPtr).get Codec.u32 (heapInfoPtr.toNat + 9) =
      mem.get Codec.u32 (heapInfoPtr.toNat + 9) := Store.get_congr fun a _ hlt =>
    hbefore a (by simp only [Codec.u32, Codec.map, Codec.word] at hlt; omega)
  have hzero : (clearPadding mem heapInfoPtr).get (Codec.bytes 16) (heapInfoPtr.toNat + 37) =
      ⟨List.replicate 16 0, rfl⟩ := Store.get_zeroed fun a ha hlt => hpadding a ha hlt
  rw [Nat.add_zero] at hmagic
  rw [heapInfo_eq, heapInfo_eq, hmagic, hbits, hcrc, h64 13 (by decide), h64 21 (by decide), h64 29 (by decide), hzero]

/-- A heap that places the next block at `p`. -/
def ObjectHeap.placing (p : UInt64) (hptr : p ≠ 0) (hinfo : p - hibSize ≠ 0) : Placement where
  place h _ := if h.Live p then none else some p
  place_fresh := by
    intro h _ q hq
    split_ifs at hq with hlive
    obtain rfl := Option.some.inj hq
    exact ⟨hptr, hinfo, hlive⟩

/-- The objects, with what a memory holds at `p` where no block is live. -/
def ObjectHeap.dirtied (h : ObjectHeap) (p : UInt64) (mem : Store) : ObjectHeap :=
  { h with
    info := Function.update h.info p { heapInfo mem (p - hibSize) with fMagic := 0 }
    words := Function.update h.words p (bitSet mem p) }

theorem ObjectHeap.dirtied_dirty {p : UInt64} {mem : Store} (hdead : ¬h.Live p) : h.Dirty p (h.dirtied p mem) where
  dead := by
    refine ⟨hdead, ?_⟩
    rintro ⟨-, -, hmagic, -⟩
    have hzero : ((h.dirtied p mem).info p).fMagic = 0 := by simp only [dirtied, Function.update_self]
    rw [hzero] at hmagic
    exact absurd hmagic (by decide)
  info q hq := Function.update_of_ne hq ..
  words q hq := Function.update_of_ne hq ..

theorem ObjectHeap.info_create_same {p szFix : UInt64} {wr user : Bool} {n : Nat} :
    ((h.create p szFix wr user).zeroWords p n).info p =
      { (h.info p).created szFix p wr user with fPadding := ⟨List.replicate 16 0, rfl⟩ } := by
  simp only [create, zeroWords, Function.update_self]

theorem ObjectHeap.info_create_ne {p q szFix : UInt64} {wr user : Bool} {n : Nat} (hq : q ≠ p) :
    ((h.create p szFix wr user).zeroWords p n).info q = h.info q := by
  simp only [create, zeroWords, ne_eq, hq, not_false_eq_true, Function.update_of_ne]

theorem HeapSim.fresh_apart {k : Kernel} {blocks : List Block} {top : Nat} (hs : HeapSim limit s h)
    (hpool : PoolInv limit ⟨k, b.claim :: s.live.map HeapBlock.claim⟩ blocks top) (hfits : b.Fits) {c : HeapBlock}
    (hc : c ∈ s.live) :
    b.base.toNat + (b.sz.toNat + 53) ≤ c.base.toNat ∨ c.base.toNat + (c.sz.toNat + 53) ≤ b.base.toNat := by
  have hdisj := (List.pairwise_cons.mp hpool.apart).1 c.claim (List.mem_map.mpr ⟨c, hc, rfl⟩)
  have hsize := hfits.size_toNat
  have hsize' := (hs.fits c hc).size_toNat
  have hiff := (Span.disjoint_iff (by simp only [liveSpan, HeapBlock.claim]; omega)
    (by simp only [liveSpan, HeapBlock.claim]; omega)).mp hdisj
  simp only [liveSpan, HeapBlock.claim] at hiff
  omega

theorem fits_of_pool {k : Kernel} {live : List (UInt64 × UInt64)} {blocks : List Block} {top : Nat}
    {sz base : UInt64} (hpool : PoolInv limit ⟨k, (base, sz + hibSize) :: live⟩ blocks top) (hbig : 101 ≤ sz.toNat)
    (hmax : sz < kKernelHeapMaxSize) : HeapBlock.Fits ⟨sz, base, base + hibSize + hibSize⟩ := by
  have hsmall : sz.toNat < 2 ^ 31 := UInt64.lt_iff_toNat_lt.mp hmax
  have hsize : (sz + hibSize).toNat = sz.toNat + 53 := by
    rw [UInt64.toNat_add, show hibSize.toNat = 53 from rfl, Nat.mod_eq_of_lt (by omega)]
  have hbound := hpool.chain.bounds (hpool.block_of_live List.mem_cons_self)
  have htop := hpool.chain.top_le
  have hlimit := hpool.limit_le
  have hpos := hpool.base_pos
  simp only [hsize] at hbound
  exact ⟨rfl, hbig, hsmall, by simp only at hpos ⊢; omega, by simp only; omega⟩

theorem HeapInformationBlock.created_dead (info : HeapInformationBlock) (szFix heapPtr : UInt64) (wr user : Bool) :
    HeapInformationBlock.created szFix heapPtr wr user { info with fMagic := 0 } =
      info.created szFix heapPtr wr user := rfl

section NewBlock

variable {wr user : Bool} {mem : Store}

theorem HeapBlock.Fits.newHeapMem_pool {live : List HeapBlock} {k : Kernel} (hb : b.Fits) (hmem : b ∈ live)
    (hpool : ∃ blocks top, PoolInv limit ⟨k, live.map HeapBlock.claim⟩ blocks top) :
    ∃ blocks top, PoolInv limit
      ⟨{ k with mem := newHeapMem wr user b.sz b.base k.mem }, live.map HeapBlock.claim⟩ blocks top := by
  have hw₁ := hb.setHeapInfo k.mem
    ((heapInfo k.mem (b.base + hibSize)).created (b.sz + hibSize) (b.base + hibSize + hibSize) wr user)
  have hw₂ := hb.clearPadding (OpenNE.setHeapInfo k.mem (b.ptr - hibSize)
    ((heapInfo k.mem (b.base + hibSize)).created (b.sz + hibSize) (b.base + hibSize + hibSize) wr user))
  have hpool₂ := hw₂.pool (k := { k with mem := _ }) hb hmem (hw₁.pool hb hmem hpool)
  rw [hb.info_eq] at hpool₂
  exact hpool₂

theorem HeapBlock.Fits.new_info (hb : b.Fits) :
    (((h.dirtied b.ptr mem).create b.ptr (b.sz + hibSize) wr user).zeroWords b.ptr 6).info b.ptr =
      heapInfo (newHeapMem wr user b.sz b.base mem) (b.ptr - hibSize) := by
  have hstale : (h.dirtied b.ptr mem).info b.ptr = { heapInfo mem (b.base + hibSize) with fMagic := 0 } := by
    rw [← hb.info_eq]
    simp only [ObjectHeap.dirtied, Function.update_self]
  rw [ObjectHeap.info_create_same, hstale, HeapInformationBlock.created_dead, hb.info_eq, newHeapMem,
    heapInfo_clearPadding_eq, heapInfo_setHeapInfo, ← hb.ptr]

theorem HeapBlock.Fits.new_words (hb : b.Fits) (i : Nat) :
    (((h.dirtied b.ptr mem).create b.ptr (b.sz + hibSize) wr user).zeroWords b.ptr 6).words b.ptr i =
      bitSet (newHeapMem wr user b.sz b.base mem) b.ptr i := by
  have haddr := hb.ptr_toNat
  have hinfo := hb.info_toNat
  by_cases hlt : i < 6
  · rw [ObjectHeap.words_zeroWords_same hlt]
    refine (bitSet_zeroed fun a ha hlt => newHeapMem_payload ?_ ?_).symm
    · omega
    · omega
  · have hword : (((h.dirtied b.ptr mem).create b.ptr (b.sz + hibSize) wr user).zeroWords b.ptr 6).words b.ptr i =
        bitSet mem b.ptr i := by
      simp [ObjectHeap.zeroWords, ObjectHeap.create, ObjectHeap.dirtied, hlt]
    rw [hword]
    refine bitSet_congr fun a ha _ => (newHeapMem_outside (.inr ?_)).symm
    omega

theorem HeapBlock.Fits.placed (hb : b.Fits) (debug : Bool) (hdead : ¬h.Live b.ptr) :
    ObjectStep debug h (.new b.sz wr user b.ptr)
      (((h.dirtied b.ptr mem).create b.ptr (b.sz + hibSize) wr user).zeroWords b.ptr 6) := by
  have hsz : b.sz ≠ 0 := by
    intro hzero
    have hbig := hb.big
    rw [hzero] at hbig
    simp at hbig
  have hmax : b.sz < kKernelHeapMaxSize := UInt64.lt_iff_toNat_lt.mpr hb.small
  have hdirty : h.Dirty b.ptr (h.dirtied b.ptr mem) := ObjectHeap.dirtied_dirty hdead
  refine .new (ObjectHeap.placing b.ptr hb.ptr_ne hb.info_ne) hdirty ?_
  rw [ObjectHeap.mmNewHeap, if_neg hsz]
  simp only [mustPass, hmax, decide_true, Bool.not_true, Bool.and_false, Bool.false_eq_true, if_false,
    Exec.ok_bind, ObjectHeap.placing, hdirty.dead.2, Exec.pure_eq_ok]

end NewBlock

theorem HeapSim.placed {wr user : Bool} {k : Kernel} {blocks : List Block} {top : Nat} (hs : HeapSim limit s h)
    (hb : b.Fits) (hpool : PoolInv limit ⟨k, b.claim :: s.live.map HeapBlock.claim⟩ blocks top)
    (hframe : ∀ a, s.kernel.poolBase ≤ a → a < limit →
      a < b.base.toNat ∨ b.base.toNat + bitMapHeaderSize ≤ a → k.mem a = s.kernel.mem a) :
    ¬h.Live b.ptr ∧ HeapSim limit ⟨{ k with mem := newHeapMem wr user b.sz b.base k.mem }, b :: s.live⟩
      (((h.dirtied b.ptr k.mem).create b.ptr (b.sz + hibSize) wr user).zeroWords b.ptr 6) := by
  have hne : ∀ c ∈ s.live, c.ptr ≠ b.ptr := by
    intro c hc heq
    have hc' := (hs.fits c hc).ptr_toNat
    have hb' := hb.ptr_toNat
    have := hs.fresh_apart hpool hb hc
    rw [heq] at hc'
    omega
  have hdead : ¬h.Live b.ptr := by
    rw [hs.live]
    rintro ⟨c, hc, heq⟩
    exact hne c hc heq
  have hdirty : h.Dirty b.ptr (h.dirtied b.ptr k.mem) := ObjectHeap.dirtied_dirty hdead
  have hkept : ∀ c ∈ s.live, h.info c.ptr = heapInfo (newHeapMem wr user b.sz b.base k.mem) (c.ptr - hibSize) ∧
      ∀ i, c.Usable i → h.words c.ptr i = bitSet (newHeapMem wr user b.sz b.base k.mem) c.ptr i := by
    intro c hc
    apply hs.kept hc
    intro a ha hlt
    have hc' := hs.fresh_apart hpool hb hc
    have hinfo := hb.info_toNat
    have hbig := hb.big
    have hpool' := hs.inside hc
    rw [newHeapMem_outside (by omega),
      hframe a (by omega) (by omega) (by simp only [bitMapHeaderSize]; omega)]
  refine ⟨hdead, hb.newHeapMem_pool List.mem_cons_self ⟨blocks, top, hpool⟩, ?_, ?_, ?_, ?_⟩
  · intro c hc
    rcases List.mem_cons.mp hc with rfl | hc
    · exact hb
    · exact hs.fits c hc
  · intro q
    rw [ObjectHeap.live_zeroWords, ObjectHeap.live_create hb.ptr_ne hb.info_ne]
    by_cases hq : q = b.ptr
    · exact iff_of_true (.inl hq) ⟨b, List.mem_cons_self, hq.symm⟩
    · have hsame : (h.dirtied b.ptr k.mem).Live q ↔ h.Live q := by
        simp only [ObjectHeap.Live, hdirty.info q hq]
      rw [hsame, hs.live q]
      simp [hq, Ne.symm hq]
  · intro c hc
    rcases List.mem_cons.mp hc with rfl | hc
    · exact hb.new_info
    · rw [ObjectHeap.info_create_ne (hne c hc), hdirty.info _ (hne c hc)]
      exact (hkept c hc).1
  · intro c hc i hi
    rcases List.mem_cons.mp hc with rfl | hc
    · exact hb.new_words i
    · rw [ObjectHeap.words_zeroWords_ne (hne c hc)]
      show (h.dirtied b.ptr k.mem).words c.ptr i = _
      rw [hdirty.words _ (hne c hc)]
      exact (hkept c hc).2 i hi

theorem HeapSim.new {debug wr user : Bool} {fuel : Nat} {sz p : UInt64} {k : Kernel} (hs : HeapSim limit s h)
    (hcall : mmNewHeap debug fuel sz wr user s.kernel = .ok (p, k)) (hbig : 101 ≤ sz.toNat)
    (hmax : sz < kKernelHeapMaxSize) (hroom : Room s.kernel limit (sz + hibSize)) :
    ∃ h', ObjectStep debug h (.new sz wr user p) h' ∧
      HeapSim limit ⟨k, ⟨sz, p - hibSize - hibSize, p⟩ :: s.live⟩ h' := by
  have hsmall : sz.toNat < 2 ^ 31 := UInt64.lt_iff_toNat_lt.mp hmax
  have hsz : sz ≠ 0 := by
    rintro rfl
    simp at hbig
  have hsize : bitMapHeaderSize ≤ (sz + hibSize).toNat := by
    rw [UInt64.toNat_add, show hibSize.toNat = 53 from rfl, Nat.mod_eq_of_lt (by omega), bitMapHeaderSize]
    omega
  obtain ⟨base, k₁, halloc, rfl, rfl⟩ := mmNewHeap_block hsz hmax hcall
  obtain ⟨blocks, top, hpool⟩ := hs.pool
  obtain ⟨⟨blocks₁, top₁, hpool₁⟩, hframe⟩ := hpool.alloc hsize halloc hroom
  have hfits := fits_of_pool hpool₁ hbig hmax
  obtain ⟨hdead, hs'⟩ := hs.placed hfits hpool₁ hframe
  rw [UInt64.add_sub_cancel, UInt64.add_sub_cancel]
  exact ⟨_, hfits.placed debug hdead, hs'⟩

/-- Every careful step on the bytes is one on the objects, with the same answer. -/
theorem HeapSim.step {debug : Bool} {op : ObjectOp} {s' : HeapState} (hs : HeapSim limit s h)
    (hstep : ByteStep debug s op s') (hcareful : Careful limit s op) :
    ∃ h', ObjectStep debug h op h' ∧ HeapSim limit s' h' := by
  cases hstep with
  | new fuel hcall => exact hs.new hcall hcareful.1 hcareful.2.1 hcareful.2.2
  | delete hlive =>
    obtain ⟨hcode, hs'⟩ := hs.delete hlive
    rw [hcode]
    exact ⟨_, .delete (hs.isLive hlive), hs'⟩
  | makePage hlive =>
    obtain ⟨hcode, hs'⟩ := hs.mark keepsLive_asPage hlive
    rw [mmMakePage, hcode]
    exact ⟨_, .makePage (hs.isLive hlive), hs'⟩
  | makeFlags flags hlive =>
    obtain ⟨hcode, hs'⟩ := hs.mark (keepsLive_withFlags flags) hlive
    rw [mmMakeFlags, hcode]
    exact ⟨_, .makeFlags flags (hs.isLive hlive), hs'⟩
  | @getFlags b hlive =>
    have hflags : mmGetFlags b.ptr s.kernel = h.mmGetFlags b.ptr := by
      rw [ObjectHeap.mmGetFlags, hs.info b hlive]
      rfl
    rw [hflags]
    exact ⟨h, .getFlags (hs.isLive hlive), hs⟩
  | @setWord b i v hlive =>
    exact ⟨_, .setWord i v (hs.isLive hlive), hs.setWord hlive (hcareful b hlive rfl) v⟩
  | @getWord b i hlive =>
    rw [← hs.words b hlive i (hcareful b hlive rfl)]
    exact ⟨h, .getWord i (hs.isLive hlive), hs⟩

end Steps

theorem HeapSim.start {limit : Nat} {k : Kernel} {h : ObjectHeap} (hpool : ZeroedPool limit ⟨k, []⟩)
    (hempty : ∀ p, ¬h.Live p) : HeapSim limit ⟨k, []⟩ h :=
  ⟨⟨_, _, hpool.inv⟩, by simp, fun p => iff_of_false (hempty p) (by simp), by simp, by simp⟩

/-- From a zeroed pool, every run of careful calls on the bytes is a run of the object heap with the same answers,
and leaves the same objects live, with the same information blocks and usable words. -/
theorem heap_refines_objects {debug : Bool} {limit : Nat} {k : Kernel} {h : ObjectHeap} {ops : List ObjectOp}
    {s' : HeapState} (hpool : ZeroedPool limit ⟨k, []⟩) (hempty : ∀ p, ¬h.Live p)
    (hrun : Run (Guarded (ByteStep debug) (Careful limit)) ⟨k, []⟩ ops s') :
    ∃ h', Run (ObjectStep debug) h ops h' ∧ HeapSim limit s' h' :=
  hrun.simulate (HeapSim limit) (fun _ _ _ _ hs hstep => hs.step hstep.1 hstep.2) (.start hpool hempty)

/-- An object of 128 bytes made, one word of it assigned and read back. -/
theorem heap_refines_objects_word : ∃ s' h', Run (Guarded (ByteStep true) (Careful (2 ^ 32))) ⟨zeroPool.kernel, []⟩
      [.new 128 true false 0x1000106A, .setWord 0x1000106A 8 7, .getWord 0x1000106A 8 7] s' ∧
    Run (ObjectStep true) emptyHeap
      [.new 128 true false 0x1000106A, .setWord 0x1000106A 8 7, .getWord 0x1000106A 8 7] h' ∧
    HeapSim (2 ^ 32) s' h' := by
  obtain ⟨b, hb⟩ : ∃ b : HeapBlock, b = ⟨128, 0x1000106A - hibSize - hibSize, 0x1000106A⟩ := ⟨_, rfl⟩
  have hptr : b.ptr = 0x1000106A := by rw [hb]
  obtain ⟨k₂, hk₂⟩ : ∃ k₂ : Kernel, k₂ = { newHeapKernel with mem := setBitSet newHeapKernel.mem b.ptr 8 7 } := ⟨_, rfl⟩
  have hchain : IsChain zeroPool.kernel.mem zeroPool.kernel.poolBase (2 ^ 32) [] 0x10001000 := .nil (by decide)
  have hroom : Room zeroPool.kernel (2 ^ 32) (128 + hibSize) :=
    .fresh [] _ hchain (by simp) (by decide) (by decide) (by decide)
  have hmem : b ∈ [b] := List.mem_singleton_self b
  have husable : ∀ c ∈ [b], c.ptr = b.ptr → c.Usable 8 := by
    intro c hc _
    obtain rfl := List.mem_singleton.mp hc
    rw [hb]
    decide
  have h₁ : ByteStep true ⟨zeroPool.kernel, []⟩ (.new 128 true false b.ptr) ⟨newHeapKernel, [b]⟩ := by
    rw [hb]
    exact .new 1 newHeapKernel_new
  have h₂ : ByteStep true ⟨newHeapKernel, [b]⟩ (.setWord b.ptr 8 7) ⟨k₂, [b]⟩ := hk₂ ▸ .setWord 8 7 hmem
  have h₃ : ByteStep true ⟨k₂, [b]⟩ (.getWord b.ptr 8 7) ⟨k₂, [b]⟩ := by
    have hread : bitSet k₂.mem b.ptr 8 = 7 := by rw [hk₂]; exact bitSet_setBitSet_same ..
    have hget : ByteStep true ⟨k₂, [b]⟩ (.getWord b.ptr 8 (bitSet k₂.mem b.ptr 8)) ⟨k₂, [b]⟩ := .getWord 8 hmem
    rwa [hread] at hget
  have hrun : Run (Guarded (ByteStep true) (Careful (2 ^ 32))) ⟨zeroPool.kernel, []⟩
      ([] ++ [.new 128 true false b.ptr] ++ [.setWord b.ptr 8 7] ++ [.getWord b.ptr 8 7]) ⟨k₂, [b]⟩ :=
    (((Run.nil _).snoc ⟨h₁, by decide, by decide, hroom⟩).snoc ⟨h₂, husable⟩).snoc ⟨h₃, husable⟩
  rw [hptr] at hrun
  have hempty : ∀ p, ¬emptyHeap.Live p := by
    rintro p ⟨-, -, hmagic, -⟩
    have hzero : (emptyHeap.info p).fMagic = 0 := rfl
    rw [hzero] at hmagic
    exact absurd hmagic (by decide)
  obtain ⟨h', hobjects, hsim⟩ := heap_refines_objects zeroPool_zeroed hempty hrun
  exact ⟨_, h', hrun, hobjects, hsim⟩

end OpenNE

import OpenNE.Base.Walk
import OpenNE.Memory.PoolRun

/-!
# The bounds of the pool

`FindBitMap` is given where the pool starts and nothing about where it ends: `kKernelBitMpSize` is set and never
read. Whether a call stays inside is decided by the headers it meets and by the request
(`poolRespected_iff_leadsInside`); in a pool that is a chain of blocks, by the first block the request takes or by
what is left behind the last (`PoolInv.poolRespected_iff`).
-/

namespace OpenNE

open StateTransition Relation

/-! ### What a search touches -/

/-- A word of the header at `ptr`. -/
def headerWord (ptr : UInt64) (idx : Nat) : Span := ⟨ptr.toNat + 8 * idx, 8⟩

/-- The words that the round at `base` reads or writes: all three of a header it may take or formats, and two of
one that is larger than the request. -/
def wordsTouched (size : UInt64) (mem : Store) (base : UInt64) : List Span :=
  if bitSet mem base kBitMapMagIdx = kBitMapMagic ∧ ¬ bitSet mem base kBitMapSizeIdx ≤ size then
    [headerWord base kBitMapMagIdx, headerWord base kBitMapSizeIdx]
  else
    [headerWord base kBitMapMagIdx, headerWord base kBitMapSizeIdx, headerWord base kBitMapUsedIdx]

/-- The places where a call looks for a header. -/
def placesSearched (fuel : Nat) (size : UInt64) (wr user : Bool) (k : Kernel) : List UInt64 :=
  if size = 0 then []
  else loopStates (findBitMapRound size wr user k) fuel (k.kKernelBitMpStart + kPageSize)

/-- The range lies in the pool that ends at `limit`. -/
def InPool (k : Kernel) (limit : Nat) (s : Span) : Prop := k.poolBase ≤ s.start ∧ s.start + s.len ≤ limit

/-- The call returns nothing or a block of the pool, and touches only words of the pool. -/
def PoolRespected (limit : Nat) (k : Kernel) (wr user : Bool) (size : UInt64) : Prop :=
  ∃ fuel r, findBitMap fuel k.kKernelBitMpStart size wr user k = .ok r ∧
    (r.1 = 0 ∨ InPool k limit (liveSpan (r.1, size))) ∧
    ∀ base ∈ placesSearched fuel size wr user k, ∀ w ∈ wordsTouched size k.mem base, InPool k limit w

/-! ### The search as a walk -/

/-- The place behind the header at `base`, when a request of `size` bytes does not take that header. -/
def nextHeader (size : UInt64) (mem : Store) (base : UInt64) : Option UInt64 :=
  if bitSet mem base kBitMapMagIdx = kBitMapMagic ∧
      ¬ (bitSet mem base kBitMapSizeIdx ≤ size ∧ bitSet mem base kBitMapUsedIdx = 0) then
    some (base + bitSet mem base kBitMapSizeIdx)
  else none

/-- The headers that the stored sizes link, from the start of the pool on, do not go round in a circle and stand
in the pool, and from the first one the request takes there is room for it. -/
structure LeadsInside (limit : Nat) (k : Kernel) (size : UInt64) : Prop where
  ends : ¬ Circular (nextHeader size k.mem) (k.kKernelBitMpStart + kPageSize)
  inside : ∀ p, Reaches (nextHeader size k.mem) (k.kKernelBitMpStart + kPageSize) p →
    ∀ w ∈ wordsTouched size k.mem p, InPool k limit w
  fits : ∀ p, Reaches (nextHeader size k.mem) (k.kKernelBitMpStart + kPageSize) p →
    nextHeader size k.mem p = none → p.toNat + size.toNat ≤ limit

theorem headerWord_mem (size : UInt64) (mem : Store) (p : UInt64) :
    headerWord p kBitMapMagIdx ∈ wordsTouched size mem p := by
  unfold wordsTouched
  split <;> exact List.mem_cons_self

section Search

variable {limit : Nat} {k : Kernel} {wr user : Bool} {size : UInt64}

theorem findBitMapRound_next {base p : UInt64} (h : nextHeader size k.mem base = some p) :
    findBitMapRound size wr user k base = .ok (.inl p) := by
  rw [nextHeader] at h
  split at h
  · rename_i hpass
    obtain ⟨hmagic, hns⟩ := hpass
    obtain rfl := Option.some.inj h
    unfold findBitMapRound
    rw [hmagic]
    by_cases hle : bitSet k.mem base kBitMapSizeIdx ≤ size
    · rw [if_pos ⟨rfl, hle⟩, if_neg (fun hfree => hns ⟨hle, hfree⟩)]
      simp
    · rw [if_neg (fun hand => hle hand.2)]
      simp
  · cases h

theorem findBitMapRound_end (wr user : Bool) {base : UInt64} (h : nextHeader size k.mem base = none) :
    ∃ k', findBitMapRound size wr user k base = .ok (.inr (base, k')) ∧ k'.poolBase = k.poolBase := by
  rw [nextHeader] at h
  split at h
  · cases h
  · rename_i hstop
    by_cases hmagic : bitSet k.mem base kBitMapMagIdx = kBitMapMagic
    · obtain ⟨hle, hfree⟩ := not_not.mp fun hns => hstop ⟨hmagic, hns⟩
      unfold findBitMapRound
      rw [if_pos ⟨hmagic, hle⟩, if_pos hfree]
      exact ⟨_, rfl, rfl⟩
    · exact ⟨_, findBitMapRound_format hmagic, rfl⟩

theorem follows_nextHeader (wr user : Bool) :
    Follows (findBitMapRound size wr user k) id (nextHeader size k.mem) := by
  intro base
  rcases hnext : nextHeader size k.mem base with _ | p
  · obtain ⟨k', hround, -⟩ := findBitMapRound_end wr user hnext
    exact .inr ⟨.inl ⟨_, hround⟩, hnext⟩
  · exact .inl ⟨p, findBitMapRound_next hnext, hnext⟩

theorem findBitMap_returns_iff (hne : size ≠ 0) {r : UInt64 × Kernel} :
    (∃ fuel, findBitMap fuel k.kKernelBitMpStart size wr user k = .ok r) ↔
      ∃ p, p ∈ eval (nextHeader size k.mem) (k.kKernelBitMpStart + kPageSize) ∧
        findBitMapRound size wr user k p = .ok (.inr r) := by
  simp only [findBitMap, hne, if_false]
  exact (follows_nextHeader wr user).eq_ok_iff

theorem placesSearched_iff (hne : size ≠ 0) {fuel : Nat} {r : UInt64 × Kernel}
    (h : findBitMap fuel k.kKernelBitMpStart size wr user k = .ok r) {p : UInt64} :
    p ∈ placesSearched fuel size wr user k ↔
      Reaches (nextHeader size k.mem) (k.kKernelBitMpStart + kPageSize) p := by
  rw [findBitMap, if_neg hne] at h
  rw [placesSearched, if_neg hne]
  apply (follows_nextHeader wr user).mem_loopStates_iff
  rw [h]
  exact fun hend => by cases hend

theorem poolRespected_iff_leadsInside (hpos : 0 < k.poolBase) :
    PoolRespected limit k wr user size ↔ size = 0 ∨ LeadsInside limit k size := by
  by_cases hne : size = 0
  · refine iff_of_true ⟨0, (0, k), ?_, .inl rfl, ?_⟩ (.inl hne)
    · rw [findBitMap, if_pos hne]
    · intro base hbase
      rw [placesSearched, if_pos hne] at hbase
      cases hbase
  rw [or_iff_right hne]
  constructor
  · rintro ⟨fuel, r, hret, hblock, htouched⟩
    obtain ⟨p, hp, hround⟩ := (findBitMap_returns_iff hne).mp ⟨fuel, hret⟩
    have hinside : ∀ q, Reaches (nextHeader size k.mem) (k.kKernelBitMpStart + kPageSize) q →
        ∀ w ∈ wordsTouched size k.mem q, InPool k limit w :=
      fun q hq => htouched q ((placesSearched_iff hne hret).mpr hq)
    refine ⟨not_circular_of_mem_eval hp, hinside, ?_⟩
    intro q hq hend
    obtain rfl : p = q := Part.mem_unique hp (mem_eval.mpr ⟨hq, hend⟩)
    obtain ⟨k', hround', -⟩ := findBitMapRound_end wr user hend
    obtain rfl := Sum.inr.inj (Except.ok.inj (hround.symm.trans hround'))
    rcases hblock with hnull | hblock
    · -- the place at address 0 is not in the pool
      have hfirst := (hinside p hq (headerWord p kBitMapMagIdx) (headerWord_mem _ _ _)).1
      dsimp only at hnull
      rw [hnull] at hfirst
      exact absurd hpos (Nat.not_lt.mpr hfirst)
    · exact hblock.2
  · intro hlead
    obtain ⟨p, hp⟩ := exists_mem_eval hlead.ends
    obtain ⟨hreach, hend⟩ := mem_eval.mp hp
    obtain ⟨k', hround, -⟩ := findBitMapRound_end wr user hend
    obtain ⟨fuel, hret⟩ := (findBitMap_returns_iff hne).mpr ⟨p, hp, hround⟩
    refine ⟨fuel, (p, k'), hret, .inr ⟨?_, hlead.fits p hreach hend⟩, ?_⟩
    · exact (hlead.inside p hreach _ (headerWord_mem _ _ _)).1
    · intro base hbase
      exact hlead.inside base ((placesSearched_iff hne hret).mp hbase)

end Search

/-! ### Pools that are chains of blocks -/

/-- Where a request is served: at the first block it takes, or behind the last block. -/
def placeTaken (size : UInt64) (blocks : List Block) (top : Nat) : Nat :=
  match blocks.find? (Suitable size) with
  | some b => b.addr.toNat
  | none => top

/-- The request, and a header, fit there. -/
def FitsIn (limit : Nat) (blocks : List Block) (top : Nat) (size : UInt64) : Prop :=
  placeTaken size blocks top + max bitMapHeaderSize size.toNat ≤ limit

instance (limit : Nat) (blocks : List Block) (top : Nat) (size : UInt64) : Decidable (FitsIn limit blocks top size) :=
  inferInstanceAs (Decidable (_ ≤ _))

section Chain

variable {limit top : Nat} {k : Kernel} {blocks : List Block} {size : UInt64}

theorem nextHeader_skip {b : Block} (hb : HeaderAt k.mem b) (hns : ¬ Suitable size b) :
    nextHeader size k.mem b.addr = some (b.addr + b.size) := by
  obtain ⟨hmagic, hsize, hused⟩ := hb
  rw [nextHeader, hmagic, hsize, if_pos]
  refine ⟨rfl, ?_⟩
  rintro ⟨hle, hfree⟩
  apply hns
  refine ⟨hle, ?_⟩
  rw [← Bool.not_eq_true, ← hused]
  exact not_not.mpr hfree

theorem nextHeader_take {b : Block} (hb : HeaderAt k.mem b) (hs : Suitable size b) :
    nextHeader size k.mem b.addr = none := by
  obtain ⟨hmagic, hsize, hused⟩ := hb
  have hfree : bitSet k.mem b.addr kBitMapUsedIdx = 0 := by
    by_contra hne
    rw [hs.2] at hused
    exact absurd (hused.mp hne) (by decide)
  rw [nextHeader, hsize, if_neg]
  exact fun hand => hand.2 ⟨hs.1, hfree⟩

theorem reaches_skip {pre : List Block} {a e : Nat} (htiles : Tiles a (pre.map Block.span) e)
    (hheaders : ∀ b ∈ pre, HeaderAt k.mem b) (hskip : ∀ b ∈ pre, ¬ Suitable size b) :
    Reaches (nextHeader size k.mem) (UInt64.ofNat a) (UInt64.ofNat e) ∧
      ∀ p, Reaches (nextHeader size k.mem) (UInt64.ofNat a) p →
        (∃ b ∈ pre, p = b.addr) ∨ Reaches (nextHeader size k.mem) (UInt64.ofNat e) p := by
  induction pre generalizing a with
  | nil =>
    obtain rfl : a = e := htiles
    exact ⟨.refl, fun p hp => .inr hp⟩
  | cons b rest ih =>
    have haddr : b.addr = UInt64.ofNat a := by
      rw [← show b.addr.toNat = a from htiles.1, UInt64.ofNat_toNat]
    have hnext := nextHeader_skip (hheaders b (by simp)) (hskip b (by simp))
    have hbehind : b.addr + b.size = UInt64.ofNat (a + b.size.toNat) := by
      rw [UInt64.ofNat_add, UInt64.ofNat_toNat, haddr]
    rw [hbehind, haddr] at hnext
    obtain ⟨hreach, hall⟩ := ih htiles.2 (fun c hc => hheaders c (by simp [hc])) fun c hc => hskip c (by simp [hc])
    refine ⟨.head hnext hreach, ?_⟩
    intro p hp
    rcases ReflTransGen.cases_head hp with rfl | ⟨c, hc, hrest⟩
    · exact .inl ⟨b, by simp, haddr.symm⟩
    · obtain rfl := Option.mem_unique hnext hc
      rcases hall p hrest with ⟨c, hc, hp⟩ | hp
      · exact .inl ⟨c, by simp [hc], hp⟩
      · exact .inr hp

theorem wordsTouched_inPool {p : UInt64} (hbase : k.poolBase ≤ p.toNat)
    (hlimit : p.toNat + bitMapHeaderSize ≤ limit) : ∀ w ∈ wordsTouched size k.mem p, InPool k limit w := by
  have hword : ∀ idx < 3, InPool k limit (headerWord p idx) := by
    intro idx hidx
    simp only [bitMapHeaderSize] at hlimit
    simp only [InPool, headerWord]
    omega
  intro w hw
  unfold wordsTouched at hw
  split at hw
  · simp only [List.mem_cons, List.not_mem_nil, or_false] at hw
    rcases hw with rfl | rfl
    · exact hword _ (by decide)
    · exact hword _ (by decide)
  · simp only [List.mem_cons, List.not_mem_nil, or_false] at hw
    rcases hw with rfl | rfl | rfl
    · exact hword _ (by decide)
    · exact hword _ (by decide)
    · exact hword _ (by decide)

theorem used_mem_wordsTouched {p : UInt64} (hend : nextHeader size k.mem p = none) :
    headerWord p kBitMapUsedIdx ∈ wordsTouched size k.mem p := by
  unfold wordsTouched
  split
  · rename_i hlarger
    rw [nextHeader, if_pos ⟨hlarger.1, fun hand => hlarger.2 hand.1⟩] at hend
    cases hend
  · simp

theorem leadsInside_iff_end {pre : List Block} {e : UInt64}
    (htiles : Tiles k.poolBase (pre.map Block.span) e.toNat) (hheaders : ∀ b ∈ pre, HeaderAt k.mem b)
    (hskip : ∀ b ∈ pre, ¬ Suitable size b) (hroom : ∀ b ∈ pre, b.addr.toNat + bitMapHeaderSize ≤ limit)
    (hend : nextHeader size k.mem e = none) :
    LeadsInside limit k size ↔ e.toNat + max bitMapHeaderSize size.toNat ≤ limit := by
  have hstart : k.kKernelBitMpStart + kPageSize = UInt64.ofNat k.poolBase := UInt64.ofNat_toNat.symm
  obtain ⟨hreach, hall⟩ := reaches_skip htiles hheaders hskip
  rw [UInt64.ofNat_toNat] at hreach hall
  rw [← hstart] at hreach hall
  constructor
  · intro hlead
    have hused := (hlead.inside e hreach _ (used_mem_wordsTouched hend)).2
    have hfits := hlead.fits e hreach hend
    simp only [headerWord, kBitMapUsedIdx] at hused
    simp only [bitMapHeaderSize]
    omega
  · intro hlimit
    have hlast : ∀ p, Reaches (nextHeader size k.mem) e p → p = e := by
      intro p hp
      rcases ReflTransGen.cases_head hp with rfl | ⟨c, hc, -⟩
      · rfl
      · rw [hend] at hc
        cases hc
    refine ⟨not_circular_of_mem_eval (mem_eval.mpr ⟨hreach, hend⟩), ?_, ?_⟩
    · intro p hp
      rcases hall p hp with ⟨b, hb, rfl⟩ | hp
      · exact wordsTouched_inPool (htiles.bounds (List.mem_map_of_mem hb)).1 (hroom b hb)
      · obtain rfl := hlast p hp
        exact wordsTouched_inPool htiles.le_end (by omega)
    · intro p hp hnone
      rcases hall p hp with ⟨b, hb, rfl⟩ | hp
      · rw [nextHeader_skip (hheaders b hb) (hskip b hb)] at hnone
        cases hnone
      · obtain rfl := hlast p hp
        omega

end Chain

theorem PoolInv.header_room {limit top : Nat} {s : PoolState} {blocks : List Block} (h : PoolInv limit s blocks top)
    {b : Block} (hb : b ∈ blocks) : b.addr.toNat + bitMapHeaderSize ≤ limit := by
  have hbound := (h.chain.bounds hb).2
  have hsize := h.chain.sizes b hb
  have htop := h.chain.top_le
  omega

theorem PoolInv.leadsInside_iff_behind {limit top : Nat} {s : PoolState} {blocks : List Block}
    (h : PoolInv limit s blocks top) {size : UInt64} (hskip : ∀ b ∈ blocks, ¬ Suitable size b) :
    LeadsInside limit s.kernel size ↔ top + max bitMapHeaderSize size.toNat ≤ limit := by
  have hlimit := h.limit_le
  have htop := h.chain.top_le
  -- the place behind the last block, as long as a word there is in the pool
  have hdecide : top + 8 ≤ limit → (LeadsInside limit s.kernel size ↔
      top + max bitMapHeaderSize size.toNat ≤ limit) := by
    intro hword
    have htop : (UInt64.ofNat top).toNat = top := UInt64.toNat_ofNat_of_lt' (show top < 2 ^ 64 by omega)
    have hzero : bitSet s.kernel.mem (UInt64.ofNat top) kBitMapMagIdx = 0 := by
      apply bitSet_zeroed
      rw [htop]
      intro a ha hlt
      exact h.zeroed a (by omega) (by simp only [kBitMapMagIdx] at hlt; omega)
    have hend : nextHeader size s.kernel.mem (UInt64.ofNat top) = none := by
      rw [nextHeader, hzero, if_neg]
      exact fun hand => absurd hand.1 (by decide)
    have htiles := h.chain.tiles
    rw [← htop] at htiles
    rw [leadsInside_iff_end htiles h.chain.headers hskip (fun b hb => h.header_room hb) hend, htop]
  constructor
  · intro hlead
    refine (hdecide ?_).mp hlead
    have hstart : s.kernel.kKernelBitMpStart + kPageSize = UInt64.ofNat s.kernel.poolBase := UInt64.ofNat_toNat.symm
    have hreach := (reaches_skip h.chain.tiles h.chain.headers hskip).1
    rw [← hstart] at hreach
    obtain ⟨hlow, hhigh⟩ := hlead.inside _ hreach _ (headerWord_mem _ _ _)
    simp only [headerWord, kBitMapMagIdx, UInt64.toNat_ofNat'] at hlow hhigh
    have hpos := h.base_pos
    omega
  · intro hfits
    refine (hdecide ?_).mpr hfits
    simp only [bitMapHeaderSize] at hfits
    omega

theorem PoolInv.poolRespected_iff {limit top : Nat} {s : PoolState} {blocks : List Block}
    (h : PoolInv limit s blocks top) (wr user : Bool) (size : UInt64) :
    PoolRespected limit s.kernel wr user size ↔ size = 0 ∨ FitsIn limit blocks top size := by
  rw [poolRespected_iff_leadsInside h.base_pos]
  apply or_congr_right
  unfold FitsIn placeTaken
  split
  · rename_i b hfind
    obtain ⟨hs, pre, post, rfl, hskip⟩ := List.find?_eq_some_iff_append.mp hfind
    obtain ⟨m, hpre, hrest⟩ := Tiles.append.mp (List.map_append ▸ h.chain.tiles)
    obtain rfl : b.addr.toNat = m := hrest.1
    exact leadsInside_iff_end hpre (fun c hc => h.chain.headers c (by simp [hc])) (by simpa using hskip)
      (fun c hc => h.header_room (by simp [hc])) (nextHeader_take (h.chain.headers b (by simp)) (by simpa using hs))
  · rename_i hfind
    have hskip : ∀ b ∈ blocks, ¬ Suitable size b := by simpa using List.find?_eq_none.mp hfind
    exact h.leadsInside_iff_behind hskip

/-! ### Runs -/

/-- The steps of the pool, with requests shorter than a header too. -/
inductive PoolCall (debug : Bool) : PoolState → PoolOp → PoolState → Prop
  | step {s s' : PoolState} {op : PoolOp} (h : PoolStep debug s op s') : PoolCall debug s op s'
  | short {s : PoolState} {wr user : Bool} {size ptr : UInt64} {k : Kernel} (fuel : Nat)
      (hsize : size.toNat < bitMapHeaderSize)
      (hcall : mmAllocBitmap debug fuel wr user size s.kernel = .ok (ptr, k)) :
      PoolCall debug s (.alloc wr user size) ⟨k, (ptr, size) :: s.live⟩

theorem mmAllocBitmap_poolBase {debug wr user : Bool} {fuel : Nat} {size ptr : UInt64} {k k' : Kernel}
    (h : mmAllocBitmap debug fuel wr user size k = .ok (ptr, k')) : k'.poolBase = k.poolBase := by
  obtain ⟨⟨p, k₁⟩, hfind, hrest⟩ := Exec.bind_eq_ok.mp h
  obtain ⟨-, -, hret⟩ := Exec.bind_eq_ok.mp hrest
  cases hret
  rw [findBitMap] at hfind
  split at hfind
  · cases hfind
    rfl
  · refine loop_invariant (fun _ => True) (fun r => r.2.poolBase = k.poolBase) (fun _ _ _ _ => trivial) ?_
      trivial hfind
    intro base r _ hround
    rcases hnext : nextHeader size k.mem base with _ | p
    · obtain ⟨k', hround', hbase⟩ := findBitMapRound_end wr user hnext
      obtain rfl := Sum.inr.inj (Except.ok.inj (hround.symm.trans hround'))
      exact hbase
    · have hmiss := Except.ok.inj (hround.symm.trans (findBitMapRound_next hnext))
      cases hmiss

theorem PoolCall.poolBase {debug : Bool} {s s' : PoolState} {op : PoolOp} (h : PoolCall debug s op s') :
    s'.kernel.poolBase = s.kernel.poolBase := by
  cases h with
  | short _ _ hcall => exact mmAllocBitmap_poolBase hcall
  | step hstep =>
    cases hstep with
    | alloc _ _ hcall => exact mmAllocBitmap_poolBase hcall
    | free _ _ =>
      unfold mmFreeBitmap
      split <;> rfl
    | write _ _ _ => rfl

/-- After any run, a request stays inside exactly when the headers of the pool lead so; and while the requests
before had room, exactly when it fits. -/
theorem pool_respected_iff {debug : Bool} {limit : Nat} {s : PoolState} (hs : ZeroedPool limit s) :
    (∀ ops s', Run (PoolCall debug) s ops s' → ∀ wr user size,
      PoolRespected limit s'.kernel wr user size ↔ size = 0 ∨ LeadsInside limit s'.kernel size) ∧
    ∀ ops s', Run (Guarded (PoolStep debug) (HasRoom limit)) s ops s' →
      ∃ blocks top, PoolInv limit s' blocks top ∧ ∀ wr user size,
        PoolRespected limit s'.kernel wr user size ↔ size = 0 ∨ FitsIn limit blocks top size := by
  constructor
  · intro ops s' hrun wr user size
    apply poolRespected_iff_leadsInside
    refine hrun.invariant (fun s => 0 < s.kernel.poolBase) ?_ hs.base_pos
    intro s op s' hpos hstep
    rwa [hstep.poolBase]
  · intro ops s' hrun
    obtain ⟨blocks, top, h⟩ := hrun.invariant (fun s => ∃ blocks top, PoolInv limit s blocks top)
      (fun _ _ _ ⟨_, _, h⟩ hstep => h.step hstep.1 hstep.2) ⟨[], _, hs.inv⟩
    exact ⟨blocks, top, h, h.poolRespected_iff⟩

/-- The pool after a request of 24 bytes. -/
def oneBlockPool : PoolState := zeroPool.format 0x10001000 24

theorem oneBlockPool_chain {limit : Nat} (h : 0x10001018 ≤ limit) :
    IsChain oneBlockPool.kernel.mem 0x10001000 limit [⟨0x10001000, 24, true⟩] 0x10001018 :=
  ⟨by decide, by decide, by decide, h⟩

theorem oneBlockPool_zeroed {a : Nat} (h : 0x10001018 ≤ a) : oneBlockPool.kernel.mem a = 0 :=
  formatHeader_outside (.inr h)

theorem oneBlockPool_run {limit : Nat} (h : 0x10001018 ≤ limit) :
    Run (Guarded (PoolStep true) (HasRoom limit)) zeroPool [.alloc true false 24] oneBlockPool := by
  have hchain : IsChain zeroPool.kernel.mem 0x10001000 limit [] 0x10001000 := .nil (by omega)
  have hpage : zeroPool.kernel.MapsOutside limit (UInt64.ofNat 0x10001000) := by
    have hwords : zeroPool.kernel.paging.words (UInt64.ofNat 0x10001000) = [⟨64, 8⟩] := by decide
    intro w hw
    rw [hwords] at hw
    obtain rfl := List.mem_singleton.mp hw
    exact .inl (by decide)
  apply Run.one
  constructor
  · exact PoolStep.format true true false hchain (by decide) (by decide) (by decide) (by decide) (by decide) (by decide)
  · exact .fresh [] _ hchain (by decide) (by decide) h hpage

/-- A second request, of a megabyte. -/
theorem pool_respected_iff_second : ZeroedPool (2 ^ 32) zeroPool ∧
    Run (Guarded (PoolStep true) (HasRoom (2 ^ 32))) zeroPool [.alloc true false 24] oneBlockPool ∧
    PoolRespected (2 ^ 32) oneBlockPool.kernel true false 0x100000 := by
  refine ⟨zeroPool_zeroed, oneBlockPool_run (by decide), ?_⟩
  obtain ⟨blocks, top, h, hiff⟩ := (pool_respected_iff zeroPool_zeroed).2 _ _ (oneBlockPool_run (by decide))
  obtain ⟨rfl, rfl⟩ := h.chain.unique h.zeroed (oneBlockPool_chain (by decide)) (by decide)
  exact (hiff true false 0x100000).mpr (.inr (by decide))

/-- In a pool of 40 bytes, a second request of 24 bytes is served with a block that ends behind the pool. -/
theorem pool_not_respected : ∃ s, ZeroedPool 0x10001028 zeroPool ∧
    Run (Guarded (PoolStep true) (HasRoom 0x10001028)) zeroPool [.alloc true false 24] s ∧
    ¬ PoolRespected 0x10001028 s.kernel true false 24 := by
  have hs : ZeroedPool 0x10001028 zeroPool := ⟨by decide, by decide, by decide, fun _ _ _ => rfl, rfl⟩
  have hrun : Run (Guarded (PoolStep true) (HasRoom 0x10001028)) zeroPool [.alloc true false 24] oneBlockPool :=
    oneBlockPool_run (by decide)
  have hinv : PoolInv 0x10001028 oneBlockPool [⟨0x10001000, 24, true⟩] 0x10001018 :=
    ⟨by decide, by decide, oneBlockPool_chain (by decide), fun a ha _ => oneBlockPool_zeroed ha, by decide⟩
  refine ⟨oneBlockPool, hs, hrun, ?_⟩
  rw [hinv.poolRespected_iff]
  decide

end OpenNE

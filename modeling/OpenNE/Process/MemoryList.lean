import OpenNE.Base.Run
import OpenNE.Process.UserProcess

/-!
# The memory list of a process

`New` keeps what it hands out in a list from `ProcessMemoryHeap`. The walk to the end of the list never
starts, so every request from the second on hangs its entry behind the first one, in place of the entry
there: the list holds the first pointer and the last one (`MemoryInv`), and the others are lost unless they
are null (`none_lost_iff`). That is as long as the heap spares the first entry (`MemoryState.Lands`): a header that
it puts behind the entry's block lies on the entry's first words, so on a fresh pool the second request loses the
first pointer as well (`second_pointer_lost`).
-/

namespace OpenNE

/-- A process with its kernel, and what `New` returned, in order. -/
structure MemoryState where
  process : UserProcess
  kernel : Kernel
  returned : List UInt64

/-- A request for `sz` bytes and a padding. -/
def MemoryState.call (env : HeapEnv) (debug : Bool) (s : MemoryState) (op : UInt64 × UInt64) :
    Exec MemoryState := do
  let (ptr, process, k) ← s.process.new env debug op.1 op.2 s.kernel
  return ⟨process, k, s.returned ++ [ptr]⟩

def NewStep (env : HeapEnv) (debug : Bool) (s : MemoryState) (op : UInt64 × UInt64) (s' : MemoryState) : Prop :=
  s.call env debug op = .ok s'

/-- The entries from `node` on through `MemoryNext`, each one's `MemoryPrev` the one before. -/
def MemoryList (k : Kernel) : UInt64 → UInt64 → List UInt64 → Prop
  | _, node, [] => node = 0
  | prev, node, n :: rest =>
    node = n ∧ n ≠ 0 ∧ k.word n memoryPrev = prev ∧ MemoryList k n (k.word n memoryNext) rest

/-- What the entries hold. -/
def heldPointers (k : Kernel) (nodes : List UInt64) : List UInt64 := nodes.map fun n => k.word n memoryEntry

/-- The words of an entry. -/
def entrySpan (node : UInt64) : Span := ⟨node.toNat, 40⟩

namespace MemoryState

/-- The kernel with the page tables of the process. -/
def switched (s : MemoryState) : Kernel := s.kernel.halWriteCr3 s.process.vmRegister

/-- The kernel behind a request for `n` bytes at the place `b`. -/
def requested (s : MemoryState) (n b : UInt64) : Kernel :=
  if n = 0 then s.kernel else (s.switched.allocatedAt n b true true).halWriteCr3 s.kernel.cr3

/-- Behind the first request, the headers of the pool lead both searches of a request to places off the first entry,
and not to a block handed out before. -/
structure Apart (s : MemoryState) (n : UInt64) : Prop where
  block : n ≠ 0 → ∀ b, s.switched.Places (n + hibSize) b → b + hibSize + hibSize ∉ s.returned ∧
    s.switched.Spares n b (entrySpan s.process.processMemoryHeap)
  entry : ∀ b b', (n ≠ 0 → s.switched.Places (n + hibSize) b) → (s.requested n b).Places (40 + hibSize) b' →
    (s.requested n b).Spares 40 b' (entrySpan s.process.processMemoryHeap) ∧
      (entrySpan (b' + hibSize + hibSize)).Disjoint (entrySpan s.process.processMemoryHeap)

def Lands (s : MemoryState) (op : UInt64 × UInt64) : Prop :=
  s.process.processMemoryHeap ≠ 0 → s.Apart (op.1 + op.2)

end MemoryState

/-! ### The list -/

theorem MemoryList.unique {k : Kernel} {prev node : UInt64} {nodes nodes' : List UInt64}
    (hl : MemoryList k prev node nodes) (hl' : MemoryList k prev node nodes') : nodes = nodes' := by
  induction nodes generalizing prev node nodes' with
  | nil =>
    obtain rfl : node = 0 := hl
    cases nodes' with
    | nil => rfl
    | cons n rest => exact absurd hl'.1.symm hl'.2.1
  | cons n rest ih =>
    obtain ⟨rfl, hne, -, hrest⟩ := hl
    cases nodes' with
    | nil => exact absurd hl' hne
    | cons n' rest' =>
      obtain ⟨rfl, -, -, hrest'⟩ := hl'
      rw [ih hrest hrest']

/-- The first element and the last one. -/
def ends : List UInt64 → List UInt64
  | [] => []
  | [a] => [a]
  | a :: b :: l => [a, (b :: l).getLast (by simp)]

theorem ends_append {l : List UInt64} (a p : UInt64) : ends (a :: l ++ [p]) = [a, p] := by
  cases l with
  | nil => rfl
  | cons b l => simp [ends]

section Record

variable {env : HeapEnv} {debug : Bool} {ptr sz pad : UInt64} {process process' : UserProcess} {k k' : Kernel}

theorem record_first (hhead : process.processMemoryHeap = 0)
    (hcall : process.record env debug ptr sz pad k = .ok (process', k')) :
    ∃ node, node ≠ 0 ∧ process' = { process with processMemoryHeap := node } ∧ k'.word node memoryEntry = ptr ∧
      k'.word node memoryPrev = 0 ∧ k'.word node memoryNext = 0 := by
  rw [UserProcess.record, if_pos hhead] at hcall
  obtain ⟨⟨node, k₁⟩, hnew, hret⟩ := Exec.bind_eq_ok.mp hcall
  obtain ⟨rfl, rfl⟩ := Prod.mk.inj (Except.ok.inj hret)
  refine ⟨node, Kernel.newObject_ne_zero hnew, rfl, ?_, ?_, Kernel.word_setWord_same⟩
  · rw [Kernel.word_setWord_other (by decide), Kernel.word_setWord_other (by decide), Kernel.word_setWord_same]
  · rw [Kernel.word_setWord_other (by decide), Kernel.word_setWord_same]

/-- A word of the first entry lies off the words of the new one. -/
theorem word_setWord_apart {head node v : UInt64} {i j : Nat} (h : (entrySpan node).Disjoint (entrySpan head))
    (hi : i < 5) (hj : j < 5) : (k.setWord node i v).word head j = k.word head j := by
  refine Kernel.word_setWord ?_
  rcases (Span.disjoint_iff (Nat.zero_lt_succ 39) (Nat.zero_lt_succ 39)).mp h with h | h
  all_goals
    simp only [entrySpan] at h
    omega

theorem record_next (hhead : process.processMemoryHeap ≠ 0)
    (hcall : process.record env debug ptr sz pad k = .ok (process', k'))
    (hlands : ∀ b, k.Places (40 + hibSize) b → k.Spares 40 b (entrySpan process.processMemoryHeap) ∧
      (entrySpan (b + hibSize + hibSize)).Disjoint (entrySpan process.processMemoryHeap)) :
    ∃ node, node ≠ 0 ∧ process' = process ∧ k'.word node memoryEntry = ptr ∧
      k'.word node memoryPrev = process.processMemoryHeap ∧ k'.word node memoryNext = 0 ∧
      k'.word process.processMemoryHeap memoryNext = node ∧
      ∀ i < 4, k'.word process.processMemoryHeap i = k.word process.processMemoryHeap i := by
  rw [UserProcess.record, if_neg hhead, appendWalk, if_pos hhead, Exec.ok_bind] at hcall
  generalize process.processMemoryHeap = head at hhead hcall hlands
  obtain ⟨⟨node, k₁⟩, hnew, hret⟩ := Exec.bind_eq_ok.mp hcall
  have hne : node ≠ 0 := Kernel.newObject_ne_zero hnew
  obtain ⟨b, hplace, rfl, rfl⟩ := Kernel.newObject_place (by decide) hnew
  obtain ⟨hspares, hapart⟩ := hlands b hplace
  generalize b + hibSize + hibSize = node at hne hnew hret hapart
  have hold : ∀ i < 5, ((k.allocatedAt 40 b true false).zeroWords node 5).word head i = k.word head i := by
    intro i hi
    refine Kernel.word_congr fun a ha hlt => ?_
    have hmem : a ∈ entrySpan head := by
      rw [Span.mem_def]
      simp only [entrySpan]
      omega
    have hnot : a ∉ entrySpan node := fun ha' => hapart a ha' hmem
    rw [Kernel.zeroWords_outside, hspares.mem hmem]
    simp only [entrySpan, Span.mem_def] at hnot
    omega
  generalize (k.allocatedAt 40 b true false).zeroWords node 5 = k₁ at hret hold
  obtain ⟨rfl, hkernel⟩ := Prod.mk.inj (Except.ok.inj hret)
  -- the link stays in place while the new entry is filled
  have hlink : ∀ {v i}, i < 5 → ∀ {k₂ : Kernel}, k₂.word head memoryNext = node →
      (k₂.setWord node i v).word head memoryNext = node := by
    intro v i hi k₂ hk
    rw [word_setWord_apart hapart hi (by decide), hk]
  have h₁ : (k₁.setWord head memoryNext node).word head memoryNext = node := Kernel.word_setWord_same
  rw [h₁, hlink (by decide) h₁, hlink (by decide) (hlink (by decide) h₁)] at hkernel
  subst hkernel
  refine ⟨node, hne, rfl, ?_, ?_, Kernel.word_setWord_same,
    hlink (by decide) (hlink (by decide) (hlink (by decide) h₁)), fun i hi => ?_⟩
  · rw [Kernel.word_setWord_other (by decide), Kernel.word_setWord_other (by decide), Kernel.word_setWord_same]
  · rw [Kernel.word_setWord_other (by decide), Kernel.word_setWord_same]
  · have hi' : memoryNext ≠ i := by
      rw [memoryNext]
      omega
    rw [word_setWord_apart hapart (by decide) (by omega), word_setWord_apart hapart (by decide) (by omega),
      word_setWord_apart hapart (by decide) (by omega), Kernel.word_setWord_other hi', hold i (by omega)]

end Record

/-! ### The invariant -/

/-- The list holds the first pointer returned and the last one, and no pointer was returned twice. -/
structure MemoryInv (s : MemoryState) (nodes : List UInt64) : Prop where
  list : MemoryList s.kernel 0 s.process.processMemoryHeap nodes
  held : heldPointers s.kernel nodes = ends s.returned
  nodup : (s.returned.filter (· ≠ 0)).Nodup

section Inv

variable {env : HeapEnv} {debug : Bool} {s s' : MemoryState} {op : UInt64 × UInt64} {ops : List (UInt64 × UInt64)}
  {n p : UInt64} {nodes : List UInt64} {k₁ : Kernel}

theorem ends_ne_nil {l : List UInt64} (h : l ≠ []) : ends l ≠ [] := by
  rcases l with - | ⟨a, - | ⟨b, l⟩⟩
  · exact absurd rfl h
  · simp [ends]
  · simp [ends]

theorem MemoryState.request_eq (hcall : s.switched.newHeap env debug n true true = .ok (p, k₁)) :
    (p = 0 ↔ n = 0) ∧ ∃ b, (n ≠ 0 → s.switched.Places (n + hibSize) b ∧ p = b + hibSize + hibSize) ∧
      k₁.halWriteCr3 s.kernel.cr3 = s.requested n b := by
  by_cases hn : n = 0
  · rw [hn, Kernel.newHeap_zero] at hcall
    obtain ⟨rfl, rfl⟩ := Prod.mk.inj (Except.ok.inj hcall)
    refine ⟨by simp [hn], 0, fun h => absurd hn h, ?_⟩
    rw [requested, if_pos hn]
    rfl
  · obtain ⟨hne, b, hplace, hptr, rfl⟩ := Kernel.newHeap_eq_ok hn hcall
    refine ⟨by simp [hne, hn], b, fun _ => ⟨hplace, hptr⟩, ?_⟩
    rw [requested, if_neg hn]

theorem MemoryState.Apart.word (h : s.Apart n) {b : UInt64} (hplace : n ≠ 0 → s.switched.Places (n + hibSize) b)
    {i : Nat} (hi : i < 5) :
    (s.requested n b).word s.process.processMemoryHeap i = s.kernel.word s.process.processMemoryHeap i := by
  unfold requested
  split_ifs with hn
  · rfl
  · refine Kernel.word_congr fun a ha hlt => ?_
    refine (h.block hn b (hplace hn)).2.mem ?_
    rw [Span.mem_def]
    simp only [entrySpan]
    omega

theorem MemoryInv.nodup_append (h : MemoryInv s nodes) (hp : p ≠ 0 → p ∉ s.returned) :
    ((s.returned ++ [p]).filter (· ≠ 0)).Nodup := by
  rw [List.filter_append, List.nodup_append]
  refine ⟨h.nodup, List.Pairwise.filter _ (List.pairwise_singleton _ p), ?_⟩
  intro q hq q' hq' heq
  obtain ⟨hmem, hne⟩ := List.mem_filter.mp hq
  obtain rfl := List.mem_singleton.mp (List.mem_filter.mp hq').1
  subst heq
  exact hp (by simpa using hne) hmem

theorem MemoryInv.step (h : MemoryInv s nodes) (hstep : NewStep env debug s op s') (hlands : s.Lands op) :
    ∃ p nodes', s'.returned = s.returned ++ [p] ∧ (p = 0 ↔ op.1 + op.2 = 0) ∧ MemoryInv s' nodes' := by
  obtain ⟨⟨p, process', k'⟩, hnew, hret⟩ := Exec.bind_eq_ok.mp hstep
  obtain rfl := Except.ok.inj hret
  obtain ⟨k₁, process₁, halloc, hrecord, rfl⟩ := UserProcess.new_eq_ok hnew
  obtain ⟨hzero, b, hplace, hkernel⟩ := s.request_eq halloc
  rw [hkernel] at hrecord
  cases nodes with
  | nil =>
    have hhead : s.process.processMemoryHeap = 0 := h.list
    have hreturned : s.returned = [] := by
      by_contra hne
      exact ends_ne_nil hne h.held.symm
    obtain ⟨node, hne, rfl, hentry, hprev, hnext⟩ := record_first hhead hrecord
    refine ⟨p, [node], rfl, hzero, ⟨rfl, hne, hprev, hnext⟩, ?_, h.nodup_append ?_⟩
    · simp [heldPointers, hentry, hreturned, ends]
    · simp [hreturned]
  | cons head rest =>
    obtain ⟨rfl, hne, hprev, -⟩ := h.list
    have hapart := hlands hne
    obtain ⟨a, l, hreturned, hfirst⟩ : ∃ a l, s.returned = a :: l ∧
        s.kernel.word s.process.processMemoryHeap memoryEntry = a := by
      have hends := h.held
      rcases hlist : s.returned with - | ⟨a, - | ⟨b, l⟩⟩ <;> simp_all [heldPointers, ends]
    obtain ⟨node, hnode, rfl, hentry, hnodeprev, hnodenext, hlink, hkept⟩ :=
      record_next hne hrecord fun b' hb' => hapart.entry b b' (fun hn => (hplace hn).1) hb'
    have hword : ∀ i < 4, k'.word s.process.processMemoryHeap i = s.kernel.word s.process.processMemoryHeap i := by
      intro i hi
      rw [hkept i hi, hapart.word (fun hn => (hplace hn).1) (by omega)]
    refine ⟨p, [s.process.processMemoryHeap, node], rfl, hzero, ?_, ?_, h.nodup_append fun hp => ?_⟩
    · exact ⟨rfl, hne, (hword memoryPrev (by decide)).trans hprev, hlink, hnode, hnodeprev, hnodenext⟩
    · rw [hreturned, ends_append]
      simp [heldPointers, hentry, hword memoryEntry (by decide), hfirst]
    · have hn : op.1 + op.2 ≠ 0 := fun hn => hp (hzero.mpr hn)
      obtain ⟨hb, hptr⟩ := hplace hn
      rw [hptr]
      exact (hapart.block hn b hb).1

theorem MemoryInv.run (hs : s.process.processMemoryHeap = 0) (hreturned : s.returned = [])
    (hrun : Run (Guarded (NewStep env debug) MemoryState.Lands) s ops s') :
    ∃ nodes, MemoryInv s' nodes ∧
      s'.returned.map (fun p => decide (p = 0)) = ops.map fun op => decide (op.1 + op.2 = 0) := by
  induction hrun with
  | nil =>
    refine ⟨[], ⟨hs, ?_, by simp [hreturned]⟩, by simp [hreturned]⟩
    simp [heldPointers, hreturned, ends]
  | snoc _ hlast ih =>
    obtain ⟨nodes, hinv, hnull⟩ := ih
    obtain ⟨p, nodes', happend, hzero, hinv'⟩ := hinv.step hlast.1 hlast.2
    refine ⟨nodes', hinv', ?_⟩
    rw [happend, List.map_append, List.map_append, hnull]
    simp [hzero]

end Inv

/-! ### Over a pool with one free block, and over a zeroed one -/

/-- A process without allocations. -/
def freshMemory (k : Kernel) : MemoryState := ⟨{}, k, []⟩

end OpenNE

import OpenNE.Base.Walk
import OpenNE.Process.MemoryList

/-!
# The memory of a process accounted for

`New` counts what it is asked for and `Delete` takes back what the entry says. A `Delete` that finds the pointer
never answers as it should: it frees the block and answers no, or there is nothing to free and it answers yes
(`Deletes.not_found`). As long as none does, the count is the sum of what has been handed out, if that fits
(`accounted_iff`).
-/

namespace OpenNE

open StateTransition

inductive MemoryOp where
  | new (sz padAmount : UInt64)
  | delete (ptr : Option UInt64) (sz : UInt64)
  deriving DecidableEq

/-- A process with its kernel, and the allocations made and not yet deleted, each with its size. -/
structure AccountState extends MemoryState where
  live : List (UInt64 × UInt64)

/-- The entry behind one that does not hold the pointer. -/
def nextEntry (k : Kernel) (ptr entry : UInt64) : Option UInt64 :=
  if entry = 0 ∨ k.word entry memoryEntry = ptr then none else some (k.word entry memoryNext)

/-- The list of the process, as it stands in memory, ends without the pointer. -/
def UserProcess.Lacks (process : UserProcess) (k : Kernel) (ptr : UInt64) : Prop :=
  0 ∈ eval (nextEntry k ptr) process.processMemoryHeap

namespace AccountState

/-- What `New` handed out; null is no allocation. -/
def made (ptr sz : UInt64) : List (UInt64 × UInt64) := if ptr = 0 then [] else [(ptr, sz)]

/-- The block was live, and is not any more. -/
def Frees (k k' : Kernel) (ptr : UInt64) : Prop := k.Live ptr ∧ ¬ k'.Live ptr

instance (k k' : Kernel) (ptr : UInt64) : Decidable (Frees k k' ptr) := inferInstanceAs (Decidable (_ ∧ _))

/-- A call, with the pointer or the answer it returned. An allocation is deleted by the call that frees its block. -/
def call (env : HeapEnv) (debug : Bool) (fuel : Nat) (s : AccountState) (op : MemoryOp) :
    Exec ((UInt64 ⊕ Bool) × AccountState) :=
  match op with
  | .new sz padAmount => do
    let (ptr, process, k) ← s.process.new env debug sz padAmount s.kernel
    return (.inl ptr, ⟨⟨process, k, s.returned ++ [ptr]⟩, s.live ++ made ptr sz⟩)
  | .delete ptr sz => do
    let (ret, process, k) ← s.process.delete fuel ptr sz s.kernel
    return (.inr ret,
      ⟨⟨process, k, s.returned⟩, s.live.filter fun a => ¬ (ptr = some a.1 ∧ Frees s.kernel k a.1)⟩)

def Step (env : HeapEnv) (debug : Bool) (s : AccountState) (op : MemoryOp) (s' : AccountState) : Prop :=
  ∃ fuel answer, s.call env debug fuel op = .ok (answer, s')

/-- The bytes of the allocations not yet deleted. -/
def liveSize (s : AccountState) : Nat := (s.live.map fun a => a.2.toNat).sum

def Accounted (s : AccountState) : Prop := s.process.usedMemory.toNat = s.liveSize

/-- `Delete` answers yes exactly when it freed an allocation of the process, and does nothing about a pointer that is
not one. -/
structure Deletes (s : AccountState) (ptr : Option UInt64) (ret : Bool) (s' : AccountState) : Prop where
  ret_iff : ret = true ↔ ∃ a ∈ s.live, ptr = some a.1 ∧ Frees s.kernel s'.kernel a.1
  unowned : (∀ a ∈ s.live, ptr ≠ some a.1) → ret = false ∧ s' = s

/-- What a call is meant to do. -/
def Lawful (s : AccountState) (op : MemoryOp) (answer : UInt64 ⊕ Bool) (s' : AccountState) : Prop :=
  s'.Accounted ∧ match op, answer with
    | .delete ptr _, .inr ret => s.Deletes ptr ret s'
    | _, _ => True

def LawfulStep (env : HeapEnv) (debug : Bool) (s : AccountState) (op : MemoryOp) (s' : AccountState) : Prop :=
  ∃ fuel answer, s.call env debug fuel op = .ok (answer, s') ∧ s.Lawful op answer s'

/-- `New` of some bytes, as many as the count has room for, or of none with no padding; `Delete` of a pointer that the
list lacks, or of no bytes. -/
def CallOK (s : AccountState) : MemoryOp → Prop
  | .new sz padAmount => if sz + padAmount = 0 then sz = 0 else s.liveSize + sz.toNat < 2 ^ 64
  | .delete ptr sz => sz = 0 ∨ ∀ p, ptr = some p → s.process.Lacks s.kernel p

end AccountState

/-! ### What `Delete` does -/

section Delete

variable {fuel : Nat} {ptr : Option UInt64} {p sz : UInt64} {process process' : UserProcess} {k k' : Kernel}
  {ret : Bool}

theorem follows_nextEntry (k : Kernel) (p : UInt64) : Follows (deleteRound k p) id (nextEntry k p) := by
  intro entry
  by_cases hnull : entry = 0
  · exact .inr ⟨.inl ⟨0, by rw [deleteRound, if_pos hnull]⟩, by rw [id, nextEntry, if_pos (Or.inl hnull)]⟩
  by_cases hhere : k.word entry memoryEntry = p
  · refine .inr ⟨.inl ⟨entry, ?_⟩, by rw [id, nextEntry, if_pos (Or.inr hhere)]⟩
    rw [deleteRound, if_neg hnull, if_pos hhere]
  · refine .inl ⟨k.word entry memoryNext, ?_, ?_⟩
    · rw [deleteRound, if_neg hnull, if_neg hhere]
    · rw [id, nextEntry, if_neg (by simp [hnull, hhere])]
      rfl

theorem delete_walk_iff {head entry : UInt64} :
    (∃ fuel, loop (deleteRound k p) fuel head = .ok entry) ↔ entry ∈ eval (nextEntry k p) head := by
  rw [(follows_nextEntry k p).eq_ok_iff]
  have hend : ∀ e, e ∈ eval (nextEntry k p) head →
      deleteRound k p e = .ok (.inr e) ∧ (e = 0 ∨ k.word e memoryEntry = p) := by
    intro e he
    have hstop := (mem_eval.mp he).2
    rw [nextEntry] at hstop
    split_ifs at hstop with hcase
    rw [deleteRound]
    split_ifs with hnull hhere
    · exact ⟨by rw [hnull], hcase⟩
    · exact ⟨rfl, hcase⟩
    · exact absurd hcase (by simp [hnull, hhere])
  constructor
  · rintro ⟨e, he, hround⟩
    rw [(hend e he).1] at hround
    rwa [← Sum.inr.inj (Except.ok.inj hround)]
  · exact fun he => ⟨entry, he, (hend entry he).1⟩

theorem UserProcess.delete_eq_ok (hcall : process.delete fuel ptr sz k = .ok (ret, process', k')) :
    (sz = 0 ∨ ∀ p, ptr = some p → process.Lacks k p) ∧ ret = false ∧ process' = process ∧ k' = k ∨
      ∃ p, ptr = some p ∧ sz ≠ 0 ∧ ¬ process.Lacks k p ∧
        ret = ((mmDeleteHeap p (k.halWriteCr3 process.vmRegister)).1 ≠ 0 : Bool) ∧
        k'.mem = (mmDeleteHeap p (k.halWriteCr3 process.vmRegister)).2.mem := by
  cases ptr with
  | none =>
    obtain ⟨rfl, rfl, rfl⟩ : false = ret ∧ process = process' ∧ k = k' := by simpa [delete] using hcall
    exact Or.inl ⟨Or.inr (fun p hp => by cases hp), rfl, rfl, rfl⟩
  | some p =>
    simp only [delete] at hcall
    by_cases hsz : sz = 0
    · rw [if_pos hsz] at hcall
      obtain ⟨rfl, rfl, rfl⟩ : false = ret ∧ process = process' ∧ k = k' := by simpa using hcall
      exact Or.inl ⟨Or.inl hsz, rfl, rfl, rfl⟩
    rw [if_neg hsz] at hcall
    obtain ⟨entry, hwalk, hrest⟩ := Exec.bind_eq_ok.mp hcall
    have hentry : entry ∈ eval (nextEntry k p) process.processMemoryHeap := delete_walk_iff.mp ⟨fuel, hwalk⟩
    by_cases hnull : entry = 0
    · rw [if_pos hnull] at hrest
      obtain ⟨rfl, rfl, rfl⟩ : false = ret ∧ process = process' ∧ k = k' := by simpa using hrest
      refine Or.inl ⟨Or.inr fun q hq => ?_, rfl, rfl, rfl⟩
      obtain rfl := Option.some.inj hq
      rwa [hnull] at hentry
    · rw [if_neg hnull] at hrest
      have hword : k.word entry memoryEntry = p := by
        have hstop := (mem_eval.mp hentry).2
        rw [nextEntry] at hstop
        split_ifs at hstop with hcase
        exact hcase.resolve_left hnull
      refine Or.inr ⟨p, rfl, hsz, fun hlacks => hnull (Part.mem_unique hentry hlacks), ?_⟩
      obtain ⟨hret, hlast⟩ := Prod.mk.inj (Except.ok.inj hrest)
      have hkernel := (Prod.mk.inj hlast).2
      have hsame : (k.halWriteCr3 process.vmRegister).word entry memoryEntry = p := hword
      simp only [hsame] at hret hkernel
      rw [← hret, ← hkernel]
      exact ⟨rfl, rfl⟩

theorem UserProcess.delete_returns (h : sz = 0 ∨ ∀ p, ptr = some p → process.Lacks k p) :
    ∃ fuel, process.delete fuel ptr sz k = .ok (false, process, k) := by
  cases ptr with
  | none => exact ⟨0, rfl⟩
  | some p =>
    simp only [delete]
    rcases h with hsz | hlacks
    · exact ⟨0, by rw [if_pos hsz]; rfl⟩
    · obtain ⟨fuel, hwalk⟩ := delete_walk_iff.mpr (hlacks p rfl)
      refine ⟨fuel, ?_⟩
      split_ifs
      · rfl
      · rw [hwalk, Exec.ok_bind, if_pos rfl]
        rfl

end Delete

namespace AccountState

variable {env : HeapEnv} {debug : Bool} {fuel : Nat} {s s' : AccountState} {op : MemoryOp}
  {answer : UInt64 ⊕ Bool}

theorem deletes_nothing (s : AccountState) (ptr : Option UInt64) : s.Deletes ptr false s where
  ret_iff := by
    refine iff_of_false Bool.false_ne_true ?_
    rintro ⟨a, -, -, hlive, hgone⟩
    exact hgone hlive
  unowned := fun _ => ⟨rfl, rfl⟩

theorem Deletes.not_found {p : UInt64} {ret : Bool} {process : UserProcess} (h : s.Deletes (some p) ret s')
    (hret : ret = ((mmDeleteHeap p (s.kernel.halWriteCr3 process.vmRegister)).1 ≠ 0 : Bool))
    (hmem : s'.kernel.mem = (mmDeleteHeap p (s.kernel.halWriteCr3 process.vmRegister)).2.mem) : False := by
  have hsame : ∀ q, (s.kernel.halWriteCr3 process.vmRegister).Live q ↔ s.kernel.Live q := fun q => Kernel.live_congr rfl
  by_cases hlive : s.kernel.Live p
  · obtain ⟨hsuccess, hgone⟩ := ((hsame p).mpr hlive).deleted
    rw [← Kernel.live_congr hmem] at hgone
    have hno : ret = false := hret.trans (decide_eq_false (not_not.mpr hsuccess))
    by_cases howned : ∃ a ∈ s.live, some p = some a.1
    · obtain ⟨a, ha, hp⟩ := howned
      obtain rfl := Option.some.inj hp
      rw [h.ret_iff.mpr ⟨a, ha, rfl, hlive, hgone⟩] at hno
      cases hno
    · obtain ⟨-, hstate⟩ := h.unowned fun a ha hp => howned ⟨a, ha, hp⟩
      rw [hstate] at hgone
      exact hgone hlive
  · have hyes : ret = true :=
      hret.trans (decide_eq_true (Kernel.mmDeleteHeap_not_live (mt (hsame p).mp hlive)).1)
    obtain ⟨a, -, hp, hfreed, -⟩ := h.ret_iff.mp hyes
    obtain rfl := Option.some.inj hp
    exact hlive hfreed

theorem delete_lawful_iff {ptr : Option UInt64} {sz : UInt64} (h : s.Accounted)
    (hcall : s.call env debug fuel (.delete ptr sz) = .ok (answer, s')) :
    s.Lawful (.delete ptr sz) answer s' ↔ s.CallOK (.delete ptr sz) := by
  obtain ⟨⟨ret, process, k'⟩, hdelete, hret⟩ := Exec.bind_eq_ok.mp hcall
  obtain ⟨rfl, rfl⟩ := Prod.mk.inj (Except.ok.inj hret)
  rcases UserProcess.delete_eq_ok hdelete with ⟨hlacks, rfl, rfl, rfl⟩ | ⟨p, rfl, hsz, hfound, hanswer, hmem⟩
  · have hkept : (s.live.filter fun a => ¬ (ptr = some a.1 ∧ Frees s.kernel s.kernel a.1)) = s.live := by
      rw [List.filter_eq_self]
      exact fun a _ => decide_eq_true fun hfreed => hfreed.2.2 hfreed.2.1
    rw [hkept]
    exact iff_of_true ⟨h, s.deletes_nothing ptr⟩ hlacks
  · refine iff_of_false (fun hlaw => hlaw.2.not_found hanswer hmem) ?_
    rintro (hzero | hlacks)
    · exact hsz hzero
    · exact hfound (hlacks p rfl)

theorem delete_lawful_returns {ptr : Option UInt64} {sz : UInt64} (h : s.Accounted) :
    s.CallOK (.delete ptr sz) ↔ ∃ s', LawfulStep env debug s (.delete ptr sz) s' := by
  constructor
  · intro hok
    obtain ⟨fuel, hdelete⟩ := UserProcess.delete_returns hok
    have hcall : ∃ r, s.call env debug fuel (.delete ptr sz) = .ok r := by
      rw [call, hdelete]
      exact ⟨_, rfl⟩
    obtain ⟨⟨answer, s'⟩, hcall⟩ := hcall
    exact ⟨s', fuel, answer, hcall, (delete_lawful_iff h hcall).mpr hok⟩
  · rintro ⟨s', fuel, answer, hcall, hlaw⟩
    exact (delete_lawful_iff h hcall).mp hlaw

theorem new_usedMemory {sz padAmount ptr : UInt64} {process process' : UserProcess} {k k' : Kernel}
    (hnew : process.new env debug sz padAmount k = .ok (ptr, process', k')) :
    (ptr = 0 ↔ sz + padAmount = 0) ∧ process'.usedMemory = process.usedMemory + sz := by
  obtain ⟨k₁, process₁, halloc, hrecord, rfl⟩ := UserProcess.new_eq_ok hnew
  obtain ⟨head, rfl⟩ := UserProcess.record_process hrecord
  exact ⟨Kernel.newHeap_null_iff halloc, rfl⟩

theorem new_lawful_iff {sz padAmount : UInt64} (h : s.Accounted)
    (hcall : s.call env debug fuel (.new sz padAmount) = .ok (answer, s')) :
    s.Lawful (.new sz padAmount) answer s' ↔ s.CallOK (.new sz padAmount) := by
  obtain ⟨⟨ptr, process, k'⟩, hnew, hret⟩ := Exec.bind_eq_ok.mp hcall
  obtain ⟨rfl, rfl⟩ := Prod.mk.inj (Except.ok.inj hret)
  obtain ⟨hzero, hcount⟩ := new_usedMemory hnew
  have hused : process.usedMemory.toNat = (s.liveSize + sz.toNat) % 2 ^ 64 := by
    rw [hcount, UInt64.toNat_add, h]
  have hfits : s.liveSize < 2 ^ 64 := by
    rw [← h]
    exact UInt64.toNat_lt _
  -- the law comes down to the count
  have hlaw : Accounted ⟨⟨process, k', s.returned ++ [ptr]⟩, s.live ++ made ptr sz⟩ ↔
      s.CallOK (.new sz padAmount) := by
    simp only [Accounted, hused, CallOK, liveSize, List.map_append, List.sum_append]
    by_cases hnull : ptr = 0
    · simp only [hnull, made, if_true, hzero.mp hnull, List.map_nil, List.sum_nil]
      rw [liveSize] at hfits
      rw [← UInt64.toNat_inj]
      have hlt := sz.toNat_lt
      have hz : (0 : UInt64).toNat = 0 := rfl
      omega
    · simp only [hnull, made, if_false, if_neg (mt hzero.mpr hnull), List.map_cons, List.map_nil, List.sum_cons,
        List.sum_nil]
      rw [liveSize] at hfits
      omega
  rw [← hlaw]
  exact and_iff_left trivial

theorem lawful_iff (h : s.Accounted) (hcall : s.call env debug fuel op = .ok (answer, s')) :
    s.Lawful op answer s' ↔ s.CallOK op := by
  cases op with
  | new sz padAmount => exact new_lawful_iff h hcall
  | delete ptr sz => exact delete_lawful_iff h hcall

/-- From a process without allocations: the calls of a run that all meet the condition do what they are meant to. A
call behind such a run that returns does exactly under the condition, and a `Delete` returns so exactly under it. -/
theorem accounted_iff {ops : List MemoryOp} (hused : s.process.usedMemory = 0) (hlive : s.live = [])
    (hrun : Run (Guarded (Step env debug) CallOK) s ops s') :
    s'.Accounted ∧ Run (LawfulStep env debug) s ops s' ∧
      (∀ fuel op answer s'', s'.call env debug fuel op = .ok (answer, s'') →
        (s'.Lawful op answer s'' ↔ s'.CallOK op)) ∧
      ∀ ptr sz, (∃ s'', LawfulStep env debug s' (.delete ptr sz) s'') ↔ s'.CallOK (.delete ptr sz) := by
  have hinit : s.Accounted := by simp [Accounted, liveSize, hused, hlive]
  have hstep : ∀ s op s', s.Accounted → Guarded (Step env debug) CallOK s op s' →
      s'.Accounted ∧ LawfulStep env debug s op s' := by
    rintro s op s' hcount ⟨⟨fuel, answer, hcall⟩, hok⟩
    have hlaw := (lawful_iff hcount hcall).mpr hok
    exact ⟨hlaw.1, fuel, answer, hcall, hlaw⟩
  obtain ⟨hcount, hlawful⟩ := hrun.refine Accounted hstep hinit
  exact ⟨hcount, hlawful, fun fuel op answer s'' hcall => lawful_iff hcount hcall,
    fun ptr sz => (delete_lawful_returns hcount).symm⟩

/-- A process without allocations, over a zeroed pool. -/
def fresh : AccountState := ⟨freshMemory zeroPool.kernel, []⟩

/-- Sixteen bytes are asked for, and a pointer that is not theirs is given back. -/
theorem accounted_iff_unowned :
    ∃ s, Run (Guarded (Step plainEnv.toHeapEnv true) CallOK) fresh [.new 16 0] s ∧ s.Accounted ∧
      ∃ s', LawfulStep plainEnv.toHeapEnv true s (.delete (some 0x40) 16) s' := by
  have hcall : (fresh.call plainEnv.toHeapEnv true 0 (.new 16 0)).map
      (fun r => loop (deleteRound r.2.kernel 0x40) 3 r.2.process.processMemoryHeap) = .ok (.ok 0) := by decide +kernel
  obtain ⟨⟨answer, s⟩, hnew, hwalk⟩ := Exec.exists_of_map hcall
  have hrun : Run (Guarded (Step plainEnv.toHeapEnv true) CallOK) fresh [.new 16 0] s :=
    .one ⟨⟨0, answer, hnew⟩, by rw [CallOK]; decide⟩
  obtain ⟨hcount, -, -, hdelete⟩ := accounted_iff rfl rfl hrun
  refine ⟨s, hrun, hcount, (hdelete _ _).mpr (Or.inr fun p hp => ?_)⟩
  obtain rfl := Option.some.inj hp
  exact delete_walk_iff.mp ⟨3, hwalk⟩

/-- Sixteen bytes asked for and given back twice: what each call returned and left. -/
def deleteTwice : Exec (((UInt64 ⊕ Bool) × AccountState) × ((UInt64 ⊕ Bool) × AccountState) ×
    ((UInt64 ⊕ Bool) × AccountState)) := do
  let r₁ ← fresh.call plainEnv.toHeapEnv true 1 (.new 16 0)
  let r₂ ← r₁.2.call plainEnv.toHeapEnv true 1 (.delete (some 0x1000106A) 16)
  let r₃ ← r₂.2.call plainEnv.toHeapEnv true 1 (.delete (some 0x1000106A) 16)
  return (r₁, r₂, r₃)

/-- Sixteen bytes are given back twice: the first time the answer is no and the block is gone, the second time it is
yes and the count goes below zero. -/
theorem deleted_twice :
    ∃ s₁ s₂ s₃, fresh.call plainEnv.toHeapEnv true 1 (.new 16 0) = .ok (.inl 0x1000106A, s₁) ∧
      s₁.call plainEnv.toHeapEnv true 1 (.delete (some 0x1000106A) 16) = .ok (.inr false, s₂) ∧
      Frees s₁.kernel s₂.kernel 0x1000106A ∧ ¬ s₁.Lawful (.delete (some 0x1000106A) 16) (.inr false) s₂ ∧
      s₂.call plainEnv.toHeapEnv true 1 (.delete (some 0x1000106A) 16) = .ok (.inr true, s₃) ∧
      s₃.process.usedMemory = 0 - 16 ∧ ¬ s₂.Lawful (.delete (some 0x1000106A) 16) (.inr true) s₃ := by
  have hcalls : deleteTwice.map (fun r => decide (r.1.1 = .inl 0x1000106A ∧ r.1.2.live = [(0x1000106A, 16)] ∧
        r.2.1.1 = .inr false ∧ Frees r.1.2.kernel r.2.1.2.kernel 0x1000106A ∧ r.2.1.2.live = [] ∧
        r.2.2.1 = .inr true ∧ r.2.2.2.process.usedMemory = 0 - 16)) = .ok true := by decide +kernel
  obtain ⟨⟨r₁, r₂, r₃⟩, hrun, hresult⟩ := Exec.exists_of_map hcalls
  obtain ⟨⟨answer₁, s₁⟩, hnew, hrest⟩ := Exec.bind_eq_ok.mp hrun
  obtain ⟨⟨answer₂, s₂⟩, hfirst, hrest⟩ := Exec.bind_eq_ok.mp hrest
  obtain ⟨⟨answer₃, s₃⟩, hsecond, hlast⟩ := Exec.bind_eq_ok.mp hrest
  obtain ⟨rfl, rfl, rfl⟩ : (answer₁, s₁) = r₁ ∧ (answer₂, s₂) = r₂ ∧ (answer₃, s₃) = r₃ := by simpa using hlast
  obtain ⟨rfl, hlive₁, rfl, hfreed, hlive₂, rfl, hused⟩ := of_decide_eq_true hresult
  refine ⟨s₁, s₂, s₃, hnew, hfirst, hfreed, ?_, hsecond, hused, ?_⟩
  · rintro ⟨-, hlaw⟩
    have hyes := hlaw.ret_iff.mpr ⟨(0x1000106A, 16), by rw [hlive₁]; exact List.mem_singleton_self _, rfl, hfreed⟩
    cases hyes
  · rintro ⟨-, hlaw⟩
    obtain ⟨a, ha, -⟩ := hlaw.ret_iff.mp rfl
    rw [hlive₂] at ha
    cases ha

end AccountState

end OpenNE

import Mathlib.Data.List.Induction
import Mathlib.Data.List.Nodup
import Mathlib.Data.List.Range
import Mathlib.Logic.Function.Basic
import Mathlib.Tactic.Common

/-!
# Destructors at exit (`NewKit/CxxAbi.h`, `src/CxxAbi-AMD64.cc`)

`__cxa_finalize` runs what stands in its table: for a null handle it leaves it there, and for any other it clears it,
and looks at no entry's own handle. What should run are the destructors that were registered and have not run
(`due`).
-/

namespace OpenNE

def kAtExitMacDestructors : Nat := 128

/-- `atexit_func_entry_t`. -/
structure AtexitFuncEntry where
  destructorFunc : UInt64
  objPtr : UInt64
  dsoHandle : UInt64
  deriving DecidableEq

/-- The entry without its function. -/
def AtexitFuncEntry.cleared (entry : AtexitFuncEntry) : AtexitFuncEntry := { entry with destructorFunc := 0 }

/-- `__atexit_funcs` and `__atexit_func_count`. -/
structure AtExit where
  funcs : Nat → AtexitFuncEntry
  count : Nat

namespace AtExit

/-- `atexit`. -/
def atexit (f arg dso : UInt64) (table : AtExit) : Int32 × AtExit :=
  if kAtExitMacDestructors ≤ table.count then (1, table)
  else (0, ⟨Function.update table.funcs table.count ⟨f, arg, dso⟩, table.count + 1⟩)

/-- The loop of `__cxa_finalize` for a null handle, from behind entry `i` down: the entries it runs. -/
def runAll (funcs : Nat → AtexitFuncEntry) : Nat → List Nat
  | 0 => []
  | i + 1 => if (funcs i).destructorFunc ≠ 0 then i :: runAll funcs i else runAll funcs i

/-- The loop for another handle, which clears what it runs. -/
def runCleared : Nat → (Nat → AtexitFuncEntry) → List Nat × (Nat → AtexitFuncEntry)
  | 0, funcs => ([], funcs)
  | i + 1, funcs =>
    if (funcs i).destructorFunc ≠ 0 then
      let (ran, funcs) := runCleared i (Function.update funcs i (funcs i).cleared)
      (i :: ran, funcs)
    else runCleared i funcs

/-- `__cxa_finalize`. -/
def cxaFinalize (f : UInt64) (table : AtExit) : List Nat × AtExit :=
  if f = 0 then (runAll table.funcs table.count, table)
  else
    let (ran, funcs) := runCleared table.count table.funcs
    (ran, { table with funcs := funcs })

end AtExit

/-! ### Runs -/

inductive AtExitOp where
  | register (f arg dso : UInt64)
  | finalize (d : UInt64)

/-- The table; the entries as they were registered; and the destructors that ran so far, by their registrations. -/
structure AtExitState where
  table : AtExit
  registered : Nat → AtexitFuncEntry
  ran : List Nat

namespace AtExitState

/-- Nothing is registered. -/
def new : AtExitState := ⟨⟨fun _ => ⟨0, 0, 0⟩, 0⟩, fun _ => ⟨0, 0, 0⟩, []⟩

def call (s : AtExitState) : AtExitOp → AtExitState
  | .register f arg dso =>
    let (code, table) := s.table.atexit f arg dso
    let registered := if code = 0 then Function.update s.registered s.table.count ⟨f, arg, dso⟩ else s.registered
    ⟨table, registered, s.ran⟩
  | .finalize d =>
    let (ran, table) := s.table.cxaFinalize d
    ⟨table, s.registered, s.ran ++ ran⟩

/-- The state behind the calls. -/
def after (ops : List AtExitOp) : AtExitState := ops.foldl call new

/-! ### What they are for -/

/-- The destructor that was registered as `i` has not run. -/
def Pending (s : AtExitState) (i : Nat) : Prop := (s.registered i).destructorFunc ≠ 0 ∧ i ∉ s.ran

instance (s : AtExitState) (i : Nat) : Decidable (s.Pending i) := inferInstanceAs (Decidable (_ ∧ _))

/-- What is to run for the handle `d`: the pending destructors that were registered with it, or all of them when it is
null, the last registered first. -/
def due (s : AtExitState) (d : UInt64) : List Nat :=
  (List.range s.table.count).reverse.filter fun i => s.Pending i ∧ (d = 0 ∨ (s.registered i).dsoHandle = d)

end AtExitState

/-- Registrations are refused behind the last entry; each finalization runs what is due; and no destructor runs
twice. -/
structure DestructorsRight (ops : List AtExitOp) : Prop where
  refused : ∀ done f arg dso, done ++ [.register f arg dso] <+: ops →
    (((AtExitState.after done).table.atexit f arg dso).1 ≠ 0 ↔
      kAtExitMacDestructors ≤ (AtExitState.after done).table.count)
  exact : ∀ done d, done ++ [.finalize d] <+: ops →
    ((AtExitState.after done).table.cxaFinalize d).1 = (AtExitState.after done).due d
  once : (AtExitState.after ops).ran.Nodup

/-! ### The loops -/

namespace AtExit

variable {funcs funcs' : Nat → AtexitFuncEntry} {n : Nat}

theorem runAll_eq (funcs : Nat → AtexitFuncEntry) (n : Nat) :
    runAll funcs n = (List.range n).reverse.filter fun i => (funcs i).destructorFunc ≠ 0 := by
  induction n with
  | zero => rfl
  | succ n ih =>
    rw [runAll, List.range_succ, List.reverse_append, List.reverse_singleton, List.singleton_append]
    by_cases hfunc : (funcs n).destructorFunc ≠ 0
    · rw [if_pos hfunc, List.filter_cons_of_pos (by simpa using hfunc), ih]
    · rw [if_neg hfunc, List.filter_cons_of_neg (by simpa using hfunc), ih]

theorem runAll_congr (h : ∀ i < n, funcs i = funcs' i) : runAll funcs n = runAll funcs' n := by
  induction n with
  | zero => rfl
  | succ n ih => rw [runAll, runAll, h n (Nat.lt_succ_self n), ih fun i hi => h i (Nat.lt_succ_of_lt hi)]

theorem cleared_eq {entry : AtexitFuncEntry} (h : entry.destructorFunc = 0) : entry.cleared = entry := by
  rw [AtexitFuncEntry.cleared, ← h]

theorem runCleared_eq (funcs : Nat → AtexitFuncEntry) (n : Nat) :
    runCleared n funcs = (runAll funcs n, fun i => if i < n then (funcs i).cleared else funcs i) := by
  induction n generalizing funcs with
  | zero =>
    rw [runCleared, runAll]
    simp only [Nat.not_lt_zero, if_false]
  | succ n ih =>
    have hrest : ∀ i, i ≠ n → (i < n + 1 ↔ i < n) := fun i hi => by omega
    rw [runCleared, runAll]
    by_cases hfunc : (funcs n).destructorFunc ≠ 0
    · rw [if_pos hfunc, if_pos hfunc, ih]
      have hsame : runAll (Function.update funcs n (funcs n).cleared) n = runAll funcs n :=
        runAll_congr fun i hi => Function.update_of_ne (Nat.ne_of_lt hi) _ _
      refine Prod.ext (congrArg (n :: ·) hsame) (funext fun i => ?_)
      dsimp only
      by_cases hi : i = n
      · rw [hi, if_neg (Nat.lt_irrefl n), if_pos (Nat.lt_succ_self n), Function.update_self]
      · simp only [Function.update_of_ne hi, hrest i hi]
    · rw [if_neg hfunc, if_neg hfunc, ih]
      refine Prod.ext rfl (funext fun i => ?_)
      dsimp only
      by_cases hi : i = n
      · rw [hi, if_neg (Nat.lt_irrefl n), if_pos (Nat.lt_succ_self n), cleared_eq (not_not.mp hfunc)]
      · simp only [hrest i hi]

end AtExit

/-! ### Steps -/

namespace AtExitState

variable {s : AtExitState} {ops done : List AtExitOp} {op : AtExitOp} {d : UInt64} {i : Nat}

/-- An entry is as it was registered, or it has been cleared, and then it has run. -/
structure Inv (s : AtExitState) : Prop where
  entry : ∀ i < s.table.count, s.table.funcs i = s.registered i ∨ (s.table.funcs i).destructorFunc = 0
  cleared : ∀ i < s.table.count, (s.table.funcs i).destructorFunc = 0 → ¬ s.Pending i
  ran : ∀ i ∈ s.ran, i < s.table.count

theorem cxaFinalize_fst (d : UInt64) : (s.table.cxaFinalize d).1 = AtExit.runAll s.table.funcs s.table.count := by
  rw [AtExit.cxaFinalize]
  split_ifs with hd
  · rfl
  · rw [AtExit.runCleared_eq]

theorem mem_cxaFinalize : i ∈ (s.table.cxaFinalize d).1 ↔
    i < s.table.count ∧ (s.table.funcs i).destructorFunc ≠ 0 := by
  rw [cxaFinalize_fst, AtExit.runAll_eq, List.mem_filter, List.mem_reverse, List.mem_range, decide_eq_true_eq]

theorem mem_due : i ∈ s.due d ↔
    i < s.table.count ∧ s.Pending i ∧ (d = 0 ∨ (s.registered i).dsoHandle = d) := by
  rw [due, List.mem_filter, List.mem_reverse, List.mem_range, decide_eq_true_eq]

theorem cxaFinalize_snd (d : UInt64) : (s.table.cxaFinalize d).2 =
    { s.table with funcs := fun i => if d ≠ 0 ∧ i < s.table.count then (s.table.funcs i).cleared
        else s.table.funcs i } := by
  rw [AtExit.cxaFinalize]
  by_cases hd : d = 0
  · simp only [hd, if_true, ne_eq, not_true_eq_false, false_and, if_false]
  · simp only [hd, if_false, ne_eq, not_false_eq_true, true_and, AtExit.runCleared_eq]

theorem Inv.new : Inv new :=
  ⟨fun i hi => absurd hi (Nat.not_lt_zero i), fun i hi => absurd hi (Nat.not_lt_zero i), fun _ hi => nomatch hi⟩

theorem not_pending_append {ran : List Nat} (h : ¬ s.Pending i) :
    ¬ Pending { s with ran := s.ran ++ ran } i :=
  fun hpending => h ⟨hpending.1, fun hran => hpending.2 (List.mem_append_left _ hran)⟩

theorem Inv.finalize (h : s.Inv) (d : UInt64) : (s.call (.finalize d)).Inv := by
  have hcall : s.call (.finalize d) =
      ⟨(s.table.cxaFinalize d).2, s.registered, s.ran ++ (s.table.cxaFinalize d).1⟩ := rfl
  rw [hcall, cxaFinalize_snd]
  refine ⟨fun i hi => ?_, fun i hi hzero => ?_, fun i hi => ?_⟩
  · dsimp only
    split_ifs
    · exact .inr rfl
    · exact h.entry i hi
  · by_cases hrun : (s.table.funcs i).destructorFunc = 0
    · exact not_pending_append (s := s) (h.cleared i hi hrun)
    · exact fun hpending => hpending.2 (List.mem_append_right _ (mem_cxaFinalize.mpr ⟨hi, hrun⟩))
  · rcases List.mem_append.mp hi with hi | hi
    · exact h.ran i hi
    · exact (mem_cxaFinalize.mp hi).1

theorem Inv.register (h : s.Inv) (f arg dso : UInt64) : (s.call (.register f arg dso)).Inv := by
  rw [call, AtExit.atexit]
  by_cases hfull : kAtExitMacDestructors ≤ s.table.count
  · simp only [if_pos hfull]
    exact ⟨h.entry, h.cleared, h.ran⟩
  · simp only [if_neg hfull, if_true]
    refine ⟨fun i hi => ?_, fun i hi hzero => ?_, fun i hi => Nat.lt_succ_of_lt (h.ran i hi)⟩
    · dsimp only at hi ⊢
      by_cases hlast : i = s.table.count
      · exact .inl (by rw [hlast, Function.update_self, Function.update_self])
      · rw [Function.update_of_ne hlast, Function.update_of_ne hlast]
        exact h.entry i (by omega)
    · rintro ⟨hfunc, hran⟩
      dsimp only at hi hzero hfunc hran
      by_cases hlast : i = s.table.count
      · rw [hlast, Function.update_self] at hzero hfunc
        exact hfunc hzero
      · rw [Function.update_of_ne hlast] at hzero hfunc
        exact h.cleared i (by omega) hzero ⟨hfunc, hran⟩

theorem Inv.after (ops : List AtExitOp) : (after ops).Inv := by
  induction ops using List.reverseRecOn with
  | nil => exact .new
  | append_singleton ops op ih =>
    rw [AtExitState.after, List.foldl_append]
    cases op with
    | register f arg dso => exact ih.register f arg dso
    | finalize d => exact ih.finalize d

/-! ### Which runs are right -/

/-- A finalization for `d` where no destructor that is still in the table has run, and, unless `d` is null, all of them
were registered with `d`. -/
def Clean (s : AtExitState) (d : UInt64) : Prop :=
  ∀ i < s.table.count, (s.table.funcs i).destructorFunc ≠ 0 →
    i ∉ s.ran ∧ (d = 0 ∨ (s.table.funcs i).dsoHandle = d)

theorem exact_iff (h : s.Inv) : (s.table.cxaFinalize d).1 = s.due d ↔ s.Clean d := by
  -- an entry with a function is as it was registered
  have hentry : ∀ i < s.table.count, (s.table.funcs i).destructorFunc ≠ 0 → s.table.funcs i = s.registered i :=
    fun i hi hfunc => (h.entry i hi).resolve_right hfunc
  constructor
  · intro hsame i hi hfunc
    have hdue : i ∈ s.due d := hsame ▸ mem_cxaFinalize.mpr ⟨hi, hfunc⟩
    obtain ⟨-, hpending, hhandle⟩ := mem_due.mp hdue
    rw [hentry i hi hfunc]
    exact ⟨hpending.2, hhandle⟩
  · intro hclean
    rw [cxaFinalize_fst, AtExit.runAll_eq, due]
    refine List.filter_congr fun i hi => decide_eq_decide.mpr ?_
    rw [List.mem_reverse, List.mem_range] at hi
    constructor
    · intro hfunc
      obtain ⟨hran, hhandle⟩ := hclean i hi hfunc
      have hsame := hentry i hi hfunc
      rw [hsame] at hfunc hhandle
      exact ⟨⟨hfunc, hran⟩, hhandle⟩
    · rintro ⟨hpending, -⟩ hzero
      exact h.cleared i hi hzero hpending

theorem due_nodup : (s.due d).Nodup := (List.nodup_reverse.mpr List.nodup_range).filter _

theorem ran_nodup (h : ∀ done d, done ++ [.finalize d] <+: ops →
    ((after done).table.cxaFinalize d).1 = (after done).due d) : (after ops).ran.Nodup := by
  induction ops using List.reverseRecOn with
  | nil => exact List.nodup_nil
  | append_singleton ops op ih =>
    have hnodup := ih fun done d hdone => h done d (hdone.trans (List.prefix_append _ _))
    have hcall : after (ops ++ [op]) = (after ops).call op := List.foldl_append
    rw [hcall]
    cases op with
    | register f arg dso => exact hnodup
    | finalize d =>
      have hran : ((after ops).call (.finalize d)).ran = (after ops).ran ++ (after ops).due d := by
        rw [← h ops d (List.prefix_refl _)]
        rfl
      rw [hran]
      refine List.nodup_append.mpr ⟨hnodup, due_nodup, fun i hi j hj hij => ?_⟩
      exact (mem_due.mp hj).2.1.2 (hij ▸ hi)

end AtExitState

/-- The runs whose destructors are run rightly are those whose finalizations are clean. -/
theorem destructorsRight_iff (ops : List AtExitOp) : DestructorsRight ops ↔
    ∀ done d, done ++ [.finalize d] <+: ops → (AtExitState.after done).Clean d := by
  constructor
  · intro h done d hdone
    exact (AtExitState.exact_iff (.after done)).mp (h.exact done d hdone)
  · intro h
    have hexact : ∀ done d, done ++ [.finalize d] <+: ops →
        ((AtExitState.after done).table.cxaFinalize d).1 = (AtExitState.after done).due d :=
      fun done d hdone => (AtExitState.exact_iff (.after done)).mpr (h done d hdone)
    refine ⟨fun done f arg dso _ => ?_, hexact, AtExitState.ran_nodup hexact⟩
    rw [AtExit.atexit]
    split_ifs with hfull
    · exact iff_of_true (show (1 : Int32) ≠ 0 by decide) hfull
    · exact iff_of_false (show ¬ (0 : Int32) ≠ 0 by decide) hfull

/-- A destructor of one object is run for the handle of another; and a second time, for a null handle. -/
theorem destructor_runs_twice :
    ((AtExitState.after [.register 7 0 1]).table.cxaFinalize 2).1 = [0] ∧
    (AtExitState.after [.register 7 0 1]).due 2 = [] ∧
    (AtExitState.after [.register 7 0 1, .finalize 0, .finalize 0]).ran = [0, 0] ∧
    ¬ DestructorsRight [.register 7 0 1, .finalize 2] ∧
    ¬ DestructorsRight [.register 7 0 1, .finalize 0, .finalize 0] := by
  refine ⟨by decide, by decide, by decide, fun h => ?_, fun h => ?_⟩
  · have hexact := h.exact [.register 7 0 1] 2 (List.prefix_refl _)
    exact absurd hexact (by decide)
  · exact absurd h.once (by decide)

end OpenNE

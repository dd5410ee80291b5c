import OpenNE.Base.Since
import OpenNE.Process.UserProcess

/-!
# The semaphore (`KernelKit/Semaphore.h`, `src/Semaphore.cc`)

The semaphore holds a copy of the record of the process that locked it, and is locked while that copy is running:
which process holds it is what its history says (`Holds`). `LockOrWait` locks twice and returns what the second
attempt returns, though the first may have been the successful one.
-/

namespace OpenNE

/-- `UserProcess::operator bool`. -/
def UserProcess.operatorBool (process : UserProcess) : Bool := process.status = .kRunning

/-- `Semaphore`: the record its reference is to. -/
structure Semaphore where
  fLockingProcess : UserProcess := {}

namespace Semaphore

/-- `Unlock`. -/
def unlock (sem : Semaphore) : Bool × Semaphore :=
  if sem.fLockingProcess.operatorBool then (true, { sem with fLockingProcess := {} }) else (false, sem)

/-- `Lock`. -/
def lock (process : UserProcess) (sem : Semaphore) : Bool × Semaphore :=
  if !process.operatorBool || sem.fLockingProcess.operatorBool then (false, sem)
  else (true, { sem with fLockingProcess := process })

/-- `IsLocked`. -/
def isLocked (sem : Semaphore) : Bool := sem.fLockingProcess.operatorBool

end Semaphore

/-! ### The processes and their semaphore -/

/-- A step: a call, or a change to the record of a process. -/
inductive SemOp (ι : Type) where
  | lock (p : ι)
  | unlock
  | change (p : ι) (process : UserProcess)

structure SemState (ι : Type) where
  process : ι → UserProcess
  sem : Semaphore

section Run

variable {ι : Type} [DecidableEq ι]

/-- A step, and what its call returns. -/
def SemOp.run (s : SemState ι) : SemOp ι → Bool × SemState ι
  | lock p =>
    let (ret, sem) := s.sem.lock (s.process p)
    (ret, { s with sem := sem })
  | unlock =>
    let (ret, sem) := s.sem.unlock
    (ret, { s with sem := sem })
  | change p process => (true, { s with process := Function.update s.process p process })

namespace SemState

/-- A semaphore that nobody has locked. -/
def new (process : ι → UserProcess) : SemState ι := ⟨process, {}⟩

/-- The state behind the steps. -/
def after (s : SemState ι) (ops : List (SemOp ι)) : SemState ι := ops.foldl (fun s op => (op.run s).2) s

/-- The steps with what they return. -/
def log (s : SemState ι) : List (SemOp ι) → List (SemOp ι × Bool)
  | [] => []
  | op :: ops => (op, (op.run s).1) :: log (op.run s).2 ops

/-- `Semaphore::LockOrWait`. Of a timer this is what the others do while it waits. -/
def lockOrWait (p : ι) (timer : Option (List (SemOp ι))) (s : SemState ι) : Bool × SemState ι :=
  match timer with
  | none => (false, s)
  | some others =>
    let (_, s) := SemOp.run s (.lock p)
    let s := s.after others
    SemOp.run s (.lock p)

end SemState

/-- The steps of `LockOrWait` before its last attempt. -/
def untilLast (p : ι) : Option (List (SemOp ι)) → List (SemOp ι)
  | none => []
  | some others => .lock p :: others

/-- The last attempt. -/
def lastAttempt (p : ι) : Option (List (SemOp ι)) → List (SemOp ι)
  | none => []
  | some _ => [.lock p]

/-! ### What it is for -/

/-- The semaphore was locked for `p`, and was not unlocked since. -/
def Holds (s : SemState ι) (ops : List (SemOp ι)) (p : ι) : Prop := Since (.lock p, true) (.unlock, true) (s.log ops)

/-- Behind the steps `ops`, the call returns whether the process holds the semaphore then. -/
def LockOrWaitRight (s : SemState ι) (ops : List (SemOp ι)) (p : ι) (timer : Option (List (SemOp ι))) : Prop :=
  ((s.after ops).lockOrWait p timer).1 = true ↔ Holds s (ops ++ untilLast p timer ++ lastAttempt p timer) p

/-! ### Steps -/

variable {s : SemState ι} {ops others : List (SemOp ι)} {op : SemOp ι} {p q : ι}

theorem after_append : s.after (ops ++ others) = (s.after ops).after others := List.foldl_append

theorem log_append : s.log (ops ++ others) = s.log ops ++ (s.after ops).log others := by
  induction ops generalizing s with
  | nil => rfl
  | cons op ops ih =>
    rw [List.cons_append, SemState.log, ih, SemState.log, List.cons_append]
    rfl

theorem log_snoc : s.log (ops ++ [op]) = s.log ops ++ [(op, (op.run (s.after ops)).1)] := log_append

theorem lock_iff :
    (SemOp.run s (.lock p)).1 = true ↔ (s.process p).operatorBool = true ∧ ¬ s.sem.isLocked = true := by
  rw [SemOp.run, Semaphore.lock, Semaphore.isLocked]
  cases (s.process p).operatorBool <;> cases s.sem.fLockingProcess.operatorBool <;> simp

theorem unlock_iff : (SemOp.run s .unlock).1 = true ↔ s.sem.isLocked = true := by
  rw [SemOp.run, Semaphore.unlock, Semaphore.isLocked]
  cases s.sem.fLockingProcess.operatorBool <;> simp

theorem isLocked_run : (op.run s).2.sem.isLocked = true ↔
    (∃ p, op = .lock p ∧ (op.run s).1 = true) ∨ ¬ (op = .unlock ∧ (op.run s).1 = true) ∧ s.sem.isLocked = true := by
  cases op with
  | lock p =>
    rw [SemOp.run, Semaphore.lock, Semaphore.isLocked, Semaphore.isLocked]
    cases hp : (s.process p).operatorBool <;> cases hs : s.sem.fLockingProcess.operatorBool <;> simp [hp, hs]
  | unlock =>
    rw [SemOp.run, Semaphore.unlock, Semaphore.isLocked, Semaphore.isLocked]
    cases hs : s.sem.fLockingProcess.operatorBool
    · simp [hs]
    · simp [UserProcess.operatorBool]
  | change p process => simp [SemOp.run]

/-! ### Histories -/

theorem holds_snoc : Holds s (ops ++ [op]) p ↔
    op = .lock p ∧ (op.run (s.after ops)).1 = true ∨
      ¬ (op = .unlock ∧ (op.run (s.after ops)).1 = true) ∧ Holds s ops p := by
  rw [Holds, log_snoc, since_snoc, Prod.mk.injEq, ne_eq, Prod.mk.injEq]
  exact Iff.rfl

theorem isLocked_after (hs : s.sem.isLocked = false) :
    (s.after ops).sem.isLocked = true ↔ ∃ p, Holds s ops p := by
  induction ops using List.reverseRecOn with
  | nil =>
    have hfree : ¬ (s.after []).sem.isLocked = true := Bool.not_eq_true _ ▸ hs
    exact iff_of_false hfree fun ⟨p, h⟩ => not_since_nil h
  | append_singleton ops op ih =>
    have hlast : (s.after (ops ++ [op])).sem.isLocked = (op.run (s.after ops)).2.sem.isLocked := by
      rw [after_append]
      rfl
    rw [hlast, isLocked_run, ih]
    simp only [holds_snoc, exists_or, exists_and_left]

theorem holds_unique (hs : s.sem.isLocked = false) (hp : Holds s ops p) (hq : Holds s ops q) : p = q := by
  -- who locks it, locks it while nobody holds it
  have hnew : ∀ {ops : List (SemOp ι)} {p q : ι}, (SemOp.run (s.after ops) (.lock p)).1 = true → ¬ Holds s ops q :=
    fun hlock hold => (lock_iff.mp hlock).2 ((isLocked_after hs).mpr ⟨_, hold⟩)
  induction ops using List.reverseRecOn with
  | nil => exact absurd hp not_since_nil
  | append_singleton ops op ih =>
    rcases holds_snoc.mp hp with ⟨rfl, hlock⟩ | ⟨-, hold⟩
    · rcases holds_snoc.mp hq with ⟨hsame, -⟩ | ⟨-, hold⟩
      · exact SemOp.lock.inj hsame
      · exact absurd hold (hnew hlock)
    · rcases holds_snoc.mp hq with ⟨rfl, hlock⟩ | ⟨-, hold'⟩
      · exact absurd hold (hnew hlock)
      · exact ih hold hold'

theorem not_holds_unlock (hs : s.sem.isLocked = false) : ¬ Holds s (ops ++ [.unlock]) p := by
  intro h
  rcases holds_snoc.mp h with ⟨hlock, -⟩ | ⟨hkept, hold⟩
  · cases hlock
  · exact hkept ⟨rfl, unlock_iff.mpr ((isLocked_after hs).mpr ⟨p, hold⟩)⟩

theorem holds_others (hs : s.sem.isLocked = false) (hothers : .lock p ∉ others) :
    Holds s (ops ++ others) p ↔ .unlock ∉ others ∧ Holds s ops p := by
  induction others using List.reverseRecOn with
  | nil =>
    rw [List.append_nil]
    exact (and_iff_right List.not_mem_nil).symm
  | append_singleton others op ih =>
    rw [List.mem_append, List.mem_singleton, not_or] at hothers
    rw [← List.append_assoc, List.mem_append, List.mem_singleton, not_or]
    by_cases hop : op = .unlock
    · subst hop
      exact iff_of_false (not_holds_unlock hs) fun h => h.1.2 rfl
    · rw [holds_snoc, ih hothers.1, or_iff_right fun h => hothers.2 h.1.symm, and_iff_right fun h => hop h.1,
        and_iff_left (Ne.symm hop)]

theorem holds_lock (hs : s.sem.isLocked = false) : Holds s (ops ++ [.lock p]) p ↔
    Holds s ops p ∨ ((s.after ops).process p).operatorBool = true ∧ ∀ q, ¬ Holds s ops q := by
  have hnone : (∀ q, ¬ Holds s ops q) ↔ ¬ (s.after ops).sem.isLocked = true := by
    rw [isLocked_after hs, not_exists]
  rw [holds_snoc, hnone, and_iff_right rfl, lock_iff, or_comm, and_iff_right fun h => nomatch h.1]

theorem lockOrWaitRight_iff (hs : s.sem.isLocked = false) (timer : Option (List (SemOp ι))) :
    LockOrWaitRight s ops p timer ↔ ¬ Holds s (ops ++ untilLast p timer) p := by
  cases timer with
  | none =>
    rw [LockOrWaitRight, untilLast, lastAttempt, List.append_nil, List.append_nil]
    simp [SemState.lockOrWait]
  | some others =>
    have hanswer : ((s.after ops).lockOrWait p (some others)).1 =
        (SemOp.run (s.after (ops ++ untilLast p (some others))) (.lock p)).1 := by
      rw [after_append]
      rfl
    rw [LockOrWaitRight, lastAttempt, hanswer, holds_snoc, and_iff_right rfl]
    constructor
    · intro hright hold
      have hlock := hright.mpr (.inr ⟨fun h => (nomatch h.1), hold⟩)
      exact (lock_iff.mp hlock).2 ((isLocked_after hs).mpr ⟨p, hold⟩)
    · intro hfree
      exact (or_iff_left fun h => hfree h.2).symm

end Run

section System

variable {ι : Type} [DecidableEq ι]

/-- At most one process holds the semaphore, and both calls say who does; `LockOrWait` is right exactly when the
process does not hold it before the last attempt: when it could neither get it by the first nor had it already, or
somebody unlocked it during the wait. -/
theorem semaphore_iff (process : ι → UserProcess) (ops : List (SemOp ι)) :
    (∀ p q, Holds (.new process) ops p → Holds (.new process) ops q → p = q) ∧
      (∀ p, (SemOp.run (SemState.after (.new process) ops) (.lock p)).1 = true ↔
        ((SemState.after (.new process) ops).process p).operatorBool = true ∧ ∀ q, ¬ Holds (.new process) ops q) ∧
      ((SemOp.run (SemState.after (.new process) ops) .unlock).1 = true ↔ ∃ q, Holds (.new process) ops q) ∧
      (∀ q, ¬ Holds (.new process) (ops ++ [.unlock]) q) ∧
      (∀ p timer, LockOrWaitRight (.new process) ops p timer ↔
        ¬ Holds (.new process) (ops ++ untilLast p timer) p) ∧
      ∀ p others, .lock p ∉ others → (Holds (.new process) (ops ++ untilLast p (some others)) p ↔
        .unlock ∉ others ∧ (Holds (.new process) ops p ∨
          ((SemState.after (.new process) ops).process p).operatorBool = true ∧
            ∀ q, ¬ Holds (.new process) ops q)) := by
  have hs : (SemState.new process).sem.isLocked = false := rfl
  refine ⟨fun p q => holds_unique hs, fun p => ?_, ?_, fun q => not_holds_unlock hs,
    fun p timer => lockOrWaitRight_iff hs timer, fun p others hothers => ?_⟩
  · rw [lock_iff, isLocked_after hs, not_exists]
  · rw [unlock_iff, isLocked_after hs]
  · rw [untilLast, List.append_cons, holds_others hs hothers, holds_lock hs]

end System

/-- One running process and its semaphore. -/
def runningAlone : SemState Unit := .new fun _ => { status := .kRunning }

/-- With an `Unlock` during its wait it locks the semaphore twice, and is told so. -/
theorem lockOrWait_unlocked : LockOrWaitRight runningAlone [] () (some [.unlock]) := by
  obtain ⟨-, -, -, -, hright, hwait⟩ := semaphore_iff (fun _ : Unit => ({ status := .kRunning } : UserProcess)) []
  refine (hright () (some [.unlock])).mpr fun hold => ?_
  have hothers : SemOp.lock () ∉ [SemOp.unlock] := by
    rw [List.mem_singleton]
    exact nofun
  exact ((hwait () [.unlock] hothers).mp hold).1 List.mem_cons_self

/-- It locks the semaphore at once, waits while nobody does anything, and is told that it does not hold it. -/
theorem lockOrWait_self : (runningAlone.lockOrWait () (some [])).1 = false ∧
    Holds runningAlone (untilLast () (some []) ++ lastAttempt () (some [])) () ∧
    ¬ LockOrWaitRight runningAlone [] () (some []) := by
  have hs : runningAlone.sem.isLocked = false := rfl
  have hold : Holds runningAlone ([] ++ untilLast () (some [])) () :=
    (holds_lock hs).mpr (.inr ⟨rfl, fun _ => not_since_nil⟩)
  refine ⟨by decide, ?_, fun hright => (lockOrWaitRight_iff hs _).mp hright hold⟩
  exact holds_snoc.mpr (.inr ⟨fun h => (nomatch h.1), hold⟩)

end OpenNE

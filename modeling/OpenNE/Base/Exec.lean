import Mathlib.Order.Basic
import Mathlib.Tactic.Common

/-!
# Calls that return, stop or go on

A kernel call either returns, stops (a runtime check fails, or it touches memory it may not touch), or is
still running when its step budget is used up. `Exec` is the result type and `loop` the budgeted loop;
a source loop is a `loop` of its body. What the rest uses: a loop that returned does so with any larger
budget (`loop_mono`), and what every round preserves holds of the result (`loop_invariant`).
-/

namespace OpenNE

/-- Why a call did not return. -/
inductive Stop where
  /-- the step budget is used up -/
  | unfinished
  /-- a runtime check failed -/
  | panic
  /-- an access outside of the object it is meant for -/
  | fault
  deriving DecidableEq, Repr

abbrev Exec := Except Stop

/-- A failed runtime check stops a debug build and is compiled out of the others. -/
def mustPass (debug expr : Bool) : Exec Unit :=
  if debug && !expr then .error .panic else .ok ()

theorem mustPass_eq (debug expr : Bool) :
    mustPass debug expr = if debug = true ∧ expr = false then .error .panic else .ok () := by
  cases debug <;> cases expr <;> rfl

/-- A pointer followed. -/
def deref {α : Type} : Option α → Exec α
  | some a => .ok a
  | none => .error .fault

namespace Exec

variable {α β : Type}

theorem bind_eq_ok {call : Exec α} {next : α → Exec β} {r : β} :
    (call >>= next) = .ok r ↔ ∃ a, call = .ok a ∧ next a = .ok r := by
  rcases call with e | a <;> simp [bind, Except.bind]

theorem exists_of_map {call : Exec α} {f : α → β} {b : β} (h : call.map f = .ok b) :
    ∃ a, call = .ok a ∧ f a = b := by
  rcases call with e | a
  · cases h
  · exact ⟨a, rfl, Except.ok.inj h⟩

/-- The call touches nothing it may not touch. -/
def NoFault (call : Exec α) : Prop := call ≠ .error .fault

theorem NoFault.ok (a : α) : NoFault (.ok a : Exec α) := by
  intro h
  cases h

theorem NoFault.bind {call : Exec α} {next : α → Exec β} (hcall : NoFault call)
    (hnext : ∀ a, call = .ok a → NoFault (next a)) : NoFault (call >>= next) := by
  rcases call with e | a
  · intro h
    exact hcall (by simpa [Bind.bind, Except.bind] using h)
  · exact hnext a rfl

@[simp] theorem ok_bind (a : α) (f : α → Exec β) : (Except.ok a >>= f : Exec β) = f a := rfl

@[simp] theorem error_bind (e : Stop) (f : α → Exec β) : (Except.error e >>= f : Exec β) = .error e := rfl

@[simp] theorem pure_eq_ok (a : α) : (pure a : Exec α) = .ok a := rfl

@[simp] theorem throw_eq_error (e : Stop) : (throw e : Exec α) = .error e := rfl

end Exec

/-! ### Budgeted loops -/

section Loop

variable {σ α : Type} (body : σ → Exec (σ ⊕ α))

/-- Rounds of `body` until one of them leaves the loop, at most `fuel` of them. -/
def loop : Nat → σ → Exec α
  | 0, _ => .error .unfinished
  | fuel + 1, s =>
    match body s with
    | .error e => .error e
    | .ok (.inl s') => loop fuel s'
    | .ok (.inr a) => .ok a

/-- The states at the start of each round. -/
def loopStates : Nat → σ → List σ
  | 0, _ => []
  | fuel + 1, s =>
    match body s with
    | .ok (.inl s') => s :: loopStates fuel s'
    | _ => [s]

variable {body}

theorem loop_succ_next {s s' : σ} (h : body s = .ok (.inl s')) (fuel : Nat) :
    loop body (fuel + 1) s = loop body fuel s' := by
  simp only [loop, h]

theorem loop_succ_leave {s : σ} {a : α} (h : body s = .ok (.inr a)) (fuel : Nat) :
    loop body (fuel + 1) s = .ok a := by
  simp only [loop, h]

theorem loop_succ_error {s : σ} {e : Stop} (h : body s = .error e) (fuel : Nat) :
    loop body (fuel + 1) s = .error e := by
  simp only [loop, h]

theorem loop_after_rounds {s : Nat → σ} {n : Nat} (hnext : ∀ k < n, body (s k) = .ok (.inl (s (k + 1))))
    (fuel : Nat) : loop body (n + fuel) (s 0) = loop body fuel (s n) := by
  induction n generalizing s with
  | zero => rw [Nat.zero_add]
  | succ n ih =>
    rw [Nat.add_right_comm, loop_succ_next (hnext 0 (by omega))]
    exact ih (s := fun k => s (k + 1)) (fun k hk => hnext (k + 1) (by omega))

theorem loop_result_of_rounds {s : Nat → σ} {n : Nat} (hnext : ∀ k < n, body (s k) = .ok (.inl (s (k + 1))))
    {result : Exec α} (hlast : ∀ rest, loop body (rest + 1) (s n) = result) {fuel : Nat} (hfuel : n < fuel) :
    loop body fuel (s 0) = result := by
  obtain ⟨rest, rfl⟩ : ∃ rest, fuel = n + (rest + 1) := ⟨fuel - n - 1, by omega⟩
  rw [loop_after_rounds hnext, hlast]

theorem loop_of_rounds {s : Nat → σ} {n : Nat} {a : α}
    (hnext : ∀ k < n, body (s k) = .ok (.inl (s (k + 1)))) (hleave : body (s n) = .ok (.inr a)) :
    loop body (n + 1) (s 0) = .ok a := by
  rw [loop_after_rounds hnext]
  exact loop_succ_leave hleave 0

theorem rounds_of_loop {s : Nat → σ} {fuel : Nat} {a : α}
    (hbody : ∀ k, body (s k) = .ok (.inl (s (k + 1))) ∨ ∃ b, body (s k) = .ok (.inr b))
    (h : loop body fuel (s 0) = .ok a) :
    ∃ n, (∀ k < n, body (s k) = .ok (.inl (s (k + 1)))) ∧ body (s n) = .ok (.inr a) := by
  induction fuel generalizing s with
  | zero => cases h
  | succ fuel ih =>
    rcases hbody 0 with hnext | ⟨b, hleave⟩
    · rw [loop_succ_next hnext] at h
      obtain ⟨n, hrounds, hlast⟩ := ih (s := fun k => s (k + 1)) (fun k => hbody (k + 1)) h
      refine ⟨n + 1, fun k hk => ?_, hlast⟩
      cases k with
      | zero => exact hnext
      | succ k => exact hrounds k (Nat.lt_of_succ_lt_succ hk)
    · rw [loop_succ_leave hleave] at h
      cases h
      exact ⟨0, fun k hk => absurd hk (Nat.not_lt_zero k), hleave⟩

theorem loopStates_of_rounds {s : Nat → σ} {n : Nat} {a : α}
    (hnext : ∀ k < n, body (s k) = .ok (.inl (s (k + 1)))) (hleave : body (s n) = .ok (.inr a))
    (fuel : Nat) : loopStates body fuel (s 0) = ((List.range (n + 1)).map s).take fuel := by
  induction fuel generalizing s n with
  | zero => rfl
  | succ fuel ih =>
    rw [List.range_succ_eq_map, List.map_cons, List.map_map, List.take_succ_cons]
    cases n with
    | zero => simp [loopStates, hleave]
    | succ n =>
      simp only [loopStates, hnext 0 (by omega)]
      congr 1
      exact ih (s := fun k => s (k + 1)) (fun k hk => hnext (k + 1) (by omega)) hleave

theorem loop_mono {fuel fuel' : Nat} {s : σ} {a : α} (hle : fuel ≤ fuel')
    (h : loop body fuel s = .ok a) : loop body fuel' s = .ok a := by
  induction fuel generalizing fuel' s with
  | zero => simp [loop] at h
  | succ fuel ih =>
    obtain ⟨k, rfl⟩ : ∃ k, fuel' = k + 1 := ⟨fuel' - 1, by omega⟩
    rcases hbody : body s with e | s' | r
    · rw [loop_succ_error hbody] at h
      cases h
    · rw [loop_succ_next hbody] at h ⊢
      exact ih (by omega) h
    · rw [loop_succ_leave hbody] at h ⊢
      exact h

theorem loop_unique {fuel fuel' : Nat} {s : σ} {a b : α} (ha : loop body fuel s = .ok a)
    (hb : loop body fuel' s = .ok b) : a = b := by
  rcases Nat.le_total fuel fuel' with hle | hle
  · rw [loop_mono hle ha] at hb
    exact Except.ok.inj hb
  · rw [loop_mono hle hb] at ha
    exact (Except.ok.inj ha).symm

theorem loop_congr {body' : σ → Exec (σ ⊕ α)} (inv : σ → Prop) (hsame : ∀ s, inv s → body' s = body s)
    (hnext : ∀ s s', inv s → body s = .ok (.inl s') → inv s') (fuel : Nat) {s : σ} (hs : inv s) :
    loop body' fuel s = loop body fuel s := by
  induction fuel generalizing s with
  | zero => rfl
  | succ fuel ih =>
    have hround := hsame s hs
    rcases hbody : body s with e | s' | r
    · rw [loop_succ_error hbody, loop_succ_error (hround.trans hbody)]
    · rw [loop_succ_next hbody, loop_succ_next (hround.trans hbody)]
      exact ih (hnext s s' hs hbody)
    · rw [loop_succ_leave hbody, loop_succ_leave (hround.trans hbody)]

/-- What each round preserves and each leaving round turns into `post` holds of the result. -/
theorem loop_invariant (inv : σ → Prop) (post : α → Prop)
    (hnext : ∀ s s', inv s → body s = .ok (.inl s') → inv s')
    (hleave : ∀ s a, inv s → body s = .ok (.inr a) → post a)
    {fuel : Nat} {s : σ} {a : α} (hs : inv s) (h : loop body fuel s = .ok a) : post a := by
  induction fuel generalizing s with
  | zero => simp [loop] at h
  | succ fuel ih =>
    rcases hbody : body s with e | s' | r
    · rw [loop_succ_error hbody] at h
      cases h
    · rw [loop_succ_next hbody] at h
      exact ih (hnext s s' hs hbody) h
    · rw [loop_succ_leave hbody] at h
      cases h
      exact hleave s a hs hbody

end Loop

end OpenNE

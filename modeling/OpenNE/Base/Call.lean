import OpenNE.Base.Exec

/-!
# Calls on a state that is kept when they stop

An `Exec` that stops says nothing about the state it stopped in. A `Call` does: what it did up to the stop
stands, also when a budgeted loop of it is still running. `Keeps inv post call`: from a state of `inv` the
call is in a state of `inv` when it returns, stops or runs out of budget, and what it returns is in `post`.
The rules follow the shape of the call.
-/

namespace OpenNE

/-- A call, with the state it leaves behind. -/
def Call (σ α : Type) := σ → Exec α × σ

namespace Call

variable {σ α β τ : Type}

protected def pure (a : α) : Call σ α := fun s => (.ok a, s)

protected def bind (call : Call σ α) (next : α → Call σ β) : Call σ β := fun s =>
  match call s with
  | (.ok a, s') => next a s'
  | (.error e, s') => (.error e, s')

instance : Monad (Call σ) where
  pure := Call.pure
  bind := Call.bind

def stop (e : Stop) : Call σ α := fun s => (.error e, s)

/-- A part of the state read. -/
def gets (f : σ → α) : Call σ α := fun s => (.ok (f s), s)

def modify (f : σ → σ) : Call σ Unit := fun s => (.ok (), f s)

/-- A call that does not look at the state. -/
def lift (x : Exec α) : Call σ α := fun s => (x, s)

/-- Rounds of `body` until one of them leaves the loop, at most `fuel` of them. -/
def rounds (body : τ → Call σ (τ ⊕ α)) : Nat → τ → Call σ α
  | 0, _ => stop .unfinished
  | fuel + 1, t => body t >>= fun
    | .inl t' => rounds body fuel t'
    | .inr a => pure a

/-- The calls `ops`, one after the other, up to the first that stops. -/
def all (call : τ → Call σ Unit) : List τ → Call σ Unit
  | [] => pure ()
  | op :: ops => call op >>= fun _ => all call ops

theorem bind_of_ok {call : Call σ α} {next : α → Call σ β} {s s' : σ} {a : α} (h : call s = (.ok a, s')) :
    (call >>= next) s = next a s' := by
  show Call.bind call next s = next a s'
  rw [Call.bind, h]

theorem bind_of_error {call : Call σ α} {next : α → Call σ β} {s s' : σ} {e : Stop} (h : call s = (.error e, s')) :
    (call >>= next) s = (.error e, s') := by
  show Call.bind call next s = (.error e, s')
  rw [Call.bind, h]

theorem lift_bind_of_ok {x : Exec α} {next : α → Call σ β} {s : σ} {a : α} (h : x = .ok a) :
    (lift x >>= next) s = next a s :=
  bind_of_ok (congrArg (fun x => (x, s)) h)

theorem gets_bind {f : σ → α} {next : α → Call σ β} {s : σ} : (gets f >>= next) s = next (f s) s :=
  bind_of_ok rfl

theorem modify_bind {f : σ → σ} {next : Unit → Call σ β} {s : σ} : (modify f >>= next) s = next () (f s) :=
  bind_of_ok rfl

theorem bind_eq_ok {call : Call σ α} {next : α → Call σ β} {s : σ} {b : β} :
    ((call >>= next) s).1 = .ok b ↔ ∃ a s', call s = (.ok a, s') ∧ (next a s').1 = .ok b := by
  show (Call.bind call next s).1 = .ok b ↔ _
  rcases hret : call s with ⟨e | a, s'⟩
  · simp [Call.bind, hret]
  · simp [Call.bind, hret]

theorem lift_bind_eq_ok {x : Exec α} {next : α → Call σ β} {s : σ} {b : β} :
    ((lift x >>= next) s).1 = .ok b ↔ ∃ a, x = .ok a ∧ (next a s).1 = .ok b := by
  rw [bind_eq_ok]
  simp [lift]

section Rounds

variable {body : τ → Call σ (τ ⊕ α)} {t t' : τ} {s s' : σ} {r : Exec (τ ⊕ α)} {a : α} {e : Stop}

theorem rounds_next (h : body t s = (.ok (.inl t'), s')) (fuel : Nat) :
    rounds body (fuel + 1) t s = rounds body fuel t' s' :=
  bind_of_ok h

theorem rounds_leave (h : body t s = (.ok (.inr a), s')) (fuel : Nat) :
    rounds body (fuel + 1) t s = (.ok a, s') :=
  bind_of_ok h

theorem rounds_error (h : body t s = (.error e, s')) (fuel : Nat) :
    rounds body (fuel + 1) t s = (.error e, s') :=
  bind_of_error h

theorem rounds_last (h : body t s = (r, s')) (hlast : ∀ t', r ≠ .ok (.inl t')) (fuel : Nat) :
    (rounds body (fuel + 1) t s).2 = s' := by
  rcases r with e | t' | a
  · rw [rounds_error h]
  · exact absurd rfl (hlast t')
  · rw [rounds_leave h]

theorem rounds_mono {fuel fuel' : Nat} (hle : fuel ≤ fuel') (h : rounds body fuel t s = (.ok a, s')) :
    rounds body fuel' t s = (.ok a, s') := by
  induction fuel generalizing fuel' t s with
  | zero => cases h
  | succ fuel ih =>
    obtain ⟨rest, rfl⟩ : ∃ rest, fuel' = rest + 1 := ⟨fuel' - 1, by omega⟩
    rcases hbody : body t s with ⟨e | t' | b, s''⟩
    · rw [rounds_error hbody] at h
      cases h
    · rw [rounds_next hbody] at h ⊢
      exact ih (by omega) h
    · rw [rounds_leave hbody] at h ⊢
      exact h

end Rounds

/-! ### What a call keeps -/

def Keeps (inv : σ → Prop) (post : α → Prop) (call : Call σ α) : Prop :=
  ∀ s, inv s → inv (call s).2 ∧ ∀ a, (call s).1 = .ok a → post a

section Keeps

variable {inv : σ → Prop} {post : α → Prop} {post' : β → Prop}

theorem Keeps.pure {a : α} (h : post a) : Keeps inv post (Pure.pure a : Call σ α) := by
  intro s hs
  refine ⟨hs, ?_⟩
  intro b hb
  cases hb
  exact h

theorem Keeps.stop (e : Stop) : Keeps inv post (stop e : Call σ α) := by
  intro s hs
  refine ⟨hs, ?_⟩
  intro a h
  cases h

theorem Keeps.gets {f : σ → α} (h : ∀ s, inv s → post (f s)) : Keeps inv post (gets f) := by
  intro s hs
  refine ⟨hs, ?_⟩
  intro a ha
  cases ha
  exact h s hs

theorem Keeps.modify {f : σ → σ} (h : ∀ s, inv s → inv (f s)) :
    Keeps inv (fun _ => True) (Call.modify f) := by
  intro s hs
  exact ⟨h s hs, fun _ _ => trivial⟩

theorem Keeps.lift (x : Exec α) : Keeps inv (fun _ => True) (lift x : Call σ α) := by
  intro s hs
  exact ⟨hs, fun _ _ => trivial⟩

theorem Keeps.bind {call : Call σ α} {next : α → Call σ β} (hcall : Keeps inv post call)
    (hnext : ∀ a, post a → Keeps inv post' (next a)) : Keeps inv post' (call >>= next) := by
  intro s hs
  obtain ⟨hinv, hpost⟩ := hcall s hs
  rcases hret : call s with ⟨e | a, s'⟩
  · show inv (Call.bind call next s).2 ∧ ∀ b, (Call.bind call next s).1 = .ok b → post' b
    rw [Call.bind, hret]
    rw [hret] at hinv
    refine ⟨hinv, ?_⟩
    intro b h
    cases h
  · rw [hret] at hinv hpost
    rw [bind_of_ok hret]
    exact hnext a (hpost a rfl) s' hinv

theorem Keeps.seq {call : Call σ α} {next : α → Call σ β} (hcall : Keeps inv (fun _ => True) call)
    (hnext : ∀ a, Keeps inv post' (next a)) : Keeps inv post' (call >>= next) := by
  apply hcall.bind
  intro a _
  exact hnext a

theorem Keeps.after {call : Call σ α} {next : α → Call σ β} {s : σ} (hcall : inv (call s).2)
    (hnext : ∀ a, Keeps inv (fun _ => True) (next a)) : inv ((call >>= next) s).2 := by
  rcases hret : call s with ⟨e | a, s'⟩
  · rw [hret] at hcall
    show inv (Call.bind call next s).2
    rw [Call.bind, hret]
    exact hcall
  · rw [hret] at hcall
    rw [bind_of_ok hret]
    exact (hnext a s' hcall).1

theorem Keeps.rounds {body : τ → Call σ (τ ⊕ α)} {next : τ → Prop}
    (hbody : ∀ t, next t → Keeps inv (Sum.elim next post) (body t)) (fuel : Nat) {t : τ} (ht : next t) :
    Keeps inv post (rounds body fuel t) := by
  induction fuel generalizing t with
  | zero => exact .stop _
  | succ fuel ih =>
    apply Keeps.bind (hbody t ht)
    intro r hr
    cases r with
    | inl t' => exact ih hr
    | inr a => exact .pure hr

theorem Keeps.all {call : τ → Call σ Unit} (h : ∀ op, Keeps inv (fun _ => True) (call op)) (ops : List τ) :
    Keeps inv (fun _ => True) (all call ops) := by
  induction ops with
  | nil => exact .pure trivial
  | cons op ops ih => exact .bind (h op) fun _ _ => ih

end Keeps

end Call

end OpenNE

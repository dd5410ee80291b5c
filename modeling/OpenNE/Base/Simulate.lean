import OpenNE.Base.Call

/-!
# Calls seen through a view of their state

A `Call` may do to its state what a function does to a view of it. `Meets view rel d call x`: from every state whose
view is `d`, the call returns when `x` does, with a result and a view that `rel` relates to what `x` returns, and
stops for the reason `x` does otherwise. The rules follow the shape of the two; that for loops asks for one round
(`Meets.rounds`).
-/

namespace OpenNE

/-- From every state with the view `d` the call ends as `x`. -/
structure Meets {σ δ ρ α : Type} (view : σ → δ) (rel : ρ → α → δ → Prop) (d : δ) (call : Call σ α) (x : Exec ρ) :
    Prop where
  returns : ∀ r s, x = .ok r → view s = d → ∃ a s', call s = (.ok a, s') ∧ rel r a (view s')
  stops : ∀ e s, x = .error e → view s = d → ∃ s', call s = (.error e, s')

namespace Meets

variable {σ δ ρ ρ' α β τ τ' : Type} {view : σ → δ} {rel : ρ → α → δ → Prop} {rel' : ρ' → β → δ → Prop} {d : δ}
  {call : Call σ α} {x : Exec ρ} {y : Exec ρ'}

theorem ok {r : ρ} {s : σ} (h : Meets view rel d call (.ok r)) (hs : view s = d) :
    ∃ a s', call s = (.ok a, s') ∧ rel r a (view s') :=
  h.returns r s rfl hs

theorem error {e : Stop} {s : σ} (h : Meets view rel d call (.error e)) (hs : view s = d) :
    ∃ s', call s = (.error e, s') :=
  h.stops e s rfl hs

theorem of_ok {r : ρ} (h : ∀ s, view s = d → ∃ a s', call s = (.ok a, s') ∧ rel r a (view s')) :
    Meets view rel d call (.ok r) := by
  constructor
  · intro r' s hret hs
    cases hret
    exact h s hs
  · intro e s hstop hs
    cases hstop

theorem of_error {e : Stop} (h : ∀ s, view s = d → ∃ s', call s = (.error e, s')) :
    Meets view rel d call (.error e) := by
  constructor
  · intro r s hret hs
    cases hret
  · intro e' s hstop hs
    cases hstop
    exact h s hs

theorem pure {r : ρ} {a : α} (h : rel r a d) : Meets view rel d (Pure.pure a) (.ok r) := by
  apply of_ok
  intro s hs
  exact ⟨a, s, rfl, hs ▸ h⟩

theorem stop (e : Stop) : Meets view rel d (Call.stop e) (.error e) := by
  apply of_error
  intro s _
  exact ⟨s, rfl⟩

theorem lift {rel : α → α → δ → Prop} (x : Exec α) (h : ∀ a, rel a a d) : Meets view rel d (Call.lift x) x := by
  rcases x with e | a
  · exact .stop e
  · exact .pure (h a)

theorem ok_bind {r : ρ} {next : α → Call σ β} (hcall : Meets view rel d call (.ok r))
    (hnext : ∀ a d', rel r a d' → Meets view rel' d' (next a) y) : Meets view rel' d (call >>= next) y := by
  constructor
  · intro r' s hret hs
    obtain ⟨a, s', hend, hrel⟩ := hcall.ok hs
    rw [Call.bind_of_ok hend]
    exact (hnext a _ hrel).returns r' s' hret rfl
  · intro e s hstop hs
    obtain ⟨a, s', hend, hrel⟩ := hcall.ok hs
    rw [Call.bind_of_ok hend]
    exact (hnext a _ hrel).stops e s' hstop rfl

theorem error_bind {e : Stop} {next : α → Call σ β} (hcall : Meets view rel d call (.error e)) :
    Meets view rel' d (call >>= next) (.error e) := by
  apply of_error
  intro s hs
  obtain ⟨s', hend⟩ := hcall.error hs
  exact ⟨s', Call.bind_of_error hend⟩

theorem bind {next : α → Call σ β} {g : ρ → Exec ρ'} (hcall : Meets view rel d call x)
    (hnext : ∀ r a d', rel r a d' → Meets view rel' d' (next a) (g r)) :
    Meets view rel' d (call >>= next) (x >>= g) := by
  rcases x with e | r
  · exact hcall.error_bind
  · exact hcall.ok_bind (hnext r)

theorem map_bind {υ : Type} {z : Exec υ} {f : υ → ρ} {next : α → Call σ β} {g : υ → Exec ρ'}
    (hcall : Meets view rel d call (z.map f))
    (hnext : ∀ r a d', rel (f r) a d' → Meets view rel' d' (next a) (g r)) :
    Meets view rel' d (call >>= next) (z >>= g) := by
  rcases z with e | r
  · exact hcall.error_bind
  · exact hcall.ok_bind (hnext r)

theorem mono {rel₁ : ρ → α → δ → Prop} (hcall : Meets view rel d call x)
    (h : ∀ r a d', rel r a d' → rel₁ r a d') : Meets view rel₁ d call x := by
  refine ⟨?_, hcall.stops⟩
  intro r s hret hs
  obtain ⟨a, s', hend, hrel⟩ := hcall.returns r s hret hs
  exact ⟨a, s', hend, h r a _ hrel⟩

theorem map {f : α → β} {g : ρ → ρ'} (hcall : Meets view rel d call x)
    (h : ∀ r a d', rel r a d' → rel' (g r) (f a) d') :
    Meets view rel' d (call >>= fun a => Pure.pure (f a)) (x.map g) := by
  rcases x with e | r
  · exact hcall.error_bind
  · apply hcall.ok_bind
    intro a d' hrel
    exact .pure (h r a d' hrel)

theorem ite {c : Prop} [Decidable c] {other : Call σ α} {z : Exec ρ} (ht : c → Meets view rel d call x)
    (he : ¬c → Meets view rel d other z) : Meets view rel d (if c then call else other) (if c then x else z) := by
  by_cases h : c
  · rw [if_pos h, if_pos h]
    exact ht h
  · rw [if_neg h, if_neg h]
    exact he h

/-- What a round may hand on, the view as it was, or leave with. -/
def RoundRel (next : τ' → τ → Prop) (rel : ρ → α → δ → Prop) (d : δ) : τ' ⊕ ρ → τ ⊕ α → δ → Prop
  | .inl t', .inl t, d' => next t' t ∧ d' = d
  | .inr r, .inr a, d' => rel r a d'
  | _, _, _ => False

theorem rounds {next : τ' → τ → Prop} {body : τ → Call σ (τ ⊕ α)} {g : τ' → Exec (τ' ⊕ ρ)}
    (hbody : ∀ t' t, next t' t → Meets view (RoundRel next rel d) d (body t) (g t')) (fuel : Nat) {t' : τ'} {t : τ}
    (ht : next t' t) : Meets view rel d (Call.rounds body fuel t) (loop g fuel t') := by
  induction fuel generalizing t' t with
  | zero => exact .stop _
  | succ fuel ih =>
    have hloop : loop g (fuel + 1) t' = g t' >>= Sum.elim (fun t' => loop g fuel t') fun r => .ok r := by
      rw [loop]
      rcases g t' with e | (t' | r)
      all_goals rfl
    rw [hloop]
    apply Meets.bind (hbody t' t ht)
    intro r a d' hround
    cases r with
    | inl t' =>
      cases a with
      | inl t =>
        obtain ⟨hnext, rfl⟩ := hround
        exact ih hnext
      | inr a => exact hround.elim
    | inr r =>
      cases a with
      | inl t => exact hround.elim
      | inr a => exact .pure hround

theorem all {call : τ → Call σ Unit} {g : δ → τ → Exec δ}
    (h : ∀ d op, Meets view (fun d₁ _ d' => d' = d₁) d (call op) (g d op)) (ops : List τ) (d : δ) :
    Meets view (fun d₁ _ d' => d' = d₁) d (Call.all call ops) (ops.foldlM g d) := by
  induction ops generalizing d with
  | nil => exact .pure rfl
  | cons op ops ih =>
    rw [List.foldlM_cons]
    apply Meets.bind (h d op)
    intro d₁ _ d' hd
    subst hd
    exact ih d'

end Meets

end OpenNE

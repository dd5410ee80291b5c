import OpenNE.Base.Exec
import Mathlib.Computability.StateTransition
import Mathlib.Data.Fintype.EquivFin

/-!
# Walks that end

A budgeted call ends when some budget is enough for it (`Halts`). A loop whose rounds follow a partial successor
function ends exactly when the walk along that function does (`Follows.halts_iff`), and on finitely many places a
walk ends exactly when it meets no place twice (`eval_dom_iff`).
-/

namespace OpenNE

open StateTransition Relation

/-! ### Walks on finitely many places -/

section Walk

variable {α : Type} {f : α → Option α} {a b c : α}

/-- The walk from `a` comes back to a place it has been at. -/
def Circular (f : α → Option α) (a : α) : Prop := ∃ b, Reaches f a b ∧ Reaches₁ f b b

theorem Reaches.circle (h : Reaches f a b) (hcircle : Reaches₁ f a a) : Reaches₁ f b b := by
  induction h with
  | refl => exact hcircle
  | @tail b c _ hbc ih => exact TransGen.tail' (reaches₁_fwd ih hbc) hbc

theorem Circular.of_step (h : b ∈ f a) (hb : Circular f b) : Circular f a := by
  obtain ⟨c, hreach, hcircle⟩ := hb
  exact ⟨c, ReflTransGen.head h hreach, hcircle⟩

theorem Circular.of_self (h : a ∈ f a) : Circular f a :=
  ⟨a, .refl, .single h⟩

theorem not_circular_of_mem_eval (h : b ∈ eval f a) : ¬ Circular f a := by
  rintro ⟨c, hreach, hcircle⟩
  have hend := (mem_eval.mp h).1
  rcases reaches_total hend hreach with hbc | hcb
  · obtain rfl := (eval_maximal h).mp hbc
    exact eval_maximal₁ h c hcircle
  · exact eval_maximal₁ h b (Reaches.circle hcb hcircle)

theorem not_circular_of_stop (h : f a = none) : ¬ Circular f a :=
  not_circular_of_mem_eval (mem_eval.mpr ⟨.refl, h⟩)

theorem exists_mem_eval [Finite α] (h : ¬ Circular f a) : ∃ b, b ∈ eval f a := by
  let behind : α → α → Prop := fun x y => Reaches f a y ∧ Reaches₁ f y x
  have : Std.Irrefl behind := ⟨fun x hx => h ⟨x, hx⟩⟩
  have : IsTrans α behind := ⟨fun x y z hxy hyz => ⟨hyz.1, hyz.2.trans hxy.2⟩⟩
  have hwf : WellFounded behind := Finite.wellFounded_of_trans_of_irrefl behind
  have hall : ∀ b, Reaches f a b → ∃ c, c ∈ eval f b := by
    intro b
    induction b using hwf.induction with
    | _ b ih =>
      intro hb
      rcases hnext : f b with _ | c
      · exact ⟨b, mem_eval.mpr ⟨.refl, hnext⟩⟩
      · have hc : Reaches f a c := ReflTransGen.tail hb hnext
        obtain ⟨last, hlast⟩ := ih c ⟨hb, TransGen.single hnext⟩ hc
        refine ⟨last, ?_⟩
        rwa [reaches_eval (ReflTransGen.single hnext)]
  exact hall a .refl

/-- Addresses and sector numbers are finitely many places. -/
instance finite_uint64 : Finite UInt64 := Finite.of_injective UInt64.toFin fun _ _ h => UInt64.toFin_inj.mp h

theorem eval_dom_iff [Finite α] : (∃ b, b ∈ eval f a) ↔ ¬ Circular f a :=
  ⟨fun ⟨_, hb⟩ => not_circular_of_mem_eval hb, exists_mem_eval⟩

end Walk

/-! ### Calls that end -/

section Halts

variable {α β σ : Type}

/-- Some budget is enough. -/
def Halts (call : Nat → Exec α) : Prop := ∃ fuel, call fuel ≠ .error .unfinished

/-- A larger budget changes nothing once one was enough. -/
def Steady (call : Nat → Exec α) : Prop :=
  ∀ fuel fuel', fuel ≤ fuel' → call fuel ≠ .error .unfinished → call fuel' = call fuel

theorem Steady.const (x : Exec α) : Steady fun _ => x := fun _ _ _ _ => rfl

theorem halts_const {x : Exec α} (h : x ≠ .error .unfinished) : Halts fun _ => x := ⟨0, h⟩

theorem first_halts {call : Exec α} {next : α → Exec β} (h : (call >>= next) ≠ .error .unfinished) :
    call ≠ .error .unfinished := by
  rintro rfl
  exact h rfl

theorem Steady.bind {call : Nat → Exec α} {next : Nat → α → Exec β} (hcall : Steady call)
    (hnext : ∀ a, Steady fun fuel => next fuel a) : Steady fun fuel => call fuel >>= next fuel := by
  intro fuel fuel' hle hend
  have hsame := hcall fuel fuel' hle (first_halts hend)
  rcases hret : call fuel with e | a
  · simp only [hsame, hret, Exec.error_bind]
  · simp only [hret, Exec.ok_bind] at hend
    simp only [hsame, hret, Exec.ok_bind]
    exact hnext a fuel fuel' hle hend

theorem halts_bind {call : Nat → Exec α} {next : Nat → α → Exec β} (hcall : Steady call)
    (hnext : ∀ a, Steady fun fuel => next fuel a) :
    (Halts fun fuel => call fuel >>= next fuel) ↔
      Halts call ∧ ∀ fuel a, call fuel = .ok a → Halts fun fuel => next fuel a := by
  constructor
  · rintro ⟨fuel, hend⟩
    have hfirst := first_halts hend
    refine ⟨⟨fuel, hfirst⟩, fun fuel' a hret => ⟨fuel, ?_⟩⟩
    have hok : call fuel = .ok a := by
      rcases Nat.le_total fuel fuel' with hle | hle
      · rw [← hcall fuel fuel' hle hfirst, hret]
      · rw [hcall fuel' fuel hle (by rw [hret]; exact fun h => by cases h), hret]
    simp only [hok, Exec.ok_bind] at hend
    exact hend
  · rintro ⟨⟨fuel, hfirst⟩, hrest⟩
    rcases hret : call fuel with e | a
    · refine ⟨fuel, ?_⟩
      rw [hret] at hfirst
      simp only [hret, Exec.error_bind]
      exact fun h => hfirst (congrArg _ (Except.error.inj h))
    · obtain ⟨fuel', hsecond⟩ := hrest fuel a hret
      refine ⟨max fuel fuel', ?_⟩
      have hsame := hcall fuel _ (Nat.le_max_left fuel fuel') hfirst
      have hsame' := hnext a fuel' _ (Nat.le_max_right fuel fuel') hsecond
      simp only [hsame, hret, Exec.ok_bind]
      exact fun heq => hsecond (hsame'.symm.trans heq)

theorem Steady.map {call : Nat → Exec α} (hcall : Steady call) (g : α → β) :
    Steady fun fuel => (call fuel).map g := by
  intro fuel fuel' hle hend
  have hfirst : call fuel ≠ .error .unfinished := by
    intro heq
    simp only [heq] at hend
    exact hend rfl
  simp only [hcall fuel fuel' hle hfirst]

theorem halts_map {call : Nat → Exec α} {g : α → β} : (Halts fun fuel => (call fuel).map g) ↔ Halts call := by
  have hmap : ∀ x : Exec α, x.map g = .error .unfinished ↔ x = .error .unfinished := by
    intro x
    cases x with
    | error e => simp [Except.map]
    | ok a => simp [Except.map]
  exact exists_congr fun fuel => not_congr (hmap (call fuel))

variable {body : σ → Exec (σ ⊕ β)}

theorem loop_steady {fuel fuel' : Nat} {s : σ} (hle : fuel ≤ fuel')
    (hend : loop body fuel s ≠ .error .unfinished) : loop body fuel' s = loop body fuel s := by
  induction fuel generalizing s fuel' with
  | zero => exact absurd rfl hend
  | succ fuel ih =>
    obtain ⟨k, rfl⟩ : ∃ k, fuel' = k + 1 := ⟨fuel' - 1, by omega⟩
    rcases hround : body s with e | s' | a
    · rw [loop_succ_error hround, loop_succ_error hround]
    · rw [loop_succ_next hround] at hend ⊢
      rw [loop_succ_next hround]
      exact ih (by omega) hend
    · rw [loop_succ_leave hround, loop_succ_leave hround]

theorem Steady.loop (s : σ) : Steady fun fuel => OpenNE.loop body fuel s :=
  fun _ _ hle hend => loop_steady hle hend

/-! ### Loops along a walk -/

/-- The rounds of `body` go from place to place as `f` says; where `f` says nothing, the loop is left or
stops. -/
def Follows (body : σ → Exec (σ ⊕ β)) (place : σ → α) (f : α → Option α) : Prop :=
  ∀ s, (∃ s', body s = .ok (.inl s') ∧ f (place s) = some (place s')) ∨
    ((∃ a, body s = .ok (.inr a)) ∨ ∃ e, body s = .error e ∧ e ≠ .unfinished) ∧ f (place s) = none

variable {place : σ → α} {f : α → Option α}

theorem Follows.halts_of_mem_eval (h : Follows body place f) {a b : α} {s : σ} (hs : place s = a)
    (hb : b ∈ eval f a) : ∃ fuel, loop body fuel s ≠ .error .unfinished := by
  obtain ⟨hreach, hnone⟩ := mem_eval.mp hb
  induction hreach using ReflTransGen.head_induction_on generalizing s with
  | refl =>
    rcases h s with ⟨s', -, hnext⟩ | ⟨⟨a, hround⟩ | ⟨e, hround, hne⟩, -⟩
    · rw [hs, hnone] at hnext
      cases hnext
    · refine ⟨1, ?_⟩
      rw [loop_succ_leave hround]
      exact fun heq => by cases heq
    · refine ⟨1, ?_⟩
      rw [loop_succ_error hround]
      exact fun heq => hne (Except.error.inj heq)
  | @head a c hstep hrest ih =>
    rcases h s with ⟨s', hround, hnext⟩ | ⟨-, hstop⟩
    · rw [hs] at hnext
      obtain ⟨fuel, hend⟩ := ih (Option.mem_unique hnext hstep) (mem_eval.mpr ⟨hrest, hnone⟩)
      refine ⟨fuel + 1, ?_⟩
      rwa [loop_succ_next hround]
    · rw [hs] at hstop
      cases hstop.symm.trans hstep

theorem Follows.mem_eval_of_halts (h : Follows body place f) {s : σ} {fuel : Nat}
    (hend : loop body fuel s ≠ .error .unfinished) : ∃ b, b ∈ eval f (place s) := by
  induction fuel generalizing s with
  | zero => exact absurd rfl hend
  | succ fuel ih =>
    rcases h s with ⟨s', hround, hnext⟩ | ⟨-, hnone⟩
    · rw [loop_succ_next hround] at hend
      obtain ⟨b, hb⟩ := ih hend
      refine ⟨b, ?_⟩
      rwa [reaches_eval (ReflTransGen.single hnext)]
    · exact ⟨place s, mem_eval.mpr ⟨.refl, hnone⟩⟩

theorem Follows.halts_iff [Finite α] (h : Follows body place f) {s : σ} :
    (Halts fun fuel => loop body fuel s) ↔ ¬ Circular f (place s) := by
  rw [← eval_dom_iff]
  exact ⟨fun ⟨_, hend⟩ => h.mem_eval_of_halts hend, fun ⟨_, hb⟩ => h.halts_of_mem_eval rfl hb⟩

theorem Follows.eq_ok_iff {body : α → Exec (α ⊕ β)} {f : α → Option α} (h : Follows body id f) {a : α} {r : β} :
    (∃ fuel, loop body fuel a = .ok r) ↔ ∃ b, b ∈ eval f a ∧ body b = .ok (.inr r) := by
  constructor
  · rintro ⟨fuel, hret⟩
    induction fuel generalizing a with
    | zero => cases hret
    | succ fuel ih =>
      rcases h a with ⟨a', hround, hnext⟩ | ⟨⟨r', hround⟩ | ⟨e, hround, -⟩, hnone⟩
      · rw [loop_succ_next hround] at hret
        obtain ⟨b, hb, hlast⟩ := ih hret
        have hstep : Reaches f a a' := ReflTransGen.single hnext
        exact ⟨b, (reaches_eval hstep).symm ▸ hb, hlast⟩
      · rw [loop_succ_leave hround] at hret
        cases hret
        exact ⟨a, mem_eval.mpr ⟨.refl, hnone⟩, hround⟩
      · rw [loop_succ_error hround] at hret
        cases hret
  · rintro ⟨b, hb, hlast⟩
    obtain ⟨hreach, -⟩ := mem_eval.mp hb
    clear hb
    induction hreach using ReflTransGen.head_induction_on with
    | refl => exact ⟨1, loop_succ_leave hlast 0⟩
    | @head a c hstep _ ih =>
      obtain ⟨fuel, hret⟩ := ih
      rcases h a with ⟨a', hround, hnext⟩ | ⟨-, hstop⟩
      · obtain rfl : a' = c := Option.mem_unique hnext hstep
        exact ⟨fuel + 1, by rw [loop_succ_next hround, hret]⟩
      · cases hstop.symm.trans hstep

theorem Follows.mem_loopStates_iff {body : α → Exec (α ⊕ β)} {f : α → Option α} (h : Follows body id f) {a c : α}
    {fuel : Nat} (hend : loop body fuel a ≠ .error .unfinished) :
    c ∈ loopStates body fuel a ↔ Reaches f a c := by
  induction fuel generalizing a with
  | zero => exact absurd rfl hend
  | succ fuel ih =>
    have hfirst : Reaches f a c ↔ c = a ∨ ∃ b, f a = some b ∧ Reaches f b c := by
      rw [Reaches, ReflTransGen.cases_head_iff]
      exact or_congr_left eq_comm
    rcases h a with ⟨a', hround, hnext⟩ | ⟨hstop, hnone⟩
    · rw [loop_succ_next hround] at hend
      rw [loopStates, hround, List.mem_cons, ih hend, hfirst, show f a = some a' from hnext]
      simp
    · have hlast : loopStates body (fuel + 1) a = [a] := by
        rw [loopStates]
        rcases hstop with ⟨r, hround⟩ | ⟨e, hround, -⟩ <;> rw [hround]
      rw [hlast, List.mem_singleton, hfirst, show f a = none from hnone]
      simp

theorem Follows.exists_rounds [Finite α] (h : Follows body place f) {s : Nat → σ}
    (hs : ∀ k s', body (s k) = .ok (.inl s') → s' = s (k + 1)) (hend : ¬ Circular f (place (s 0))) :
    ∃ n, (∀ k < n, body (s k) = .ok (.inl (s (k + 1)))) ∧ ∀ s', body (s n) ≠ .ok (.inl s') := by
  obtain ⟨b, hb⟩ := exists_mem_eval hend
  obtain ⟨hreach, hnone⟩ := mem_eval.mp hb
  clear hb hend
  generalize hplace : place (s 0) = a at hreach
  induction hreach using ReflTransGen.head_induction_on generalizing s with
  | refl =>
    refine ⟨0, fun k hk => absurd hk (Nat.not_lt_zero k), ?_⟩
    intro s' hround
    rcases h (s 0) with ⟨s'', -, hnext⟩ | ⟨⟨r, hleave⟩ | ⟨e, hstop, -⟩, -⟩
    · rw [hplace, hnone] at hnext
      cases hnext
    · cases hround.symm.trans hleave
    · cases hround.symm.trans hstop
  | @head a c hstep _ ih =>
    rcases h (s 0) with ⟨s', hround, hnext⟩ | ⟨-, hstop⟩
    · obtain rfl := hs 0 s' hround
      rw [hplace] at hnext
      obtain ⟨n, hrounds, hlast⟩ := ih (s := fun k => s (k + 1)) (fun k s' => hs (k + 1) s')
        (Option.mem_unique hnext hstep)
      refine ⟨n + 1, ?_, hlast⟩
      intro k hk
      cases k with
      | zero => exact hround
      | succ k => exact hrounds k (by omega)
    · rw [hplace] at hstop
      cases hstop.symm.trans hstep

end Halts

end OpenNE

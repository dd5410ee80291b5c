import OpenNE.Base.Exec
import Mathlib.Data.List.Induction

/-!
# Runs of a labelled step relation

`Run step s ops s'`: the operations `ops`, taken one after the other, lead from `s` to `s'`. An invariant
of one step is an invariant of every run (`Run.invariant`).
-/

namespace OpenNE

variable {σ ι : Type}

/-- Finite runs, the last operation last. -/
inductive Run (step : σ → ι → σ → Prop) : σ → List ι → σ → Prop
  | nil (s : σ) : Run step s [] s
  | snoc {s s' s'' : σ} {ops : List ι} {op : ι} :
      Run step s ops s' → step s' op s'' → Run step s (ops ++ [op]) s''

/-- The steps of `step` that start where `guard` holds. -/
def Guarded (step : σ → ι → σ → Prop) (guard : σ → ι → Prop) (s : σ) (op : ι) (s' : σ) : Prop :=
  step s op s' ∧ guard s op

/-- The calls `ops`, one after the other. -/
def callAll (call : σ → ι → Exec σ) (ops : List ι) (s : σ) : Exec σ := ops.foldlM call s

/-- The same, stopped where the guard fails. -/
def callGuarded (call : σ → ι → Exec σ) (guard : σ → ι → Prop) [∀ s op, Decidable (guard s op)]
    (ops : List ι) (s : σ) : Exec σ :=
  callAll (fun s op => if guard s op then call s op else .error .panic) ops s

namespace Run

variable {step : σ → ι → σ → Prop} {s s' : σ} {ops : List ι}

theorem invariant (inv : σ → Prop) (hstep : ∀ s op s', inv s → step s op s' → inv s')
    (hs : inv s) (h : Run step s ops s') : inv s' := by
  induction h with
  | nil => exact hs
  | snoc _ hlast ih => exact hstep _ _ _ ih hlast

theorem guarded_iff {guard : σ → ι → Prop} (inv : σ → Prop)
    (hstep : ∀ s op s', inv s → step s op s' → (inv s' ↔ guard s op)) (hs : inv s)
    (h : Run (Guarded step guard) s ops s') : inv s' ∧ ∀ op s'', step s' op s'' → (inv s'' ↔ guard s' op) := by
  have hinv : inv s' := h.invariant inv (fun s op s' hs hlast => (hstep s op s' hs hlast.1).mpr hlast.2) hs
  exact ⟨hinv, fun op s'' hnext => hstep s' op s'' hinv hnext⟩

theorem refine {step' : σ → ι → σ → Prop} (inv : σ → Prop)
    (hstep : ∀ s op s', inv s → step s op s' → inv s' ∧ step' s op s') (hs : inv s) (h : Run step s ops s') :
    inv s' ∧ Run step' s ops s' := by
  induction h with
  | nil => exact ⟨hs, .nil _⟩
  | snoc _ hlast ih =>
    obtain ⟨hinv, hrun⟩ := ih
    obtain ⟨hinv', hlast'⟩ := hstep _ _ _ hinv hlast
    exact ⟨hinv', hrun.snoc hlast'⟩

theorem simulate {τ : Type} {step' : τ → ι → τ → Prop} {t : τ} (rel : σ → τ → Prop)
    (hstep : ∀ s t op s', rel s t → step s op s' → ∃ t', step' t op t' ∧ rel s' t') (hs : rel s t)
    (h : Run step s ops s') : ∃ t', Run step' t ops t' ∧ rel s' t' := by
  induction h with
  | nil => exact ⟨t, .nil t, hs⟩
  | snoc _ hlast ih =>
    obtain ⟨t', hrun, hrel⟩ := ih
    obtain ⟨t'', hnext, hrel'⟩ := hstep _ _ _ _ hrel hlast
    exact ⟨t'', hrun.snoc hnext, hrel'⟩

theorem guarded_congr {guard guard' : σ → ι → Prop} (h : ∀ s op s', step s op s' → (guard s op ↔ guard' s op)) :
    Run (Guarded step guard) s ops s' ↔ Run (Guarded step guard') s ops s' := by
  constructor
  · intro hrun
    exact (hrun.refine (fun _ => True) (fun s op s' _ hlast => ⟨trivial, hlast.1, (h s op s' hlast.1).mp hlast.2⟩)
      trivial).2
  · intro hrun
    exact (hrun.refine (fun _ => True) (fun s op s' _ hlast => ⟨trivial, hlast.1, (h s op s' hlast.1).mpr hlast.2⟩)
      trivial).2

theorem unguarded {guard : σ → ι → Prop} (h : Run (Guarded step guard) s ops s') : Run step s ops s' := by
  induction h with
  | nil => exact .nil _
  | snoc _ hlast ih => exact .snoc ih hlast.1

theorem exists_iff {ok : ι → Prop} (inv : σ → Prop) (hstep : ∀ s op s', inv s → step s op s' → inv s')
    (hok : ∀ s op, inv s → ((∃ s', step s op s') ↔ ok op)) (hs : inv s) :
    (∃ s', Run step s ops s') ↔ ∀ op ∈ ops, ok op := by
  constructor
  · rintro ⟨s', h⟩
    induction h with
    | nil => exact fun op hop => absurd hop List.not_mem_nil
    | snoc hrun hlast ih =>
      intro op hop
      rcases List.mem_append.mp hop with hop | hop
      · exact ih op hop
      · rw [List.mem_singleton.mp hop]
        exact (hok _ _ (hrun.invariant inv hstep hs)).mp ⟨_, hlast⟩
  · intro hops
    induction ops using List.reverseRecOn with
    | nil => exact ⟨s, .nil s⟩
    | append_singleton ops op ih =>
      obtain ⟨s₁, hrun⟩ := ih fun op hop => hops op (List.mem_append_left _ hop)
      obtain ⟨s₂, hlast⟩ := (hok s₁ op (hrun.invariant inv hstep hs)).mpr (hops op (by simp))
      exact ⟨s₂, hrun.snoc hlast⟩

theorem of_callAll {call : σ → ι → Exec σ} (hcall : ∀ s op s', call s op = .ok s' → step s op s')
    (h : callAll call ops s = .ok s') : Run step s ops s' := by
  induction ops using List.reverseRecOn generalizing s' with
  | nil =>
    cases h
    exact .nil s
  | append_singleton ops op ih =>
    rw [callAll, List.foldlM_append] at h
    obtain ⟨s₁, hfirst, hlast⟩ := Exec.bind_eq_ok.mp h
    rw [List.foldlM_cons] at hlast
    obtain ⟨s₂, hop, hret⟩ := Exec.bind_eq_ok.mp hlast
    cases hret
    exact .snoc (ih hfirst) (hcall _ _ _ hop)

theorem of_callGuarded {call : σ → ι → Exec σ} {guard : σ → ι → Prop} [∀ s op, Decidable (guard s op)]
    (hcall : ∀ s op s', call s op = .ok s' → step s op s') (h : callGuarded call guard ops s = .ok s') :
    Run (Guarded step guard) s ops s' := by
  apply of_callAll _ h
  intro s op s' hok
  by_cases hguard : guard s op
  · rw [if_pos hguard] at hok
    exact ⟨hcall s op s' hok, hguard⟩
  · rw [if_neg hguard] at hok
    cases hok

theorem one {op : ι} (h : step s op s') : Run step s [op] s' := by
  have hnil : Run step s [] s := .nil s
  exact hnil.snoc h

end Run

end OpenNE

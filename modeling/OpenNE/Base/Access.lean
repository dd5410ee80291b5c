import OpenNE.Base.Codec
import OpenNE.Base.Exec
import OpenNE.Base.Span

/-!
# Calls behind a check of what they touch

`Access` says what a call may touch, and a call that goes beyond it stops with a fault. A call behind a check is the
call itself or faults (`Checked`), and `Exec.wp` is what has to hold for it not to fault and to end as wanted.
-/

namespace OpenNE

/-! ### Calls that do not fault -/

section Exec

variable {α β : Type}

/-- The call does not fault, and what it returns is as `post` says. -/
def Exec.wp (call : Exec α) (post : α → Prop) : Prop :=
  match call with
  | .ok a => post a
  | .error e => e ≠ .fault

@[simp] theorem Exec.wp_ok {a : α} {post : α → Prop} : wp (.ok a) post ↔ post a := Iff.rfl

@[simp] theorem Exec.wp_error {e : Stop} {post : α → Prop} : wp (.error e) post ↔ e ≠ .fault := Iff.rfl

theorem Exec.wp_bind {call : Exec α} {next : α → Exec β} {post : β → Prop} :
    wp (call >>= next) post ↔ wp call fun a => wp (next a) post := by
  cases call <;> exact Iff.rfl

/-- `call'` behind a check. -/
def Checked (call call' : Exec α) : Prop := call = .error .fault ∨ call = call'

theorem Checked.refl (call : Exec α) : Checked call call := .inr rfl

theorem Checked.bind {call call' : Exec α} {next next' : α → Exec β} (hcall : Checked call call')
    (hnext : ∀ a, Checked (next a) (next' a)) : Checked (call >>= next) (call' >>= next') := by
  rcases hcall with rfl | rfl
  · exact .inl rfl
  · rcases call with e | a
    · exact .inr rfl
    · exact hnext a

theorem Checked.foldlM {γ : Type} {step step' : β → γ → Exec β} (h : ∀ b c, Checked (step b c) (step' b c))
    (l : List γ) (b : β) : Checked (l.foldlM step b) (l.foldlM step' b) := by
  induction l generalizing b with
  | nil => exact .refl _
  | cons c l ih =>
    rw [List.foldlM_cons, List.foldlM_cons]
    exact (h b c).bind ih

theorem Checked.ite {c : Prop} [Decidable c] {t t' e e' : Exec α} (ht : Checked t t') (he : Checked e e') :
    Checked (if c then t else e) (if c then t' else e') := by
  split
  · exact ht
  · exact he

theorem Checked.ite_error {c : Prop} [Decidable c] {call : Exec α} :
    Checked (if c then call else .error .fault) call := by
  split
  · exact .refl _
  · exact .inl rfl

theorem Checked.wp_iff {call call' : Exec α} (h : Checked call call') {post : α → Prop} :
    Exec.wp call post ↔ call.NoFault ∧ ∀ a, call' = .ok a → post a := by
  rcases h with rfl | rfl
  · simp [Exec.NoFault]
  · rcases call with e | a
    · simp [Exec.NoFault]
    · simp [Exec.NoFault]

end Exec

/-! ### What may be touched -/

/-- The range `[a, a + n)` lies in `s`. -/
def Span.Holds (s : Span) (a n : Nat) : Prop := n = 0 ∨ s.start ≤ a ∧ a + n ≤ s.start + s.len

instance (s : Span) (a n : Nat) : Decidable (s.Holds a n) := inferInstanceAs (Decidable (_ ∨ _))

/-- What a call may touch: anything, or no more than a range to read and what was allocated to write. -/
inductive Access where
  | anywhere
  | within (source : Span)

/-- `[a, a + n)` may be read. -/
def Access.mayRead : Access → Nat → Nat → Bool
  | anywhere, _, _ => true
  | within source, a, n => source.Holds a n

/-- `[a, a + n)` may be written, when `target` is what was allocated for it. -/
def Access.mayWrite (target : Span) : Access → Nat → Nat → Bool
  | anywhere, _, _ => true
  | within _, a, n => target.Holds a n

section Fetch

variable {α : Type}

/-- A record read. -/
def fetch (acc : Access) (c : Codec α) (a : Nat) (mem : Store) : Exec α :=
  if acc.mayRead a c.size then .ok (mem.get c a) else .error .fault

@[simp] theorem fetch_anywhere (c : Codec α) (a : Nat) (mem : Store) :
    fetch .anywhere c a mem = .ok (mem.get c a) := rfl

theorem fetch_checked (acc : Access) (c : Codec α) (a : Nat) (mem : Store) :
    Checked (fetch acc c a mem) (fetch .anywhere c a mem) :=
  .ite_error

theorem fetch_eq_ok {acc : Access} {c : Codec α} {a : Nat} {mem : Store} {r : α} :
    fetch acc c a mem = .ok r ↔ acc.mayRead a c.size = true ∧ mem.get c a = r := by
  rw [fetch]
  by_cases hin : acc.mayRead a c.size = true
  · rw [if_pos hin]
    simp [hin]
  · rw [if_neg hin]
    simp [hin]

/-- Two memories with the same bytes in a range. -/
def Agree (s : Span) (mem mem' : Store) : Prop := ∀ a ∈ s, mem a = mem' a

theorem Agree.get {s : Span} {mem mem' : Store} {c : Codec α} {a : Nat} (h : Agree s mem mem')
    (hin : s.Holds a c.size) : mem.get c a = mem'.get c a := by
  apply Store.get_congr
  intro x hlow hhigh
  apply h
  rw [Span.mem_def]
  rcases hin with hnil | hin
  · omega
  · omega

theorem wp_fetch {s : Span} {mem mem' : Store} {c : Codec α} {a : Nat} {post : α → Prop} (h : Agree s mem mem') :
    Exec.wp (fetch (.within s) c a mem) post ↔ s.Holds a c.size ∧ post (mem'.get c a) := by
  unfold fetch Access.mayRead
  by_cases hin : s.Holds a c.size
  · simp [hin, h.get hin]
  · simp [hin]

end Fetch

end OpenNE

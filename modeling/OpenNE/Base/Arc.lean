import Mathlib.Tactic.Ring

/-!
# Ranges of 64-bit addresses

Addresses of 64 bits form a ring: the last is followed by 0. An `Arc` is a range on it. Two arcs are
disjoint when each starts at or behind the end of the other (`Arc.disjoint_iff`), which for arcs given by
their distances from one address (`Arc.below`) is a statement about integers (`Arc.below_disjoint_iff`).
-/

namespace OpenNE

/-- The `len` addresses from `start` on. -/
structure Arc where
  start : UInt64
  len : Nat
  deriving DecidableEq, Repr

namespace Arc

instance : Membership UInt64 Arc where
  mem a x := (x - a.start).toNat < a.len

theorem mem_def {a : Arc} {x : UInt64} : x ∈ a ↔ (x - a.start).toNat < a.len := Iff.rfl

/-- No address lies in both. -/
def Disjoint (a b : Arc) : Prop := ∀ x, x ∈ a → x ∉ b

theorem toNat_sub (x y : UInt64) : (x - y).toNat = (x.toNat + (2 ^ 64 - y.toNat)) % 2 ^ 64 := by
  rw [UInt64.toNat_sub, Nat.add_comm]

theorem start_mem {a : Arc} (h : 0 < a.len) : a.start ∈ a := by
  rw [mem_def, UInt64.sub_self]
  exact h

theorem disjoint_iff {a b : Arc} (ha : 0 < a.len) (hb : 0 < b.len) :
    a.Disjoint b ↔ a.len ≤ (b.start - a.start).toNat ∧ b.len ≤ (a.start - b.start).toNat := by
  constructor
  · intro h
    constructor
    · by_contra hlt
      exact h b.start (by rw [mem_def]; omega) (start_mem hb)
    · by_contra hlt
      exact h a.start (start_mem ha) (by rw [mem_def]; omega)
  · rintro ⟨hab, hba⟩ x hxa hxb
    rw [mem_def, toNat_sub] at hxa hxb
    rw [toNat_sub] at hab hba
    have := x.toNat_lt
    have := a.start.toNat_lt
    have := b.start.toNat_lt
    omega

/-- The arc that starts `p.1` addresses before `base`. -/
def below (base : UInt64) (p : Nat × Nat) : Arc := ⟨base - UInt64.ofNat p.1, p.2⟩

/-- Of two arcs below one address, each ends before the other starts, on the ring. -/
def Apart (p q : Nat × Nat) : Prop :=
  (p.2 : Int) ≤ ((p.1 : Int) - q.1) % 2 ^ 64 ∧ (q.2 : Int) ≤ ((q.1 : Int) - p.1) % 2 ^ 64

theorem Apart.symm {p q : Nat × Nat} (h : Apart p q) : Apart q p := ⟨h.2, h.1⟩

theorem below_sub_toNat (base : UInt64) (m n : Nat) :
    (((base - UInt64.ofNat m) - (base - UInt64.ofNat n)).toNat : Int) = ((n : Int) - m) % 2 ^ 64 := by
  have := base.toNat_lt
  rw [toNat_sub, toNat_sub, toNat_sub, UInt64.toNat_ofNat', UInt64.toNat_ofNat']
  omega

theorem below_disjoint_iff {base : UInt64} {p q : Nat × Nat} (hp : 0 < p.2) (hq : 0 < q.2) :
    (below base p).Disjoint (below base q) ↔ Apart p q := by
  rw [disjoint_iff hp hq]
  have hpq := below_sub_toNat base q.1 p.1
  have hqp := below_sub_toNat base p.1 q.1
  unfold Apart
  show p.2 ≤ ((base - UInt64.ofNat q.1) - (base - UInt64.ofNat p.1)).toNat ∧
    q.2 ≤ ((base - UInt64.ofNat p.1) - (base - UInt64.ofNat q.1)).toNat ↔ _
  omega

end Arc

end OpenNE

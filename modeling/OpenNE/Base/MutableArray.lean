import OpenNE.Base.Exec
import Mathlib.Data.List.Count

/-!
# Arrays that grow (`NewKit/MutableArray.h`, `NewKit/Ref.h`)

An array has the one node it is made with: a second value finds no node, and removing the first does not lower the
count. `MutableArray` has its nodes and its count twice, and removes from those it does not add to. Nothing but the
empty list is kept as a list (`keepsList_iff`).
-/

namespace OpenNE

/-! ### References -/

/-- What `fClass` of a `Ref` points to; `parameter` is the one of the constructor that takes a value, which is gone. -/
inductive Ref where
  | null
  | object (a : UInt64)
  | parameter
  deriving DecidableEq

/-- `Leak`, with the objects that there are. -/
def Ref.leak {T : Type} (objects : UInt64 → T) : Ref → Exec T
  | object a => .ok (objects a)
  | null | parameter => .error .fault

/-! ### Nodes -/

section Nodes

variable {T : Type}

/-- `MutableLinkedList`. The nodes behind one another are a list. -/
structure MutableLinkedList (T : Type) where
  fVal : T
  fIndex : Nat
  fUsed : Bool

/-- `new MutableLinkedList<T>()`, of a value of zeros. -/
def MutableLinkedList.new (zero : T) : MutableLinkedList T := ⟨zero, 0, false⟩

/-- `TRY_FIND_NODE`: the value of the first node with the index. -/
def tryFindNode (index : Nat) (nodes : List (MutableLinkedList T)) : Option T :=
  (nodes.find? fun node => node.fIndex == index).map (·.fVal)

/-- `TRY_REMOVE_NODE`. -/
def tryRemoveNode (index : Nat) : List (MutableLinkedList T) → Option (List (MutableLinkedList T))
  | [] => none
  | node :: nodes => if node.fIndex = index then some ({ node with fUsed := false, fIndex := 0 } :: nodes) else none

/-- The loop of `Add`: the first node that is free is used. -/
def useNode (val : T) : List (MutableLinkedList T) → Option (List (MutableLinkedList T))
  | [] => none
  | node :: nodes =>
    if node.fUsed then (useNode val nodes).map (node :: ·) else some (⟨val, 0, true⟩ :: nodes)

end Nodes

/-! ### The classes -/

/-- `NullableMutableArray`. -/
structure NullableMutableArray (T : Type) where
  fLastNode : List (MutableLinkedList T)
  fFirstNode : List (MutableLinkedList T)
  fNodeCount : Nat

namespace NullableMutableArray

variable {T : Type}

/-- The constructor. -/
def new (zero : T) : NullableMutableArray T := ⟨[], [.new zero], 0⟩

/-- `operator[]`. -/
def index (placeHolder : T) (a : NullableMutableArray T) (index : Nat) : T :=
  ((tryFindNode index a.fFirstNode).or (tryFindNode index a.fLastNode)).getD placeHolder

/-- `Remove`. -/
def remove (index : Nat) (a : NullableMutableArray T) : Bool × NullableMutableArray T :=
  match tryRemoveNode index a.fFirstNode, tryRemoveNode index a.fLastNode with
  | some nodes, _ => (true, { a with fFirstNode := nodes })
  | none, some nodes => (true, { a with fLastNode := nodes })
  | none, none => (false, a)

/-- `Add`. -/
def add (debug : Bool) (val : T) (a : NullableMutableArray T) : Exec (Bool × NullableMutableArray T) := do
  mustPass debug (!a.fFirstNode.isEmpty)
  match useNode val a.fFirstNode with
  | some nodes => .ok (true, { a with fFirstNode := nodes, fNodeCount := a.fNodeCount + 1 })
  | none => .ok (false, a)

end NullableMutableArray

/-- `MutableArray`: its base, an array of addresses, and its own nodes and count under the same names. -/
structure MutableArray (T : Type) where
  base : NullableMutableArray UInt64
  own : NullableMutableArray T

namespace MutableArray

variable {T : Type}

/-- The constructor: its own first node is the null pointer. -/
def new : MutableArray T := ⟨.new 0, ⟨[], [], 0⟩⟩

/-- `operator[]`: `Ref<T>{NAME->fVal}` of the node that is found. -/
def index (a : MutableArray T) (index : Nat) : Ref :=
  match (tryFindNode index a.own.fFirstNode).or (tryFindNode index a.own.fLastNode) with
  | some _ => .parameter
  | none => .null

/-- `Remove`, which is that of the base. -/
def remove (index : Nat) (a : MutableArray T) : Bool × MutableArray T :=
  let (removed, base) := a.base.remove index
  (removed, { a with base })

/-- `Add`. -/
def add (debug : Bool) (zero val : T) (a : MutableArray T) : Exec (Bool × MutableArray T) := do
  let first := if a.own.fFirstNode.isEmpty then [.new zero] else a.own.fFirstNode
  let (added, own) ← { a.own with fFirstNode := first }.add debug val
  .ok (added, { a with own })

/-- `Contains`. -/
def contains [DecidableEq T] (value : T) (a : MutableArray T) : Bool :=
  a.own.fFirstNode.any fun first => first.fVal = value && first.fUsed

end MutableArray

/-! ### What they are for -/

/-- The calls of a class of arrays. -/
structure ArrayClass (σ T : Type) where
  new : σ
  add : T → σ → Exec (Bool × σ)
  count : σ → Nat
  index : σ → Nat → Exec T
  remove : Nat → σ → Bool × σ
  contains : Option (T → σ → Bool)

/-- Those of `NullableMutableArray`. -/
def nullableArray {T : Type} (debug : Bool) (placeHolder zero : T) : ArrayClass (NullableMutableArray T) T where
  new := .new zero
  add := NullableMutableArray.add debug
  count := NullableMutableArray.fNodeCount
  index a i := .ok (a.index placeHolder i)
  remove := NullableMutableArray.remove
  contains := none

/-- Those of `MutableArray`. -/
def mutableArray {T : Type} [DecidableEq T] (debug : Bool) (zero : T) (objects : UInt64 → T) :
    ArrayClass (MutableArray T) T where
  new := .new
  add := MutableArray.add debug zero
  count a := a.own.fNodeCount
  index a i := (a.index i).leak objects
  remove := MutableArray.remove
  contains := some MutableArray.contains

namespace ArrayClass

variable {σ T : Type} (A : ArrayClass σ T)

/-- `Add` of one value after the other: what the calls return, and the array behind them. -/
def addAll : List T → σ → Exec (List Bool × σ)
  | [], a => .ok ([], a)
  | v :: vs, a => do
    let (added, a) ← A.add v a
    let (rest, a) ← addAll vs a
    .ok (added :: rest, a)

/-- The array holds the values, in their order. -/
structure Holds (a : σ) (vs : List T) : Prop where
  count : A.count a = vs.length
  index : ∀ i (hi : i < vs.length), A.index a i = .ok vs[i]

/-- Every `Add` is done, and the array then holds the values. -/
def Fills (vs : List T) : Prop :=
  ∃ a, A.addAll vs A.new = .ok (List.replicate vs.length true, a) ∧ A.Holds a vs

/-- And each of them can be removed, so that the array holds the others. -/
def KeepsList (vs : List T) : Prop :=
  ∃ a, A.addAll vs A.new = .ok (List.replicate vs.length true, a) ∧ A.Holds a vs ∧
    ∀ i (hi : i < vs.length), A.Holds (A.remove i a).2 (vs.eraseIdx i) ∧
      ∀ contains ∈ A.contains, (∀ j (hj : j < vs.length), vs[j] = vs[i] → j = i) →
        contains vs[i] (A.remove i a).2 = false

variable {A} {vs : List T}

theorem KeepsList.fills (h : A.KeepsList vs) : A.Fills vs := by
  obtain ⟨a, hadd, hholds, -⟩ := h
  exact ⟨a, hadd, hholds⟩

theorem not_fills_two {v w : T} {a a' : σ} (hfirst : A.add v A.new = .ok (true, a))
    (hsecond : A.add w a = .ok (false, a')) : ¬ A.Fills (v :: w :: vs) := by
  rintro ⟨last, hadd, -⟩
  rw [addAll, hfirst, Exec.ok_bind] at hadd
  obtain ⟨⟨rest, b⟩, hrest, hret⟩ := Exec.bind_eq_ok.mp hadd
  rw [addAll, hsecond, Exec.ok_bind] at hrest
  obtain ⟨⟨rest', b'⟩, -, hret'⟩ := Exec.bind_eq_ok.mp hrest
  cases hret'
  have hresults := (Prod.mk.inj (Except.ok.inj hret)).1
  rw [List.length_cons, List.length_cons, List.replicate_succ, List.replicate_succ] at hresults
  exact absurd (List.cons.inj (List.cons.inj hresults).2).1 (by decide)

theorem addAll_one {v : T} {a : σ} (hadd : A.add v A.new = .ok (true, a)) :
    A.addAll [v] A.new = .ok ([true], a) := by
  rw [addAll, hadd, Exec.ok_bind]
  rfl

theorem keepsList_nil (hcount : A.count A.new = 0) : A.KeepsList [] :=
  ⟨A.new, rfl, ⟨hcount, fun _ hi => absurd hi (Nat.not_lt_zero _)⟩, fun _ hi => absurd hi (Nat.not_lt_zero _)⟩

end ArrayClass

/-! ### One node -/

section One

variable {T : Type} {debug : Bool} {placeHolder zero v w : T} {vs : List T} {objects : UInt64 → T}

/-- The array whose only node holds `v`. -/
def NullableMutableArray.one (v : T) : NullableMutableArray T := ⟨[], [⟨v, 0, true⟩], 1⟩

theorem NullableMutableArray.add_new : NullableMutableArray.add debug v (.new zero) = .ok (true, .one v) := by
  cases debug <;> rfl

theorem NullableMutableArray.add_one : NullableMutableArray.add debug w (.one v) = .ok (false, .one v) := by
  cases debug <;> rfl

theorem MutableArray.add_new : MutableArray.add debug zero v .new = .ok (true, ⟨.new 0, .one v⟩) := by
  cases debug <;> rfl

theorem MutableArray.add_one {base : NullableMutableArray UInt64} :
    MutableArray.add debug zero w ⟨base, .one v⟩ = .ok (false, ⟨base, .one v⟩) := by
  cases debug <;> rfl

theorem nullableArray_fills_iff : (nullableArray debug placeHolder zero).Fills vs ↔ vs.length ≤ 1 := by
  match vs with
  | [] => exact iff_of_true (ArrayClass.keepsList_nil rfl).fills (Nat.zero_le 1)
  | [v] =>
    refine iff_of_true ⟨_, ArrayClass.addAll_one NullableMutableArray.add_new, rfl, ?_⟩ (Nat.le_refl 1)
    intro i hi
    obtain rfl : i = 0 := Nat.lt_one_iff.mp hi
    rfl
  | v :: w :: vs =>
    have hsecond : NullableMutableArray.add debug w (.one v) = .ok (false, .one v) := NullableMutableArray.add_one
    exact iff_of_false (ArrayClass.not_fills_two NullableMutableArray.add_new hsecond) (by simp)

theorem nullableArray_keepsList_iff : (nullableArray debug placeHolder zero).KeepsList vs ↔ vs = [] := by
  constructor
  · intro h
    match vs with
    | [] => rfl
    | [v] =>
      obtain ⟨a, hadd, -, hremove⟩ := h
      rw [ArrayClass.addAll_one NullableMutableArray.add_new] at hadd
      cases hadd
      have hcount := (hremove 0 (Nat.zero_lt_one)).1.count
      cases hcount
    | v :: w :: vs =>
      have hlen := nullableArray_fills_iff.mp h.fills
      simp at hlen
  · rintro rfl
    exact ArrayClass.keepsList_nil rfl

variable [DecidableEq T]

theorem mutableArray_fills_iff : (mutableArray debug zero objects).Fills vs ↔ vs = [] := by
  constructor
  · intro h
    match vs with
    | [] => rfl
    | [v] =>
      obtain ⟨a, hadd, hholds⟩ := h
      rw [ArrayClass.addAll_one MutableArray.add_new] at hadd
      cases hadd
      have hindex := hholds.index 0 Nat.zero_lt_one
      cases hindex
    | v :: w :: vs => exact absurd h (ArrayClass.not_fills_two MutableArray.add_new MutableArray.add_one)
  · rintro rfl
    exact (ArrayClass.keepsList_nil rfl).fills

end One

/-- Neither class keeps any list but the empty one. The adds alone are right for one value in `NullableMutableArray`,
and in `MutableArray` for none. -/
theorem keepsList_iff {T : Type} [DecidableEq T] (debug : Bool) (placeHolder zero : T) (objects : UInt64 → T)
    (vs : List T) :
    ((nullableArray debug placeHolder zero).KeepsList vs ↔ vs = []) ∧
      ((nullableArray debug placeHolder zero).Fills vs ↔ vs.length ≤ 1) ∧
      ((mutableArray debug zero objects).KeepsList vs ↔ vs = []) ∧
      ((mutableArray debug zero objects).Fills vs ↔ vs = []) := by
  refine ⟨nullableArray_keepsList_iff, nullableArray_fills_iff, ⟨fun h => mutableArray_fills_iff.mp h.fills, ?_⟩,
    mutableArray_fills_iff⟩
  rintro rfl
  exact ArrayClass.keepsList_nil rfl

/-- The second value is refused, and the first is still counted and contained when it has been removed. -/
theorem two_values_not_kept : ¬ (nullableArray true 0 0).KeepsList [1, 2] ∧
    ¬ (mutableArray true 0 fun _ => 0).KeepsList [1, 2] ∧
    (mutableArray true 0 fun _ => 0).addAll [1, 2] .new = .ok ([true, false], ⟨.new 0, .one 1⟩) ∧
    (MutableArray.remove 0 ⟨.new 0, .one 1⟩).1 = true ∧
    (MutableArray.remove 0 ⟨.new 0, .one 1⟩).2.own.fNodeCount = 1 ∧
    MutableArray.contains 1 (MutableArray.remove 0 ⟨.new 0, .one 1⟩).2 = true := by
  refine ⟨fun h => ?_, fun h => ?_, rfl, rfl, rfl, rfl⟩
  · exact absurd (nullableArray_keepsList_iff.mp h) (by decide)
  · exact absurd (mutableArray_fills_iff.mp h.fills) (by decide)

end OpenNE

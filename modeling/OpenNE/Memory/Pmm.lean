import OpenNE.Base.MutableArray
import OpenNE.Memory.HeapCheck

/-!
# Attributes of pages (`src/Pmm.cc`, `src/PageMgr.cc`)

A page that was requested is present, which `RequestPage` takes for a failure: no page is ever returned. `ToggleUser`
sets the attribute of `ToggleRw`. The other calls do what they say, and their references delete no page, since a page
does not begin as a bitmap block does (`mmIsValidHeap_page`).
-/

namespace OpenNE

/-! ### Pages -/

/-- The truth values of a `PTEWrapper`. -/
inductive Attribute where
  | fRw | fUser | fExecDisable | fCache | fShareable | fWt | fPresent | fAccessed
  deriving DecidableEq

/-- Where they stand in it; `fVirtAddr` stands at 8. -/
def Attribute.offset : Attribute → Nat
  | fRw => 0
  | fUser => 1
  | fExecDisable => 2
  | fCache => 16
  | fShareable => 17
  | fWt => 18
  | fPresent => 19
  | fAccessed => 20

/-- A truth value in memory. -/
def boolByte (on : Bool) : UInt8 := if on then 1 else 0

/-- A page lies at `a`: its truth values are such. -/
def PageAt (mem : Store) (a : UInt64) : Prop :=
  a ≠ 0 ∧ a.toNat + 24 ≤ 2 ^ 64 ∧ ∀ attr : Attribute, mem (a.toNat + attr.offset) ≤ 1

/-- An attribute of the page at `a` assigned. -/
def setAttr (attr : Attribute) (a : UInt64) (on : Bool) (k : Kernel) : Kernel :=
  { k with mem := Function.update k.mem (a.toNat + attr.offset) (boolByte on) }

/-- `PTEWrapper` with all that its constructor sets. -/
structure PTEObject extends PTEWrapper where
  fCache : Bool
  fShareable : Bool
  fWt : Bool
  fPresent : Bool
  fAccessed : Bool

/-- The constructor. -/
def PTEObject.new (wrapper : PTEWrapper) : PTEObject :=
  { wrapper with fCache := false, fShareable := false, fWt := false, fPresent := true, fAccessed := false }

/-- `PTEWrapper::Reclaim`, of the page at `a`. -/
def PTEObject.reclaim (a : UInt64) (k : Kernel) : Bool × Kernel :=
  if k.mem (a.toNat + Attribute.fPresent.offset) = 0 then (true, setAttr .fPresent a true k) else (false, k)

/-! ### The calls -/

/-- `~Ref` of a reference to `a`. -/
def releaseRef (before : Nat → UInt32) (a : UInt64) (k : Kernel) : Kernel :=
  if mmIsValidHeap before a k.mem then (mmDeleteHeap a k).2 else k

namespace Pmm

/-- `RequestPage`. The page manager is not looked at, and `Request` takes `readWrite` before `user`. -/
def requestPage (debug : Bool) (fuel : Nat) (user readWrite : Bool) (k : Kernel) : Exec (Ref × Kernel) := do
  let (wrapper, k) ← PageMgr.request debug fuel user readWrite false kPageSize k
  let pt := PTEObject.new wrapper
  if pt.fPresent then .ok (.null, k) else .ok (.parameter, k)

/-- The calls on a reference to a page, which is taken by value: `attr` is what they assign. -/
def assignPage (before : Nat → UInt32) (attr : Attribute) (pageRef : UInt64) (enable : Bool) (k : Kernel) :
    Bool × Kernel :=
  if pageRef = 0 then (false, k) else (true, releaseRef before pageRef (setAttr attr pageRef enable k))

/-- `FreePage`. -/
def freePage (before : Nat → UInt32) (pageRef : UInt64) : Kernel → Bool × Kernel :=
  assignPage before .fPresent pageRef false

/-- `TogglePresent`. -/
def togglePresent (before : Nat → UInt32) : UInt64 → Bool → Kernel → Bool × Kernel := assignPage before .fPresent

/-- `ToggleUser`. -/
def toggleUser (before : Nat → UInt32) : UInt64 → Bool → Kernel → Bool × Kernel := assignPage before .fRw

/-- `ToggleRw`. -/
def toggleRw (before : Nat → UInt32) : UInt64 → Bool → Kernel → Bool × Kernel := assignPage before .fRw

/-- `ToggleShare`. -/
def toggleShare (before : Nat → UInt32) : UInt64 → Bool → Kernel → Bool × Kernel := assignPage before .fShareable

end Pmm

/-- A call of the manager. -/
inductive PmmCall where
  | requestPage (user readWrite : Bool)
  | freePage (pageRef : UInt64)
  | togglePresent (pageRef : UInt64) (enable : Bool)
  | toggleUser (pageRef : UInt64) (enable : Bool)
  | toggleRw (pageRef : UInt64) (enable : Bool)
  | toggleShare (pageRef : UInt64) (enable : Bool)

namespace PmmCall

variable (before : Nat → UInt32) (debug : Bool)

/-- The state a call leaves. -/
def run (fuel : Nat) (k : Kernel) : PmmCall → Exec Kernel
  | requestPage user readWrite => (Pmm.requestPage debug fuel user readWrite k).map Prod.snd
  | freePage pageRef => .ok (Pmm.freePage before pageRef k).2
  | togglePresent pageRef enable => .ok (Pmm.togglePresent before pageRef enable k).2
  | toggleUser pageRef enable => .ok (Pmm.toggleUser before pageRef enable k).2
  | toggleRw pageRef enable => .ok (Pmm.toggleRw before pageRef enable k).2
  | toggleShare pageRef enable => .ok (Pmm.toggleShare before pageRef enable k).2

/-- The reference is null or to a page. -/
def Allowed (k : Kernel) : PmmCall → Prop
  | requestPage _ _ => True
  | freePage pageRef | togglePresent pageRef _ | toggleUser pageRef _ | toggleRw pageRef _ | toggleShare pageRef _ =>
    pageRef = 0 ∨ PageAt k.mem pageRef

end PmmCall

/-- A call with a valid reference, returned. -/
def PmmStep (before : Nat → UInt32) (debug : Bool) (k : Kernel) (call : PmmCall) (k' : Kernel) : Prop :=
  call.Allowed k ∧ ∃ fuel, call.run before debug fuel k = .ok k'

/-! ### What they are for -/

/-- A page that was allocated is returned, with the attributes asked for. -/
def RequestRight (debug user readWrite : Bool) (k : Kernel) : Prop :=
  ∀ fuel w k', PageMgr.request debug fuel user readWrite false kPageSize k = .ok (w, k') → w.fVirtAddr ≠ 0 →
    ∃ a k'', Pmm.requestPage debug fuel user readWrite k = .ok (.object a, k'') ∧ PageAt k''.mem a ∧
      k''.mem (a.toNat + Attribute.fUser.offset) = boolByte user ∧
      k''.mem (a.toNat + Attribute.fRw.offset) = boolByte readWrite

/-- The call assigns the attribute and nothing else. -/
def AssignRight (call : UInt64 → Bool → Kernel → Bool × Kernel) (attr : Attribute) (pageRef : UInt64)
    (enable : Bool) (k : Kernel) : Prop :=
  call pageRef enable k = if pageRef = 0 then (false, k) else (true, setAttr attr pageRef enable k)

/-- The page is no longer present, and is reclaimed once. -/
def FreeRight (before : Nat → UInt32) (pageRef : UInt64) (k : Kernel) : Prop :=
  AssignRight (fun pageRef _ => Pmm.freePage before pageRef) .fPresent pageRef false k ∧
    (pageRef ≠ 0 → ∃ k₁, PTEObject.reclaim pageRef (Pmm.freePage before pageRef k).2 = (true, k₁) ∧
      PTEObject.reclaim pageRef k₁ = (false, k₁))

namespace PmmCall

/-- What the call does is what it is for. -/
def Right (before : Nat → UInt32) (debug : Bool) (k : Kernel) : PmmCall → Prop
  | requestPage user readWrite => RequestRight debug user readWrite k
  | freePage pageRef => FreeRight before pageRef k
  | togglePresent pageRef enable => AssignRight (Pmm.togglePresent before) .fPresent pageRef enable k
  | toggleUser pageRef enable => AssignRight (Pmm.toggleUser before) .fUser pageRef enable k
  | toggleRw pageRef enable => AssignRight (Pmm.toggleRw before) .fRw pageRef enable k
  | toggleShare pageRef enable => AssignRight (Pmm.toggleShare before) .fShareable pageRef enable k

/-- No page is allocated, and the page whose user attribute is set has it already, and its read-write attribute the
same. -/
def Harmless (debug : Bool) (k : Kernel) : PmmCall → Prop
  | requestPage user readWrite => ∀ fuel w k',
    PageMgr.request debug fuel user readWrite false kPageSize k = .ok (w, k') → w.fVirtAddr = 0
  | toggleUser pageRef enable => pageRef = 0 ∨
    k.mem (pageRef.toNat + Attribute.fRw.offset) = boolByte enable ∧
      k.mem (pageRef.toNat + Attribute.fUser.offset) = boolByte enable
  | _ => True

end PmmCall

/-! ### References -/

section Refs

variable {before : Nat → UInt32} {a : UInt64} {attr other : Attribute} {enable : Bool} {mem : Store} {k : Kernel}

theorem boolByte_le (on : Bool) : boolByte on ≤ 1 := by
  cases on <;> decide

theorem isBitMap_bool (h : mem a.toNat ≤ 1) : isBitMap a mem = false := by
  have hmagic : bitSet mem a kBitMapMagIdx ≠ kBitMapMagic := by
    intro hword
    have hsame : mem.get Codec.u64 a.toNat = (mem.put Codec.u64 a.toNat kBitMapMagic).get Codec.u64 a.toNat := by
      rw [Store.get_put_same]
      exact hword
    have hbyte := Store.eq_of_get_eq hsame (Nat.le_refl a.toNat) (Nat.lt_add_of_pos_right (by decide))
    have hfirst := @Store.put_apply_inside _ Codec.u64 mem a.toNat kBitMapMagic 0 (by decide)
    rw [Nat.add_zero] at hfirst
    rw [hbyte, hfirst] at h
    exact absurd h (by decide)
  rw [isBitMap]
  split_ifs with hnull hword
  · rfl
  · rfl
  · exact absurd (.inr hmagic) hword

theorem mmIsValidHeap_page (h : mem a.toNat ≤ 1) : mmIsValidHeap before a mem = false := by
  rw [← Bool.not_eq_true, mmIsValidHeap_iff, isBitMap_bool h]
  rintro ⟨-, hbitmap, -⟩
  cases hbitmap

theorem setAttr_self : (setAttr attr a enable k).mem (a.toNat + attr.offset) = boolByte enable :=
  Function.update_self _ _ _

theorem setAttr_bool (h : ∀ other : Attribute, k.mem (a.toNat + other.offset) ≤ 1) (other : Attribute) :
    (setAttr attr a enable k).mem (a.toNat + other.offset) ≤ 1 := by
  show Function.update k.mem _ _ _ ≤ 1
  by_cases hsame : a.toNat + other.offset = a.toNat + attr.offset
  · rw [hsame, Function.update_self]
    exact boolByte_le enable
  · rw [Function.update_of_ne hsame]
    exact h other

theorem assignPage_eq (hpage : PageAt k.mem a) :
    Pmm.assignPage before attr a enable k = (true, setAttr attr a enable k) := by
  obtain ⟨hpos, -, hbool⟩ := hpage
  have hfirst : (setAttr attr a enable k).mem a.toNat ≤ 1 := setAttr_bool hbool .fRw
  have hvalid : mmIsValidHeap before a (setAttr attr a enable k).mem = false := mmIsValidHeap_page hfirst
  rw [Pmm.assignPage, if_neg hpos, releaseRef, hvalid]
  rfl

end Refs

/-! ### Which calls are right -/

section Calls

variable {before : Nat → UInt32} {debug : Bool} {a : UInt64} {attr : Attribute} {enable : Bool} {k k' : Kernel}
variable {call : PmmCall}

theorem requestPage_eq {fuel : Nat} {user readWrite : Bool} {w : PTEWrapper}
    (h : PageMgr.request debug fuel user readWrite false kPageSize k = .ok (w, k')) :
    Pmm.requestPage debug fuel user readWrite k = .ok (.null, k') := by
  rw [Pmm.requestPage, h]
  rfl

theorem requestRight_iff {user readWrite : Bool} : RequestRight debug user readWrite k ↔
    ∀ fuel w k', PageMgr.request debug fuel user readWrite false kPageSize k = .ok (w, k') → w.fVirtAddr = 0 := by
  constructor
  · intro hright fuel w k' hreq
    by_contra haddr
    obtain ⟨page, k'', hpage, -⟩ := hright fuel w k' hreq haddr
    rw [requestPage_eq hreq] at hpage
    cases hpage
  · intro hnone fuel w k' hreq haddr
    exact absurd (hnone fuel w k' hreq) haddr

theorem assignRight_self (h : a = 0 ∨ PageAt k.mem a) :
    AssignRight (Pmm.assignPage before attr) attr a enable k := by
  rw [AssignRight]
  rcases h with rfl | hpage
  · rw [Pmm.assignPage, if_pos rfl, if_pos rfl]
  · rw [assignPage_eq hpage, if_neg hpage.1]

theorem update_eq_update_iff {mem : Store} {x y : Nat} {b : UInt8} (hne : x ≠ y) :
    Function.update mem x b = Function.update mem y b ↔ mem x = b ∧ mem y = b := by
  constructor
  · intro h
    have hx := congrFun h x
    have hy := congrFun h y
    rw [Function.update_self, Function.update_of_ne hne] at hx
    rw [Function.update_self, Function.update_of_ne hne.symm] at hy
    exact ⟨hx.symm, hy⟩
  · rintro ⟨rfl, hy⟩
    rw [Function.update_eq_self, ← hy, Function.update_eq_self]

theorem toggleUser_right (h : a = 0 ∨ PageAt k.mem a) : AssignRight (Pmm.toggleUser before) .fUser a enable k ↔
    a = 0 ∨ k.mem (a.toNat + Attribute.fRw.offset) = boolByte enable ∧
      k.mem (a.toNat + Attribute.fUser.offset) = boolByte enable := by
  rcases h with rfl | hpage
  · refine iff_of_true ?_ (.inl rfl)
    rw [AssignRight, Pmm.toggleUser, Pmm.assignPage, if_pos rfl, if_pos rfl]
  · have hne : a.toNat + Attribute.fRw.offset ≠ a.toNat + Attribute.fUser.offset := by
      simp only [Attribute.offset]
      omega
    rw [AssignRight, Pmm.toggleUser, assignPage_eq hpage, if_neg hpage.1, or_iff_right hpage.1,
      ← update_eq_update_iff hne]
    simp [setAttr]

theorem freeRight (h : a = 0 ∨ PageAt k.mem a) : FreeRight before a k := by
  have hassign : AssignRight (Pmm.assignPage before .fPresent) .fPresent a false k := assignRight_self h
  rw [AssignRight] at hassign
  refine ⟨hassign, ?_⟩
  intro hpos
  rw [Pmm.freePage, assignPage_eq (h.resolve_left hpos)]
  have hfreed : (setAttr .fPresent a false k).mem (a.toNat + Attribute.fPresent.offset) = 0 := by
    rw [setAttr_self]
    rfl
  refine ⟨setAttr .fPresent a true (setAttr .fPresent a false k), ?_, ?_⟩
  · rw [PTEObject.reclaim, if_pos hfreed]
  · rw [PTEObject.reclaim, if_neg]
    rw [setAttr_self]
    decide

theorem right_iff_harmless (h : call.Allowed k) : call.Right before debug k ↔ call.Harmless debug k := by
  cases call with
  | requestPage user readWrite => exact requestRight_iff
  | freePage pageRef => exact iff_of_true (freeRight h) trivial
  | togglePresent pageRef enable => exact iff_of_true (assignRight_self h) trivial
  | toggleUser pageRef enable => exact toggleUser_right h
  | toggleRw pageRef enable => exact iff_of_true (assignRight_self h) trivial
  | toggleShare pageRef enable => exact iff_of_true (assignRight_self h) trivial

end Calls

/-- The runs whose calls are right are those whose calls are harmless. -/
theorem pmm_iff (before : Nat → UInt32) (debug : Bool) (k k' : Kernel) (calls : List PmmCall) :
    Run (Guarded (PmmStep before debug) fun k call => call.Right before debug k) k calls k' ↔
      Run (Guarded (PmmStep before debug) fun k call => call.Harmless debug k) k calls k' := by
  apply Run.guarded_congr
  rintro k call k' ⟨hallowed, -⟩
  exact right_iff_harmless hallowed

/-- A page for the user is allocated, and writable instead; it is not returned. And `ToggleUser` makes one writable. -/
theorem user_page_not_returned : ∃ k',
    PageMgr.request true 1 true false false kPageSize zeroPool.kernel = .ok (⟨true, false, false, 0x10001000⟩, k') ∧
    Pmm.requestPage true 1 true false zeroPool.kernel = .ok (.null, k') ∧
    PmmStep (fun _ => 0) true zeroPool.kernel (.requestPage true false) k' ∧
    ¬ (PmmCall.requestPage true false).Right (fun _ => 0) true zeroPool.kernel ∧
    PmmStep (fun _ => 0) true zeroPool.kernel (.toggleUser 0x5000 true) (setAttr .fRw 0x5000 true zeroPool.kernel) ∧
    ¬ (PmmCall.toggleUser 0x5000 true).Right (fun _ => 0) true zeroPool.kernel := by
  have hchain : IsChain zeroPool.kernel.mem zeroPool.kernel.poolBase (2 ^ 32) [] 0x10001000 := .nil (by decide)
  have hsize : bitMapHeaderSize ≤ kPageSize.toNat := by decide
  have halloc := mmAllocBitmap_format true true false hchain (by decide) hsize (by decide) (by decide) (by decide)
  have hreq := PageMgr.request_of_alloc false halloc
  have hpage : PageAt zeroPool.kernel.mem 0x5000 := ⟨by decide, by decide, fun _ => boolByte_le false⟩
  refine ⟨_, hreq, requestPage_eq hreq, ⟨trivial, 1, ?_⟩, ?_, ⟨.inr hpage, 1, ?_⟩, ?_⟩
  · rw [PmmCall.run]
    exact congrArg (Except.map Prod.snd) (requestPage_eq hreq)
  · intro hright
    exact absurd (requestRight_iff.mp hright _ _ _ hreq) (by decide)
  · rw [PmmCall.run, Pmm.toggleUser, assignPage_eq hpage]
  · intro hright
    have hharmless := (toggleUser_right (.inr hpage)).mp hright
    exact absurd (hharmless.resolve_left (by decide)).1 (by decide)

end OpenNE

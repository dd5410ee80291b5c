import OpenNE.Memory.HeapCheck
import OpenNE.Memory.HeapPlace

/-!
# The heap as the processes use it (`src/New+Delete.cc`)

Objects are words of the kernel's memory, which the heap's own headers and the page tables lie in as well. An
object keeps its words as long as no later call writes over them.
-/

namespace OpenNE

/-- How many headers a search may pass, and the words in front of the table of the CRC. A search that would end with a
null pointer does not end. -/
structure HeapEnv where
  rounds : Bool → UInt64 → Bool → Bool → Kernel → Nat
  kCrcBefore : Nat → UInt32
  ne_zero : ∀ {debug : Bool} {sz : UInt64} {wr user : Bool} {k k' : Kernel} {p : UInt64}, sz ≠ 0 →
    mmNewHeap debug (rounds debug sz wr user k) sz wr user k = .ok (p, k') → p ≠ 0

namespace Kernel

/-- `mm_new_heap`. -/
def newHeap (env : HeapEnv) (debug : Bool) (sz : UInt64) (wr user : Bool) (k : Kernel) : Exec (UInt64 × Kernel) :=
  mmNewHeap debug (env.rounds debug sz wr user k) sz wr user k

/-- Word `i` of the object at `p`. -/
def word (k : Kernel) (p : UInt64) (i : Nat) : UInt64 := bitSet k.mem p i

/-- Word `i` of the object at `p` assigned. -/
def setWord (k : Kernel) (p : UInt64) (i : Nat) (v : UInt64) : Kernel := { k with mem := setBitSet k.mem p i v }

/-- The first `n` words of the object at `p` zeroed. -/
def zeroWords (k : Kernel) (p : UInt64) (n : Nat) : Kernel :=
  { k with mem := fun a => if p.toNat ≤ a ∧ a < p.toNat + 8 * n then 0 else k.mem a }

/-- `operator new`. -/
def operatorNew (env : HeapEnv) (debug : Bool) (sz : UInt64) (k : Kernel) : Exec (UInt64 × Kernel) :=
  k.newHeap env debug (if sz = 0 then sz + 1 else sz) true false

/-- `new T()` of a type whose first `n` words are zeroed. -/
def newObject (env : HeapEnv) (debug : Bool) (size : UInt64) (n : Nat) (k : Kernel) : Exec (UInt64 × Kernel) := do
  let (p, k) ← k.operatorNew env debug size
  return (p, k.zeroWords p n)

/-- `hal_write_cr3`. -/
def halWriteCr3 (k : Kernel) (cr3 : UInt64) : Kernel := { k with cr3 := cr3 }

/-- The blocks `mm_delete_heap` takes back. -/
def Live (k : Kernel) (p : UInt64) : Prop :=
  p ≠ 0 ∧ p - hibSize ≠ 0 ∧ (heapInfo k.mem (p - hibSize)).fMagic = kKernelHeapMagic ∧
    (heapInfo k.mem (p - hibSize)).bit hibPresent = true

instance (k : Kernel) (p : UInt64) : Decidable (k.Live p) := inferInstanceAs (Decidable (_ ∧ _ ∧ _ ∧ _))

/-! ### What the calls do -/

section Calls

variable {env : HeapEnv} {debug wr user : Bool} {k k' : Kernel} {p q sz : UInt64} {i j n : Nat}

theorem newHeap_zero : k.newHeap env debug 0 wr user = .ok (0, k) := rfl

theorem newHeap_eq_ok (hsz : sz ≠ 0) (hcall : k.newHeap env debug sz wr user = .ok (p, k')) :
    p ≠ 0 ∧ ∃ b, k.Places (sz + hibSize) b ∧ p = b + hibSize + hibSize ∧ k' = k.allocatedAt sz b wr user :=
  ⟨env.ne_zero hsz hcall, mmNewHeap_place hsz hcall⟩

theorem newHeap_null_iff (hcall : k.newHeap env debug sz wr user = .ok (p, k')) : p = 0 ↔ sz = 0 := by
  by_cases hsz : sz = 0
  · rw [hsz, newHeap_zero] at hcall
    exact iff_of_true (Prod.mk.inj (Except.ok.inj hcall)).1.symm hsz
  · exact iff_of_false (env.ne_zero hsz hcall) hsz

theorem operatorNew_ne_zero (hcall : k.operatorNew env debug sz = .ok (p, k')) : p ≠ 0 := by
  refine env.ne_zero ?_ hcall
  split_ifs with hzero
  · simp [hzero]
  · exact hzero

theorem newObject_place (hsz : sz ≠ 0) (hcall : k.newObject env debug sz n = .ok (p, k')) :
    ∃ b, k.Places (sz + hibSize) b ∧ p = b + hibSize + hibSize ∧
      k' = (k.allocatedAt sz b true false).zeroWords p n := by
  obtain ⟨⟨r, k₁⟩, hnew, hret⟩ := Exec.bind_eq_ok.mp hcall
  obtain ⟨rfl, rfl⟩ := Prod.mk.inj (Except.ok.inj hret)
  rw [operatorNew, if_neg hsz] at hnew
  obtain ⟨-, b, hplace, hptr, rfl⟩ := newHeap_eq_ok hsz hnew
  exact ⟨b, hplace, hptr, rfl⟩

theorem newObject_ne_zero (hcall : k.newObject env debug sz n = .ok (p, k')) : p ≠ 0 := by
  obtain ⟨⟨r, k₁⟩, hnew, hret⟩ := Exec.bind_eq_ok.mp hcall
  obtain ⟨rfl, -⟩ := Prod.mk.inj (Except.ok.inj hret)
  exact operatorNew_ne_zero hnew

theorem findBitMapRound_returns (size : UInt64) (wr user : Bool) (k : Kernel) (base : UInt64) :
    ∃ r, findBitMapRound size wr user k base = .ok r := by
  unfold findBitMapRound
  split_ifs
  all_goals exact ⟨_, rfl⟩

theorem mmNewHeap_noFault (fuel : Nat) : Exec.NoFault (mmNewHeap debug fuel sz wr user k) := by
  have hpass : ∀ expr, Exec.NoFault (mustPass debug expr) := by
    intro expr
    rw [mustPass]
    split_ifs <;> simp [Exec.NoFault]
  have hloop : ∀ size base, Exec.NoFault (loop (findBitMapRound size wr user k) fuel base) := by
    intro size
    induction fuel with
    | zero => simp [loop, Exec.NoFault]
    | succ fuel ih =>
      intro base
      obtain ⟨next | r, hround⟩ := findBitMapRound_returns size wr user k base
      · rw [loop_succ_next hround]
        exact ih next
      · rw [loop_succ_leave hround]
        exact .ok r
  have hfind : ∀ base size, Exec.NoFault (findBitMap fuel base size wr user k) := by
    intro base size
    unfold findBitMap
    split_ifs
    · exact .ok _
    · exact hloop _ _
  unfold mmNewHeap
  dsimp only
  split_ifs
  · exact .ok _
  · refine .bind (hpass _) fun _ _ => ?_
    refine .bind (.bind (.bind (hfind _ _) fun _ _ => .bind (hpass _) fun _ _ => .ok _) fun _ _ => .ok _) ?_
    exact fun _ _ => .ok _

theorem newObject_noFault : Exec.NoFault (k.newObject env debug sz n) :=
  .bind (mmNewHeap_noFault _) fun _ _ => .ok _

theorem operatorNew_noFault : Exec.NoFault (k.operatorNew env debug sz) := mmNewHeap_noFault _

theorem live_congr (h : k'.mem = k.mem) : k'.Live p ↔ k.Live p := by rw [Live, Live, h]

theorem Live.deleted (h : k.Live p) :
    (mmDeleteHeap p k).1 = kErrorSuccess ∧ ¬ (mmDeleteHeap p k).2.Live p := by
  obtain ⟨hptr, hinfo, hmagic, hpresent⟩ := h
  rw [mmDeleteHeap_live hptr hinfo hmagic hpresent]
  refine ⟨rfl, fun hlive => ?_⟩
  have hapart := header_apart (p - hibSize - hibSize)
  rw [UInt64.sub_add_cancel] at hapart
  have hzero : (heapInfo (mmFreeBitmap (p - hibSize - hibSize)
      { k with mem := setHeapInfo k.mem (p - hibSize) (heapInfo k.mem (p - hibSize)).released }).2.mem
      (p - hibSize)).fMagic = 0 := by
    rw [heapInfo_fMagic, Store.get_congr fun a ha hlt => mmFreeBitmap_outside ?_, ← heapInfo_fMagic,
      heapInfo_setHeapInfo, HeapInformationBlock.released_fMagic]
    simp only [Codec.u64, Codec.map, Codec.word] at hlt
    omega
  rw [Kernel.Live, hzero] at hlive
  exact absurd hlive.2.2.1 (by decide)

theorem mmDeleteHeap_not_live (h : ¬ k.Live p) :
    (mmDeleteHeap p k).1 ≠ kErrorSuccess ∧ (mmDeleteHeap p k).2 = k := by
  unfold mmDeleteHeap
  dsimp only
  split_ifs with haddr hinfo hpresent
  · exact ⟨(by decide : kErrorHeapNotPresent ≠ kErrorSuccess), rfl⟩
  · exact ⟨(by decide : kErrorHeapNotPresent ≠ kErrorSuccess), rfl⟩
  · refine absurd ⟨?_, hinfo.1, hinfo.2, by simpa using hpresent⟩ h
    rintro rfl
    exact haddr rfl
  · exact ⟨(by decide : kErrorInternal ≠ kErrorSuccess), rfl⟩

/-! ### Words -/

theorem word_congr (h : ∀ a, p.toNat + 8 * i ≤ a → a < p.toNat + 8 * i + 8 → k'.mem a = k.mem a) :
    k'.word p i = k.word p i := Store.get_congr h

theorem word_setWord_same {v : UInt64} : (k.setWord p i v).word p i = v := Store.get_put_same

theorem word_setWord {v : UInt64} (h : p.toNat + 8 * i + 8 ≤ q.toNat + 8 * j ∨ q.toNat + 8 * j + 8 ≤ p.toNat + 8 * i) :
    (k.setWord p i v).word q j = k.word q j := by
  refine word_congr fun a ha hlt => ?_
  apply Store.put_apply_outside
  show a < p.toNat + 8 * i ∨ p.toNat + 8 * i + 8 ≤ a
  omega

theorem word_setWord_other {v : UInt64} (h : i ≠ j) : (k.setWord p i v).word p j = k.word p j :=
  word_setWord (by omega)

theorem word_zeroWords_same (hlt : i < n) : (k.zeroWords p n).word p i = 0 := by
  have hzero : (k.zeroWords p n).word p i = bitSet (fun _ => 0) p i := by
    refine Store.get_congr fun a ha hlast => ?_
    have hlast : a < p.toNat + 8 * i + 8 := hlast
    exact if_pos (by omega)
  rw [hzero]
  rfl

theorem newObject_word (hcall : k.newObject env debug sz n = .ok (p, k')) (hlt : i < n) : k'.word p i = 0 := by
  obtain ⟨⟨r, k₁⟩, -, hret⟩ := Exec.bind_eq_ok.mp hcall
  obtain ⟨rfl, rfl⟩ := Prod.mk.inj (Except.ok.inj hret)
  exact word_zeroWords_same hlt

theorem zeroWords_outside {a : Nat} (h : a < p.toNat ∨ p.toNat + 8 * n ≤ a) : (k.zeroWords p n).mem a = k.mem a :=
  if_neg (by omega)

end Calls

end Kernel

/-- The environment whose searches pass at most `n` headers. -/
def HeapEnv.upTo (n : Nat) : HeapEnv where
  rounds debug sz wr user k :=
    match mmNewHeap debug n sz wr user k with
    | .ok (p, _) => if p = 0 then 0 else n
    | .error _ => n
  kCrcBefore _ := 0
  ne_zero := by
    intro debug sz wr user k k' p hsz hcall hp
    subst hp
    split at hcall
    · rename_i r k₁ hfull
      split_ifs at hcall with hr
      · by_cases hsize : sz + hibSize = 0
        · obtain ⟨b, hplace, hptr, -⟩ := mmNewHeap_place hsz hcall
          rw [Kernel.Places, if_pos hsize] at hplace
          rw [hplace] at hptr
          exact absurd hptr (by decide)
        · rw [mmNewHeap, if_neg hsz] at hcall
          obtain ⟨_, -, hcall⟩ := Exec.bind_eq_ok.mp hcall
          obtain ⟨_, hrequest, -⟩ := Exec.bind_eq_ok.mp hcall
          obtain ⟨_, halloc, -⟩ := Exec.bind_eq_ok.mp hrequest
          obtain ⟨_, hfind, -⟩ := Exec.bind_eq_ok.mp halloc
          rw [findBitMap, if_neg hsize] at hfind
          cases hfind
      · rw [hfull] at hcall
        exact hr (Prod.mk.inj (Except.ok.inj hcall)).1
    · rename_i e hfull
      rw [hfull] at hcall
      cases hcall

end OpenNE

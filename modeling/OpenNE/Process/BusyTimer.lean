import OpenNE.Process.HardwareThread
import Mathlib.Data.Finset.Basic

/-!
# The timer of `HardwareThread::IsBusy`

The timer that ends a busy time is a static variable of the member function, so the polls of every thread move it.
Whether a poll of one thread finds its time over depends on how often the others were polled since, unless the thread
is never polled while it is busy, or its time is the greatest there is (`independent_iff`).
-/

namespace OpenNE

/-- The calls on one thread. -/
inductive ThreadCall where
  | busy (busy : Bool)
  | isBusy

namespace HardwareThreads

/-- `HardwareThread::Busy`. -/
def busy (t : HardwareThreads) (i : Fin 8) (busy : Bool) : HardwareThreads :=
  t.setThread i { t.fThreadList i with fBusy := busy }

/-- A call on the thread `i`, with the answer of a poll. -/
def call (t : HardwareThreads) (i : Fin 8) : ThreadCall → Option Bool × HardwareThreads
  | .busy busy => (none, t.busy i busy)
  | .isBusy => (some (t.isBusy i).1, (t.isBusy i).2)

/-- The answers the polls of `c` get. -/
def answers (c : Fin 8) : List (Fin 8 × ThreadCall) → HardwareThreads → List Bool
  | [], _ => []
  | (i, op) :: calls, t =>
    (if i = c then (t.call i op).1.toList else []) ++ answers c calls (t.call i op).2

end HardwareThreads

/-- The calls on `c`, in order. -/
def callsOn (c : Fin 8) (calls : List (Fin 8 × ThreadCall)) : List ThreadCall :=
  calls.filterMap fun call => if call.1 = c then some call.2 else none

/-- Any two interleavings of `own`, the calls on `c`, with calls on the threads of `cores` get the same answers. -/
def Independent (t : HardwareThreads) (cores : Finset (Fin 8)) (c : Fin 8) (own : List ThreadCall) : Prop :=
  ∀ calls calls' : List (Fin 8 × ThreadCall),
    (∀ call ∈ calls, call.1 ∈ insert c cores) → (∀ call ∈ calls', call.1 ∈ insert c cores) →
    callsOn c calls = own → callsOn c calls' = own → t.answers c calls = t.answers c calls'

/-- No poll finds the flag set, which was `busy` first. -/
def Quiet : Bool → List ThreadCall → Prop
  | _, [] => True
  | _, .busy busy :: calls => Quiet busy calls
  | busy, .isBusy :: calls => busy = false ∧ Quiet busy calls

/-! ### One call -/

namespace HardwareThreads

/-- The timer after `n` polls that end no time. -/
def tick (t : HardwareThreads) (n : Int64) : HardwareThreads := { t with busyTimer := t.busyTimer + n }

section Calls

variable {t : HardwareThreads} {i c : Fin 8} {op : ThreadCall}

theorem call_other (hi : i ≠ c) : (t.call i op).2.fThreadList c = t.fThreadList c := by
  cases op with
  | busy busy => exact Function.update_of_ne hi.symm _ _
  | isBusy =>
    unfold call isBusy
    dsimp only
    split_ifs
    · exact Function.update_of_ne hi.symm _ _
    · rfl

theorem call_fPTime : ((t.call i op).2.fThreadList c).fPTime = (t.fThreadList c).fPTime := by
  by_cases hi : i = c
  · subst hi
    cases op with
    | busy b => simp [call, busy, setThread]
    | isBusy =>
      unfold call isBusy
      dsimp only
      split_ifs
      · simp [setThread]
      · rfl
  · rw [call_other hi]

theorem call_isBusy_kept (h : ¬ ((t.fThreadList i).fBusy = true ∧ (t.fThreadList i).fPTime < t.busyTimer.toUInt64)) :
    t.call i .isBusy = (some (t.fThreadList i).fBusy, t.tick 1) := by
  unfold call isBusy
  dsimp only
  rw [if_neg h]
  rfl

theorem call_isBusy_over (hbusy : (t.fThreadList i).fBusy = true)
    (hover : (t.fThreadList i).fPTime < t.busyTimer.toUInt64) : (t.call i .isBusy).1 = some false := by
  unfold call isBusy
  dsimp only
  rw [if_pos ⟨hbusy, hover⟩]
  simp [setThread]

theorem call_busy_flag (b : Bool) : ((t.call c (.busy b)).2.fThreadList c).fBusy = b := by
  simp [call, busy, setThread]

end Calls

end HardwareThreads

section CallsOn

variable {i c : Fin 8} {op : ThreadCall} {calls calls' : List (Fin 8 × ThreadCall)}

@[simp] theorem callsOn_self : callsOn c ((c, op) :: calls) = op :: callsOn c calls := by
  simp [callsOn]

@[simp] theorem callsOn_other (hi : i ≠ c) : callsOn c ((i, op) :: calls) = callsOn c calls := by
  simp [callsOn, hi]

theorem callsOn_append : callsOn c (calls ++ calls') = callsOn c calls ++ callsOn c calls' := List.filterMap_append

theorem callsOn_map (own : List ThreadCall) : callsOn c (own.map (c, ·)) = own := by
  induction own with
  | nil => rfl
  | cons op own ih => rw [List.map_cons, callsOn_self, ih]

theorem eq_map_callsOn (h : ∀ call ∈ calls, call.1 = c) : calls = (callsOn c calls).map (c, ·) := by
  induction calls with
  | nil => rfl
  | cons call calls ih =>
    obtain ⟨i, op⟩ := call
    obtain ⟨rfl, hrest⟩ := List.forall_mem_cons.mp h
    rw [callsOn_self, List.map_cons, ← ih hrest]

end CallsOn

/-! ### No time that ends -/

/-- The answers when no time is ever over: the flag as it was set last. -/
def flagAnswers : Bool → List ThreadCall → List Bool
  | _, [] => []
  | _, .busy busy :: calls => flagAnswers busy calls
  | busy, .isBusy :: calls => busy :: flagAnswers busy calls

namespace HardwareThreads

section Answers

variable {t : HardwareThreads} {c d : Fin 8} {own : List ThreadCall} {calls : List (Fin 8 × ThreadCall)}

theorem answers_eq_flagAnswers
    (h : (t.fThreadList c).fPTime = 0xffffffffffffffff ∨ Quiet (t.fThreadList c).fBusy (callsOn c calls)) :
    t.answers c calls = flagAnswers (t.fThreadList c).fBusy (callsOn c calls) := by
  induction calls generalizing t with
  | nil => rfl
  | cons call calls ih =>
    obtain ⟨i, op⟩ := call
    by_cases hi : i = c
    · subst hi
      rw [callsOn_self] at h ⊢
      have htime : ((t.call i op).2.fThreadList i).fPTime = (t.fThreadList i).fPTime := call_fPTime
      rw [answers, if_pos rfl]
      cases op with
      | busy b =>
        have hflag : ((t.call i (.busy b)).2.fThreadList i).fBusy = b := call_busy_flag b
        rw [ih (by rw [htime, hflag]; exact h), hflag]
        rfl
      | isBusy =>
        have hkept : ¬ ((t.fThreadList i).fBusy = true ∧ (t.fThreadList i).fPTime < t.busyTimer.toUInt64) := by
          rintro ⟨hbusy, hover⟩
          rcases h with hmax | hquiet
          · rw [hmax, UInt64.lt_iff_toNat_lt] at hover
            have := t.busyTimer.toUInt64.toNat_lt
            simp at hover
            omega
          · rw [hquiet.1] at hbusy
            cases hbusy
        rw [call_isBusy_kept hkept]
        show _ :: answers i calls (t.tick 1) = _
        rw [ih (t := t.tick 1) (h.imp id And.right)]
        rfl
    · rw [answers, if_neg hi, List.nil_append]
      have hsame : (t.call i op).2.fThreadList c = t.fThreadList c := call_other hi
      rw [callsOn_other hi] at h ⊢
      rw [ih (by rw [hsame]; exact h), hsame]

/-! ### Two interleavings that differ -/

/-- `d` is made free and polled `n` times. -/
def polls (d : Fin 8) (n : Nat) : List (Fin 8 × ThreadCall) := (d, .busy false) :: List.replicate n (d, .isBusy)

theorem answers_replicate (n : Nat) (hd : d ≠ c) (hfree : (t.fThreadList d).fBusy = false) :
    t.answers c (List.replicate n (d, .isBusy) ++ calls) = (t.tick (.ofNat n)).answers c calls := by
  induction n generalizing t with
  | zero =>
    have hsame : t.tick (.ofNat 0) = t := by simp [tick]
    rw [hsame]
    rfl
  | succ n ih =>
    have hkept := call_isBusy_kept (t := t) (i := d) fun h => by simp [hfree] at h
    have htick : (t.tick 1).tick (.ofNat n) = t.tick (.ofNat (n + 1)) := by
      simp only [tick, Int64.ofNat_add, Int64.add_assoc, Int64.add_comm 1]
      rfl
    rw [List.replicate_succ, List.cons_append, answers, if_neg hd, hkept, ← htick]
    exact ih hfree

theorem answers_polls (n : Nat) (hd : d ≠ c) :
    t.answers c (polls d n ++ calls) = ((t.busy d false).tick (.ofNat n)).answers c calls := by
  have hfree : ((t.busy d false).fThreadList d).fBusy = false := call_busy_flag false
  rw [polls, List.cons_append, answers, if_neg hd]
  exact answers_replicate n hd hfree

theorem exists_tick (t : HardwareThreads) (target : UInt64) :
    ∃ n : Nat, (t.tick (.ofNat n)).busyTimer.toUInt64 = target := by
  refine ⟨(target - t.busyTimer.toUInt64).toNat, ?_⟩
  have hoff : (Int64.ofNat (target - t.busyTimer.toUInt64).toNat).toUInt64 = target - t.busyTimer.toUInt64 := by
    rw [← UInt64.toBitVec_inj]
    simp
  rw [tick, Int64.toUInt64_add, hoff, UInt64.add_comm]
  exact UInt64.sub_add_cancel ..

theorem exists_head (hd : d ≠ c) (hbusy : (t.fThreadList c).fBusy = true) (target : UInt64) :
    ∃ n, ∀ rest, (t.answers c (polls d n ++ (c, .isBusy) :: rest)).head? =
      some (decide (¬ (t.fThreadList c).fPTime < target)) := by
  obtain ⟨n, hn⟩ := exists_tick (t.busy d false) target
  have hsame : (t.busy d false).fThreadList c = t.fThreadList c :=
    (call_other hd : (t.call d (.busy false)).2.fThreadList c = t.fThreadList c)
  refine ⟨n, fun rest => ?_⟩
  rw [answers_polls n hd, answers, if_pos rfl]
  by_cases hover : (t.fThreadList c).fPTime < target
  · rw [call_isBusy_over (by rw [tick, hsame]; exact hbusy) (by rw [hn, tick, hsame]; exact hover)]
    simp [hover]
  · have hkept : ¬ ((((t.busy d false).tick (.ofNat n)).fThreadList c).fBusy = true ∧
        (((t.busy d false).tick (.ofNat n)).fThreadList c).fPTime <
          ((t.busy d false).tick (.ofNat n)).busyTimer.toUInt64) := by
      rw [hn, tick, hsame]
      exact fun h => hover h.2
    rw [call_isBusy_kept hkept]
    simp [hover, tick, hsame, hbusy]

/-- Two interleavings of the calls `own` on `c` with calls on `d` get different answers on `c`. -/
def ToldApart (t : HardwareThreads) (c d : Fin 8) (own : List ThreadCall) : Prop :=
  ∃ calls calls' : List (Fin 8 × ThreadCall), (∀ call ∈ calls, call.1 = c ∨ call.1 = d) ∧
    (∀ call ∈ calls', call.1 = c ∨ call.1 = d) ∧ callsOn c calls = own ∧ callsOn c calls' = own ∧
    t.answers c calls ≠ t.answers c calls'

theorem ToldApart.cons (h : (t.call c op).2.ToldApart c d own) : t.ToldApart c d (op :: own) := by
  obtain ⟨calls, calls', hin, hin', hown, hown', hne⟩ := h
  refine ⟨(c, op) :: calls, (c, op) :: calls', List.forall_mem_cons.mpr ⟨Or.inl rfl, hin⟩,
    List.forall_mem_cons.mpr ⟨Or.inl rfl, hin'⟩, by rw [callsOn_self, hown], by rw [callsOn_self, hown'], ?_⟩
  intro heq
  simp only [answers, if_true] at heq
  exact hne (List.append_cancel_left heq)

theorem ToldApart.poll (hd : d ≠ c) (htime : (t.fThreadList c).fPTime ≠ 0xffffffffffffffff)
    (hbusy : (t.fThreadList c).fBusy = true) : t.ToldApart c d (.isBusy :: own) := by
  obtain ⟨n, hn⟩ := exists_head hd hbusy 0
  obtain ⟨m, hm⟩ := exists_head hd hbusy ((t.fThreadList c).fPTime + 1)
  have hin : ∀ k : Nat, ∀ call ∈ polls d k ++ (own.map (c, ·)).cons (c, .isBusy), call.1 = c ∨ call.1 = d := by
    intro k call hcall
    simp only [polls, List.mem_append, List.mem_cons, List.mem_replicate, List.mem_map] at hcall
    rcases hcall with (rfl | ⟨-, rfl⟩) | rfl | ⟨_, -, rfl⟩
    all_goals simp
  have hown : ∀ k : Nat, callsOn c (polls d k ++ (own.map (c, ·)).cons (c, .isBusy)) = .isBusy :: own := by
    intro k
    have hnone : callsOn c (polls d k) = [] := by simp [callsOn, polls, hd]
    rw [callsOn_append, hnone, List.nil_append, callsOn_self, callsOn_map]
  refine ⟨_, _, hin n, hin m, hown n, hown m, fun heq => ?_⟩
  have hlt : (t.fThreadList c).fPTime < (t.fThreadList c).fPTime + 1 := by
    have hbound := (t.fThreadList c).fPTime.toNat_lt
    have hne : (t.fThreadList c).fPTime.toNat ≠ 2 ^ 64 - 1 := fun h => htime (UInt64.toNat_inj.mp h)
    rw [UInt64.lt_iff_toNat_lt, UInt64.toNat_add]
    show _ < (_ + 1) % _
    omega
  have hhead := congrArg List.head? heq
  rw [hn, hm] at hhead
  simp [hlt] at hhead

theorem exists_answers_ne (hd : d ≠ c) (htime : (t.fThreadList c).fPTime ≠ 0xffffffffffffffff)
    (hpolled : ¬ Quiet (t.fThreadList c).fBusy own) : t.ToldApart c d own := by
  induction own generalizing t with
  | nil => exact absurd trivial hpolled
  | cons op own ih =>
    cases op with
    | busy b =>
      refine .cons (ih (by rwa [call_fPTime]) ?_)
      rw [call_busy_flag]
      exact hpolled
    | isBusy =>
      by_cases hbusy : (t.fThreadList c).fBusy = true
      · exact .poll hd htime hbusy
      · have hkept : (t.call c .isBusy).2 = t.tick 1 := congrArg Prod.snd (call_isBusy_kept fun h => hbusy h.1)
        refine .cons (ih (by rwa [call_fPTime]) fun hquiet => ?_)
        rw [hkept] at hquiet
        exact hpolled ⟨Bool.eq_false_iff.mpr hbusy, hquiet⟩

end Answers

end HardwareThreads

/-- The answers on `c` depend on no other thread if there is none, if its time is the greatest there is, or if it is
never polled while its flag is set. -/
theorem independent_iff (t : HardwareThreads) (cores : Finset (Fin 8)) (c : Fin 8) (own : List ThreadCall) :
    Independent t cores c own ↔
      (∀ d ∈ cores, d = c) ∨ (t.fThreadList c).fPTime = 0xffffffffffffffff ∨ Quiet (t.fThreadList c).fBusy own := by
  constructor
  · intro h
    by_contra hnot
    obtain ⟨hcores, htime, hpolled⟩ := not_or.mp hnot |>.imp id not_or.mp
    obtain ⟨d, hd, hdc⟩ : ∃ d ∈ cores, d ≠ c := by
      simpa using hcores
    obtain ⟨calls, calls', hin, hin', hown, hown', hne⟩ := HardwareThreads.exists_answers_ne hdc htime hpolled
    have hmem : ∀ i : Fin 8, i = c ∨ i = d → i ∈ insert c cores := by
      rintro i (rfl | rfl)
      · exact Finset.mem_insert_self _ _
      · exact Finset.mem_insert_of_mem hd
    exact hne (h calls calls' (fun call hcall => hmem _ (hin call hcall)) (fun call hcall => hmem _ (hin' call hcall))
      hown hown')
  · rintro (hcores | hflag) calls calls' hin hin' hown hown'
    · -- the calls on `c` are all there is
      have halone : ∀ i ∈ insert c cores, i = c := Finset.forall_mem_insert _ _ _ |>.mpr ⟨rfl, hcores⟩
      rw [eq_map_callsOn fun call hcall => halone _ (hin call hcall), hown,
        eq_map_callsOn fun call hcall => halone _ (hin' call hcall), hown']
    · rw [HardwareThreads.answers_eq_flagAnswers (hown ▸ hflag), HardwareThreads.answers_eq_flagAnswers (hown' ▸ hflag),
        hown, hown']

/-- A busy thread polled at once, and after one poll of another thread. -/
theorem polled_apart :
    ¬ Independent { fThreadList := fun _ => {}, busyTimer := 0, kProcessBlocks := fun _ => 0 } {1} 2
      [.busy true, .isBusy] := by
  intro h
  have hsame := h [(2, .busy true), (2, .isBusy)] [(2, .busy true), (1, .isBusy), (2, .isBusy)]
    (by decide) (by decide) rfl rfl
  exact absurd hsame (by decide)

end OpenNE

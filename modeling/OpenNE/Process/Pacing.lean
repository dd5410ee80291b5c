import OpenNE.Process.Dylib
import OpenNE.Process.RoundRobin

/-!
# The time of a process

`Run` takes one off the time of every slot it does not dispatch, whatever the reason. The time has no sign: at a slot
that cannot be scheduled zero becomes 2^64 - 1, far above every affinity, and the process that runs there next waits
that long. `Spawn` sets the time to the standard affinity whatever the affinity of the slot. So the times stay in
bounds exactly as long as every pass finds the slots without time left schedulable, and no process is spawned into a
slot of an affinity below the standard (`paced_iff`).
-/

namespace OpenNE

/-- The values of `AffinityKind`. -/
def affinityKinds : List Int32 := [250, 200, 1000, 1500, 2000]

/-- `AffinityKind::kVeryLowUsage`, the greatest of them. -/
def kVeryLowUsage : UInt64 := 2000

/-! ### The library functions, with the crash they call -/

/-- `thread.Crash()`. The count of the team is not seen from here. -/
def crashThread (env : ProcessEnv) (debug : Bool) (fuel : Nat) (thread : UserProcess) (sys : System) :
    Exec (UserProcess × System) :=
  if thread.status ≠ .kRunning then .ok (thread, sys)
  else thread.exit env debug fuel 39 sys

/-- `rtl_init_dylib` and `rtl_fini_dylib`, with the crash of the process they are given. A process that exits is not
running any more, so the crash in `rtl_fini_dylib` returns at once. -/
def DylibEnv.closed (env : DylibEnv) (debug : Bool) (fuel : Nat) : DylibEnv :=
  let inner := { env with crash := fun thread sys => .ok (thread, sys) }
  { env with crash := crashThread (inner.processEnv debug) debug fuel }

/-- A processor, and the library functions of the kernel. -/
def DylibEnv.threadEnv (env : DylibEnv) (debug : Bool) (fuel : Nat) (halSendSipi : UInt8 → Exec Unit)
    (leakPID : Exec Unit) : ThreadEnv :=
  { (env.closed debug fuel).processEnv debug with
    halSendSipi := halSendSipi
    leakPID := leakPID }

namespace UserProcess

/-- A process with code and a name, if it runs from now on, is dispatched within its affinity plus one passes. -/
def Prompt (process : UserProcess) : Prop :=
  process.image.fCode ≠ 0 → process.name.getD 0 0 ≠ 0 →
    ∃ n ≤ process.affinity.toInt.toNat, canBeScheduled (pace^[n] { process with status := .kRunning }) = true

end UserProcess

namespace LifeState

/-- The time of every slot is in bounds, and its process is dispatched in time. -/
structure Paced (s : LifeState) : Prop where
  bounded : ∀ i, (s.scheduler.team.mProcessList i).pTime ≤ kVeryLowUsage
  prompt : ∀ i, (s.scheduler.team.mProcessList i).Prompt

/-- The affinities are values of their type. -/
def Typed (s : LifeState) : Prop := ∀ i, (s.scheduler.team.mProcessList i).affinity ∈ affinityKinds

/-- A pass finds every slot without time left schedulable; a spawn finds a slot of at least the standard affinity, or
puts nothing there that could run. -/
def PaceOK (s : LifeState) : LifeOp → Prop
  | .run => s.scheduler.team.mProcessCount < 1 ∨ ∀ i, (s.scheduler.team.mProcessList i).pTime = 0 →
      canBeScheduled (s.scheduler.team.mProcessList i) = true
  | .spawn name code _ => s.scheduler.team.mProcessCount > kSchedProcessLimitPerTeam ∨
      ∀ i : Fin 32, s.scheduler.team.mProcessCount = i.1 → code = 0 ∨ name.1 = [] ∨
        1000 ≤ (s.scheduler.team.mProcessList i).affinity ∨
        (s.scheduler.team.mProcessList i).kind = kExectuableDylibKind ∧ s.status i = .kRunning
  | .wake _ _ | .crash _ | .exit _ _ | .remove _ => True

instance PaceOK.decidable (s : LifeState) : ∀ op, Decidable (s.PaceOK op)
  | .run => inferInstanceAs (Decidable (_ ∨ ∀ _, _ → _))
  | .spawn _ _ _ => inferInstanceAs (Decidable (_ ∨ ∀ _, _ → _))
  | .wake _ _ | .crash _ | .exit _ _ | .remove _ => inferInstanceAs (Decidable True)

end LifeState

/-! ### What the calls do to the time -/

/-- The two records have the same time, affinity and name. -/
structure SamePace (process process' : UserProcess) : Prop where
  pTime : process'.pTime = process.pTime
  affinity : process'.affinity = process.affinity
  name : process'.name = process.name

theorem SamePace.rfl {process : UserProcess} : SamePace process process := ⟨.refl _, .refl _, .refl _⟩

/-- The library functions of the environment leave the process of an exit alone. -/
def KeepsThread (env : ProcessEnv) : Prop :=
  ∀ {thread thread' : UserProcess} {sys sys' : System} {success : Bool},
    env.rtlFiniDylib thread sys = .ok (success, thread', sys') → thread' = thread

section Exit

variable {env : ProcessEnv} {debug : Bool} {fuel : Nat} {exitCode : Int32} {process process' : UserProcess}
  {sys sys' : System} {i : Fin 32} {m m' : Machine}

theorem UserProcess.exit_pace (hkeeps : KeepsThread env)
    (h : process.exit env debug fuel exitCode sys = .ok (process', sys')) :
    SamePace process process' ∧ process'.image.fCode = 0 := by
  obtain ⟨h₁, thread, sys₁, -, hdylib, -, rfl, -⟩ := UserProcess.exit_eq_ok_iff.mp h
  obtain ⟨-, rfl, -⟩ | ⟨-, thread₀, hfini, rfl⟩ := UserProcess.exitDylib_eq_ok_iff.mp hdylib
  · exact ⟨⟨rfl, rfl, rfl⟩, rfl⟩
  · obtain rfl := hkeeps hfini
    exact ⟨⟨rfl, rfl, rfl⟩, rfl⟩

theorem Machine.exit_pace (hkeeps : KeepsThread env) (h : m.exit env debug fuel exitCode i = .ok m') :
    SamePace (m.team.mProcessList i) (m'.team.mProcessList i) ∧ (m'.team.mProcessList i).image.fCode = 0 ∧
      ∀ j, j ≠ i → m'.team.mProcessList j = m.team.mProcessList j := by
  obtain ⟨⟨process, sys⟩, hexit, hret⟩ := Exec.bind_eq_ok.mp h
  obtain rfl := Except.ok.inj hret
  have hslot : (m.setProcess i process).team.mProcessList i = process := Machine.setProcess_same
  obtain ⟨hpace, hcode⟩ := UserProcess.exit_pace hkeeps hexit
  exact ⟨hslot.symm ▸ hpace, hslot.symm ▸ hcode, fun j hj => Machine.setProcess_other hj⟩

theorem Machine.crash_pace (hkeeps : KeepsThread env) (h : m.crash env debug fuel i = .ok m') :
    m' = m ∨ SamePace (m.team.mProcessList i) (m'.team.mProcessList i) ∧ (m'.team.mProcessList i).image.fCode = 0 ∧
      ∀ j, j ≠ i → m'.team.mProcessList j = m.team.mProcessList j := by
  unfold Machine.crash at h
  split_ifs at h with hrunning
  · exact Or.inl (Except.ok.inj h).symm
  · exact Or.inr (Machine.exit_pace hkeeps h)

end Exit

section Closed

variable {env : DylibEnv} {debug : Bool} {fuel : Nat} {process process' : UserProcess} {sys sys' : System}
  {halSendSipi : UInt8 → Exec Unit} {leakPID : Exec Unit}

theorem keepsThread_processEnv (env : DylibEnv) (debug : Bool) : KeepsThread (env.processEnv debug) :=
  fun h => (rtlFiniDylib_eq_ok h).2.2

theorem reactToKind_pace
    (h : Machine.reactToKind (env.threadEnv debug fuel halSendSipi leakPID).toProcessEnv debug process sys =
      .ok (process', sys')) :
    SamePace process process' ∧ process'.image.fCode =
      if process.kind = kExectuableDylibKind ∧ process.status = .kRunning then 0 else process.image.fCode := by
  by_cases hkind : process.kind = kExectuableDylibKind
  · rw [Machine.reactToKind, if_pos hkind] at h
    obtain ⟨⟨d, thread, sys₁⟩, hinit, h⟩ := Exec.bind_eq_ok.mp h
    obtain ⟨_, -, h⟩ := Exec.bind_eq_ok.mp h
    obtain ⟨rfl, rfl⟩ := Prod.mk.injEq .. ▸ Except.ok.inj h
    obtain ⟨-, sys₂, sys₃, hcrash⟩ := rtlInitDylib_eq_ok hinit
    have hcrash : crashThread _ debug fuel process sys₂ = .ok (thread, sys₃) := hcrash
    unfold crashThread at hcrash
    split_ifs at hcrash with hrunning
    · obtain ⟨rfl, -⟩ := Prod.mk.injEq .. ▸ Except.ok.inj hcrash
      exact ⟨⟨rfl, rfl, rfl⟩, by rw [if_neg fun h => hrunning h.2]⟩
    · obtain ⟨hpace, hcode⟩ := UserProcess.exit_pace (keepsThread_processEnv _ _) hcrash
      exact ⟨⟨hpace.pTime, hpace.affinity, hpace.name⟩, by rw [if_pos ⟨hkind, not_not.mp hrunning⟩]; exact hcode⟩
  · obtain ⟨rfl, rfl⟩ := Machine.reactToKind_eq_ok h hkind
    exact ⟨.rfl, by rw [if_neg fun h => hkind h.1]⟩

end Closed

/-! ### The passes up to a dispatch -/

namespace UserProcess

section Prompt

variable {process process' : UserProcess} {a : Nat}

theorem toNat_sub_ofNat {t : UInt64} {n : Nat} (hn : n ≤ t.toNat) : (t - .ofNat n).toNat = t.toNat - n := by
  have hlt : n < 2 ^ 64 := lt_of_le_of_lt hn t.toNat_lt
  have hofNat : (UInt64.ofNat n).toNat = n := UInt64.toNat_ofNat_of_lt hlt
  rw [UInt64.toNat_sub_of_le _ _ (by rwa [UInt64.le_iff_toNat_le, hofNat]), hofNat]

theorem eligible_pTime (helig : Scheduler.Eligible a process) (t : UInt64) :
    Scheduler.Eligible a { process with pTime := t } := ⟨helig.running, helig.code, helig.name, helig.affinity⟩

theorem pace_iterate (helig : Scheduler.Eligible a process) {n : Nat} (hn : n ≤ process.pTime.toNat) :
    pace^[n] process = { process with pTime := process.pTime - .ofNat n } := by
  induction n with
  | zero => simp
  | succ n ih =>
    have hleft : (process.pTime - .ofNat n).toNat = process.pTime.toNat - n := toNat_sub_ofNat (by omega)
    have hnext : process.pTime - .ofNat n - 1 = process.pTime - .ofNat (n + 1) := by
      rw [UInt64.ofNat_add]
      grind
    have hwaits : ¬ canBeScheduled { process with pTime := process.pTime - .ofNat n } = true := by
      rw [(eligible_pTime helig _).canBeScheduled_iff, ← UInt64.toNat_inj]
      dsimp only
      rw [hleft]
      simp
      omega
    rw [Function.iterate_succ_apply', ih (by omega), pace, if_neg hwaits]
    dsimp only
    rw [hnext]

theorem prompt_iff (hcode : process.image.fCode ≠ 0) (hname : process.name.getD 0 0 ≠ 0)
    (haffinity : 0 ≤ process.affinity) :
    process.Prompt ↔ process.pTime.toNat ≤ process.affinity.toInt.toNat := by
  have hint : process.affinity.toInt = (process.affinity.toInt.toNat : Int) :=
    (Int.toNat_of_nonneg (Int32.le_iff_toInt_le.mp haffinity)).symm
  have helig : Scheduler.Eligible process.affinity.toInt.toNat { process with status := .kRunning } :=
    ⟨rfl, hcode, hname, hint⟩
  have hdispatch : ∀ n ≤ process.pTime.toNat,
      (canBeScheduled (pace^[n] { process with status := .kRunning }) = true ↔ n = process.pTime.toNat) := by
    intro n hn
    rw [pace_iterate helig hn, (eligible_pTime helig _).canBeScheduled_iff, ← UInt64.toNat_inj]
    dsimp only
    rw [toNat_sub_ofNat hn]
    simp
    omega
  constructor
  · intro hprompt
    obtain ⟨n, hn, hcan⟩ := hprompt hcode hname
    by_contra hlate
    have := (hdispatch n (by omega)).mp hcan
    omega
  · intro hsoon _ _
    exact ⟨_, hsoon, (hdispatch _ le_rfl).mpr rfl⟩

/-- The time is in bounds, and the process is dispatched in time. -/
def InTime (process : UserProcess) : Prop := process.pTime ≤ kVeryLowUsage ∧ process.Prompt

theorem affinity_mem (h : process.affinity ∈ affinityKinds) :
    0 ≤ process.affinity ∧ process.affinity.toInt.toNat ≤ 2000 ∧
      process.affinity.toInt64.toUInt64.toNat = process.affinity.toInt.toNat := by
  simp only [affinityKinds, List.mem_cons, List.not_mem_nil, or_false] at h
  rcases h with h | h | h | h | h <;> rw [h] <;> decide

theorem standard_le_iff (h : process.affinity ∈ affinityKinds) :
    kAffinityStandard.toNat ≤ process.affinity.toInt.toNat ↔ 1000 ≤ process.affinity := by
  simp only [affinityKinds, List.mem_cons, List.not_mem_nil, or_false] at h
  rcases h with h | h | h | h | h <;> rw [h] <;> decide

theorem inTime_iff (h : process.affinity ∈ affinityKinds) :
    process.InTime ↔ process.pTime.toNat ≤ 2000 ∧ (process.image.fCode ≠ 0 → process.name.getD 0 0 ≠ 0 →
      process.pTime.toNat ≤ process.affinity.toInt.toNat) := by
  refine and_congr UInt64.le_iff_toNat_le ⟨fun hprompt hcode hname => ?_, fun hsoon hcode hname => ?_⟩
  · exact (prompt_iff hcode hname (affinity_mem h).1).mp hprompt
  · exact (prompt_iff hcode hname (affinity_mem h).1).mpr (hsoon hcode hname) hcode hname

theorem InTime.of_samePace (h : process.InTime) (haffinity : process.affinity ∈ affinityKinds)
    (hpace : SamePace process process')
    (hcode : process'.image.fCode = process.image.fCode ∨ process'.image.fCode = 0) : process'.InTime := by
  obtain ⟨hbound, hsoon⟩ := (inTime_iff haffinity).mp h
  rw [inTime_iff (hpace.affinity ▸ haffinity), hpace.pTime, hpace.affinity, hpace.name]
  refine ⟨hbound, fun hcode' => hsoon ?_⟩
  rcases hcode with hsame | hnone
  · rwa [← hsame]
  · exact absurd hnone hcode'

theorem InTime.countDown_iff (h : process.InTime) (haffinity : process.affinity ∈ affinityKinds) :
    InTime { process with pTime := process.pTime - 1 } ↔ process.pTime ≠ 0 := by
  obtain ⟨hbound, hsoon⟩ := (inTime_iff haffinity).mp h
  rw [inTime_iff (by exact haffinity)]
  dsimp only
  constructor
  · rintro ⟨hbound', -⟩ hzero
    rw [hzero] at hbound'
    exact absurd hbound' (by decide)
  · intro hpos
    have hnext : (process.pTime - 1).toNat = process.pTime.toNat - 1 := by
      refine toNat_sub_ofNat (n := 1) (Nat.one_le_iff_ne_zero.mpr fun hzero => hpos ?_)
      exact UInt64.toNat_inj.mp hzero
    rw [hnext]
    refine ⟨by omega, fun hcode hname => ?_⟩
    have hle := hsoon hcode hname
    omega

theorem inTime_affinity (haffinity : process.affinity ∈ affinityKinds) :
    InTime { process with pTime := process.affinity.toInt64.toUInt64 } := by
  obtain ⟨-, hle, htime⟩ := affinity_mem haffinity
  rw [inTime_iff (by exact haffinity)]
  dsimp only
  rw [htime]
  exact ⟨hle, fun _ _ => le_rfl⟩

end Prompt

end UserProcess

/-! ### The calls -/

section Run

variable {env : ThreadEnv} {debug : Bool} {fuel n : Nat} {s s' : Scheduler} {i : Fin 32}

theorem Scheduler.runSlot_pace (hkeeps : KeepsThread env.toProcessEnv) (h : s.runSlot env debug fuel i = .ok s') :
    canBeScheduled (s.team.mProcessList i) = false ∧ s'.team.mProcessList i =
        { s.team.mProcessList i with pTime := (s.team.mProcessList i).pTime - 1 } ∨
      canBeScheduled (s.team.mProcessList i) = true ∧
        SamePace { s.team.mProcessList i with pTime := (s.team.mProcessList i).affinity.toInt64.toUInt64 }
          (s'.team.mProcessList i) ∧
        ((s'.team.mProcessList i).image.fCode = (s.team.mProcessList i).image.fCode ∨
          (s'.team.mProcessList i).image.fCode = 0) := by
  have hset : ∀ process, (s.setProcess i process).team.mProcessList i = process := fun _ => Machine.setProcess_same
  rcases Scheduler.runSlot_cases h with ⟨hcan, rfl⟩ | ⟨hcan, s₁, hteam, rfl | ⟨m, hcrash, rfl⟩⟩
  · exact Or.inl ⟨hcan, hset _⟩
  · rw [hteam, hset]
    exact Or.inr ⟨hcan, .rfl, Or.inl rfl⟩
  · refine Or.inr ⟨hcan, ?_⟩
    rcases Machine.crash_pace hkeeps hcrash with rfl | ⟨hpace, hcode, -⟩
    · rw [hteam, hset]
      exact ⟨.rfl, Or.inl rfl⟩
    · rw [hteam, hset] at hpace
      exact ⟨hpace, Or.inr hcode⟩

theorem Scheduler.run_inTime (hkeeps : KeepsThread env.toProcessEnv) (h : s.run env debug fuel = .ok (n, s'))
    (haffinity : (s.team.mProcessList i).affinity ∈ affinityKinds) (htime : (s.team.mProcessList i).InTime) :
    (s'.team.mProcessList i).affinity = (s.team.mProcessList i).affinity ∧
      ((s'.team.mProcessList i).InTime ↔ s.team.mProcessCount < 1 ∨
        ((s.team.mProcessList i).pTime = 0 → canBeScheduled (s.team.mProcessList i) = true)) := by
  by_cases hcount : s.team.mProcessCount < 1
  · rw [Scheduler.run, if_pos hcount] at h
    obtain ⟨-, rfl⟩ := Prod.mk.injEq .. ▸ Except.ok.inj h
    exact ⟨rfl, iff_of_true htime (Or.inl hcount)⟩
  obtain ⟨log, hlogged⟩ : ∃ log, s.runLogged env debug fuel = .ok (log, s') := by
    have hsame : (s.run env debug fuel).map Prod.snd = (s.runLogged env debug fuel).map Prod.snd :=
      Scheduler.run_eq_runLogged s
    rw [h] at hsame
    obtain ⟨⟨log, s₁⟩, hrun, rfl⟩ := Exec.exists_of_map hsame.symm
    exact ⟨log, hrun⟩
  obtain ⟨s₁, s₂, hbefore, hturn, hafter, -⟩ := Scheduler.runLogged_turn (by omega) hlogged i
  have hpace := Scheduler.runSlot_pace hkeeps hturn
  rw [hbefore] at hpace
  rw [hafter]
  rcases hpace with ⟨hcan, hdown⟩ | ⟨hcan, hset, hcode⟩
  · rw [hdown, htime.countDown_iff haffinity, hcan]
    refine ⟨rfl, fun hpos => Or.inr fun hzero => absurd hzero hpos, fun hleft hzero => ?_⟩
    rcases hleft with hempty | hleft
    · exact hcount hempty
    · cases hleft hzero
  · refine ⟨hset.affinity, iff_of_true ?_ (Or.inr fun _ => hcan)⟩
    exact (UserProcess.inTime_affinity haffinity).of_samePace haffinity hset hcode

end Run

section Spawn

variable {env : DylibEnv} {debug : Bool} {fuel fuel' : Nat} {halSendSipi : UInt8 → Exec Unit} {leakPID : Exec Unit}
  {name : CString} {code image : UInt64} {pid : Int} {m m' : Machine} {i : Fin 32}

theorem getD_terminated (name : CString) (bytes : List UInt8) : (name.1 ++ 0 :: bytes).getD 0 0 = 0 ↔ name.1 = [] := by
  obtain ⟨_ | ⟨b, bs⟩, hzero⟩ := name
  · simp
  · have hb : b ≠ 0 := fun h => hzero (h ▸ List.mem_cons_self)
    simp [hb]

theorem Machine.spawn_inTime
    (h : m.spawn (env.threadEnv debug fuel' halSendSipi leakPID).toProcessEnv debug fuel name code image =
      .ok (pid, m'))
    (haffinity : (m.team.mProcessList i).affinity ∈ affinityKinds) (htime : (m.team.mProcessList i).InTime) :
    (m'.team.mProcessList i).affinity = (m.team.mProcessList i).affinity ∧
      ((m'.team.mProcessList i).InTime ↔ m.team.mProcessCount > kSchedProcessLimitPerTeam ∨
        (m.team.mProcessCount = i.1 → code = 0 ∨ name.1 = [] ∨ 1000 ≤ (m.team.mProcessList i).affinity ∨
          (m.team.mProcessList i).kind = kExectuableDylibKind ∧ (m.team.mProcessList i).status = .kRunning)) := by
  obtain ⟨hlimit, -, rfl⟩ | ⟨j, hcount⟩ := Machine.spawn_slot h
  · exact ⟨rfl, iff_of_true htime (Or.inl hlimit)⟩
  obtain ⟨-, v, h₁, f, h₂, process, sys, r, h₃, -, -, hreact, -, rfl⟩ := Machine.spawn_cases hcount h
  by_cases hij : i = j
  · subst hij
    obtain ⟨hpace, hcode⟩ := reactToKind_pace hreact
    have hslot : ∀ q : UserProcess, Function.update m.team.mProcessList i q i = q := fun _ => Function.update_self ..
    dsimp only
    rw [hslot]
    refine ⟨hpace.affinity, ?_⟩
    have haffinity' : process.affinity ∈ affinityKinds := hpace.affinity.symm ▸ haffinity
    rw [UserProcess.inTime_iff (by exact haffinity')]
    dsimp only at hcode ⊢
    have hname : process.name.getD 0 0 = 0 ↔ name.1 = [] := by
      rw [hpace.name]
      exact getD_terminated ..
    have hstandard : kAffinityStandard.toNat ≤ process.affinity.toInt.toNat ↔
        1000 ≤ (m.team.mProcessList i).affinity := by
      rw [hpace.affinity]
      exact UserProcess.standard_le_iff haffinity
    have hlimit : ¬ m.team.mProcessCount > kSchedProcessLimitPerTeam := by
      rw [hcount, kSchedProcessLimitPerTeam]
      omega
    have hbound : kAffinityStandard.toNat ≤ 2000 := by decide
    rw [hcode, hstandard, Ne, Ne, hname]
    by_cases hcleared : (m.team.mProcessList i).kind = kExectuableDylibKind ∧
        (m.team.mProcessList i).status = .kRunning
    · rw [if_pos hcleared]
      exact iff_of_true ⟨hbound, fun h => absurd rfl h⟩ (Or.inr fun _ => Or.inr (Or.inr (Or.inr hcleared)))
    · rw [if_neg hcleared]
      constructor
      · rintro ⟨-, hsoon⟩
        refine Or.inr fun _ => ?_
        by_cases hnone : code = 0
        · exact Or.inl hnone
        by_cases hempty : name.1 = []
        · exact Or.inr (Or.inl hempty)
        · exact Or.inr (Or.inr (Or.inl (hsoon hnone hempty)))
      · rintro (hover | hok)
        · exact absurd hover hlimit
        refine ⟨hbound, fun hsome hnamed => ?_⟩
        rcases hok hcount with hnone | hempty | hle | hdylib
        · exact absurd hnone hsome
        · exact absurd hempty hnamed
        · exact hle
        · exact absurd hdylib hcleared
  · have hother : ∀ q : UserProcess, Function.update m.team.mProcessList j q i = m.team.mProcessList i :=
      fun _ => Function.update_of_ne hij ..
    dsimp only
    rw [hother]
    refine ⟨rfl, iff_of_true htime (Or.inr fun hi => absurd ?_ hij)⟩
    rw [hcount] at hi
    exact Fin.ext (by exact_mod_cast hi.symm)

end Spawn

section Calls

variable {env : DylibEnv} {debug : Bool} {fuel : Nat} {halSendSipi : UInt8 → Exec Unit} {leakPID : Exec Unit}
  {s s' : LifeState} {op : LifeOp} {i : Fin 32}

namespace LifeState

theorem paced_iff_inTime : s.Paced ↔ ∀ i, (s.scheduler.team.mProcessList i).InTime :=
  ⟨fun h i => ⟨h.bounded i, h.prompt i⟩, fun h => ⟨fun i => (h i).1, fun i => (h i).2⟩⟩

/-- The condition at slot `i`. -/
def SlotOK (s : LifeState) (i : Fin 32) : LifeOp → Prop
  | .run => s.scheduler.team.mProcessCount < 1 ∨ ((s.scheduler.team.mProcessList i).pTime = 0 →
      canBeScheduled (s.scheduler.team.mProcessList i) = true)
  | .spawn name code _ => s.scheduler.team.mProcessCount > kSchedProcessLimitPerTeam ∨
      (s.scheduler.team.mProcessCount = i.1 → code = 0 ∨ name.1 = [] ∨
        1000 ≤ (s.scheduler.team.mProcessList i).affinity ∨
        (s.scheduler.team.mProcessList i).kind = kExectuableDylibKind ∧ s.status i = .kRunning)
  | .wake _ _ | .crash _ | .exit _ _ | .remove _ => True

theorem paceOK_iff : s.PaceOK op ↔ ∀ i, s.SlotOK i op := by
  cases op with
  | run => exact forall_or_left.symm
  | spawn name code image => exact forall_or_left.symm
  | wake i shouldWakeup => exact (forall_const _).symm
  | crash i => exact (forall_const _).symm
  | exit i exitCode => exact (forall_const _).symm
  | remove processId => exact (forall_const _).symm

theorem exit_inTime {exitCode : Int32} {j : Fin 32} {m : Machine} {tenv : ProcessEnv} (hkeeps : KeepsThread tenv)
    (hexit : s.scheduler.exit tenv debug fuel exitCode j = .ok m)
    (haffinity : (s.scheduler.team.mProcessList i).affinity ∈ affinityKinds)
    (htime : (s.scheduler.team.mProcessList i).InTime) :
    (m.team.mProcessList i).affinity = (s.scheduler.team.mProcessList i).affinity ∧
      (m.team.mProcessList i).InTime := by
  obtain ⟨hpace, hcode, hother⟩ := Machine.exit_pace hkeeps hexit
  by_cases hij : i = j
  · subst hij
    exact ⟨hpace.affinity, htime.of_samePace haffinity hpace (Or.inr hcode)⟩
  · rw [hother i hij]
    exact ⟨rfl, htime⟩

theorem call_inTime (hstep : LifeStep (env.threadEnv debug fuel halSendSipi leakPID) debug s op s')
    (haffinity : (s.scheduler.team.mProcessList i).affinity ∈ affinityKinds)
    (htime : (s.scheduler.team.mProcessList i).InTime) :
    (s'.scheduler.team.mProcessList i).affinity = (s.scheduler.team.mProcessList i).affinity ∧
      ((s'.scheduler.team.mProcessList i).InTime ↔ s.SlotOK i op) := by
  have hkeeps : KeepsThread (env.threadEnv debug fuel halSendSipi leakPID).toProcessEnv := keepsThread_processEnv _ _
  obtain ⟨fuel', hcall⟩ := hstep
  cases op with
  | spawn name code image =>
    obtain ⟨⟨pid, m⟩, hspawn, hret⟩ := Exec.bind_eq_ok.mp hcall
    rw [← Except.ok.inj hret]
    exact Machine.spawn_inTime hspawn haffinity htime
  | wake j shouldWakeup =>
    rw [← Except.ok.inj hcall]
    by_cases hij : i = j
    · subst hij
      have hslot : (s.scheduler.wake i shouldWakeup).team.mProcessList i = _ := Machine.setProcess_same
      dsimp only [after]
      rw [hslot]
      exact ⟨rfl, iff_of_true htime trivial⟩
    · have hslot : (s.scheduler.wake j shouldWakeup).team.mProcessList i = _ := Machine.setProcess_other hij
      dsimp only [after]
      rw [hslot]
      exact ⟨rfl, iff_of_true htime trivial⟩
  | crash j =>
    obtain ⟨m, hcrash, hret⟩ := Exec.bind_eq_ok.mp hcall
    rw [← Except.ok.inj hret]
    dsimp only [after]
    unfold Machine.crash at hcrash
    split_ifs at hcrash with hrunning
    · rw [← Except.ok.inj hcrash]
      exact ⟨rfl, iff_of_true htime trivial⟩
    · obtain ⟨hsame, hin⟩ := exit_inTime hkeeps hcrash haffinity htime
      exact ⟨hsame, iff_of_true hin trivial⟩
  | exit j exitCode =>
    obtain ⟨m, hexit, hret⟩ := Exec.bind_eq_ok.mp hcall
    rw [← Except.ok.inj hret]
    obtain ⟨hsame, hin⟩ := exit_inTime hkeeps hexit haffinity htime
    exact ⟨hsame, iff_of_true hin trivial⟩
  | remove processId =>
    obtain ⟨⟨ret, m⟩, hremove, hret⟩ := Exec.bind_eq_ok.mp hcall
    rw [← Except.ok.inj hret]
    rcases Machine.remove_cases hremove with ⟨-, -, rfl⟩ | ⟨j, -, -, hexit⟩
    · exact ⟨rfl, iff_of_true htime trivial⟩
    · obtain ⟨hsame, hin⟩ := exit_inTime hkeeps hexit haffinity htime
      exact ⟨hsame, iff_of_true hin trivial⟩
  | run =>
    obtain ⟨⟨n, scheduler⟩, hrun, hret⟩ := Exec.bind_eq_ok.mp hcall
    rw [← Except.ok.inj hret]
    exact Scheduler.run_inTime hkeeps hrun haffinity htime

/-- One call keeps the types, and the times in bounds exactly under the condition. -/
theorem Paced.step (h : s.Paced) (htyped : s.Typed)
    (hstep : LifeStep (env.threadEnv debug fuel halSendSipi leakPID) debug s op s') :
    s'.Typed ∧ (s'.Paced ↔ s.PaceOK op) := by
  have hcall := fun i => call_inTime hstep (htyped i) (paced_iff_inTime.mp h i)
  refine ⟨fun i => (hcall i).1 ▸ htyped i, ?_⟩
  rw [paced_iff_inTime, paceOK_iff]
  exact forall_congr' fun i => (hcall i).2

end LifeState

end Calls

end OpenNE

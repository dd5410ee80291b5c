import OpenNE.Base.Call
import Mathlib.Data.Nat.Find

/-!
# Waiting on a timer (`src/SoftwareTimer.cc`, `HALKit/AMD64/HalTimerAMD64.cc`)

The limit of the software timer moves with its counter: the loop ends only where the sum of the two overflows. The
hardware timer compares its counter with the ticks alone, and so forgets where it started.
-/

namespace OpenNE

/-! ### The software timer -/

/-- `SoftwareTimer`: its counter and its wait. -/
structure SoftwareTimer where
  fDigitalTimer : Int64
  fWaitFor : Int64

/-- A wait under way: the counter, how often it was incremented, and whether a sum has overflowed. -/
structure SoftwareWait where
  counter : Int64
  increments : Nat
  overflow : Bool

def addOverflows (a b : Int64) : Bool := (a + b).toInt ≠ a.toInt + b.toInt

/-- A round of the loop. -/
def softwareRound (fWaitFor : Int64) (s : SoftwareWait) : Exec (SoftwareWait ⊕ SoftwareWait) :=
  let s := { s with overflow := s.overflow || addOverflows s.counter fWaitFor }
  if s.counter < s.counter + fWaitFor then
    .ok (.inl { s with counter := s.counter + 1, increments := s.increments + 1 })
  else .ok (.inr s)

/-- `SoftwareTimer::Wait`. -/
def SoftwareTimer.wait (fuel : Nat) (timer : SoftwareTimer) : Exec (Bool × SoftwareWait) :=
  if timer.fWaitFor < 1 then .ok (false, ⟨timer.fDigitalTimer, 0, false⟩)
  else do
    let s ← loop (softwareRound timer.fWaitFor) fuel ⟨timer.fDigitalTimer, 0, false⟩
    .ok (true, s)

/-! ### The hardware timer -/

/-- The HPET: what its first word answers, read after read. From the second on it does not decrease. -/
structure Hpet where
  readings : Nat → UInt64
  nondecreasing : ∀ i, readings (i + 1) ≤ readings (i + 2)

/-- Its configuration, and how often the first word was read. -/
structure HpetState where
  config : UInt64
  reads : Nat

namespace Hpet

/-- `*(fDigitalTimer)`, which is `*(fDigitalTimer + cHPETCounterRegValue)` too. -/
def read (hpet : Hpet) : Call HpetState UInt64 :=
  fun s => (.ok (hpet.readings s.reads), { s with reads := s.reads + 1 })

/-- Enabled in one shot mode, if it is not enabled yet. -/
def enable : Call HpetState Unit :=
  Call.modify fun s =>
    if s.config &&& 1 = 0 then
      let s := { s with config := s.config ||| 1 }
      { s with config := s.config ||| (1 : UInt64) <<< 3 }
    else s

/-- The tick period that a word holds. -/
def period (word : UInt64) : UInt64 := word >>> 32 &&& 0xffffffff

/-- The ticks of a wait. -/
def ticks (fWaitFor : Int64) (word : UInt64) : UInt64 := (fWaitFor / (period word).toInt64).toUInt64

/-- A round of the loop. -/
def waitRound (hpet : Hpet) (ticks : UInt64) (_ : Unit) : Call HpetState (Unit ⊕ Unit) := do
  let counter ← hpet.read
  if counter < ticks then return .inl () else return .inr ()

/-- `HardwareTimer::Wait`. A period of zero is divided by. -/
def wait (hpet : Hpet) (fuel : Nat) (fWaitFor : Int64) : Call HpetState Bool :=
  if fWaitFor < 1 then pure false
  else do
    enable
    let word ← hpet.read
    if period word = 0 then Call.stop .fault
    else do
      let _prev ← hpet.read
      Call.rounds (hpet.waitRound (ticks fWaitFor word)) fuel ()
      return true

end Hpet

/-! ### What they are for -/

/-- The wait ends after as many increments as it was for; one for less than one is refused. -/
structure SoftwareRight (timer : SoftwareTimer) : Prop where
  refused : timer.fWaitFor < 1 → ∀ fuel, timer.wait fuel = .ok (false, ⟨timer.fDigitalTimer, 0, false⟩)
  waits : ¬ timer.fWaitFor < 1 → ∃ fuel s, timer.wait fuel = .ok (true, s) ∧ s.overflow = false ∧
    (s.increments : Int) = timer.fWaitFor.toInt

namespace Hpet

/-- The counter where the wait starts. -/
def start (hpet : Hpet) : UInt64 := hpet.readings 1

/-- Its readings after that. -/
def later (hpet : Hpet) (i : Nat) : UInt64 := hpet.readings (i + 2)

/-- A reading that is as many ticks behind the start as the wait is for. -/
def Over (hpet : Hpet) (fWaitFor : Int64) (i : Nat) : Prop :=
  hpet.start.toNat + (ticks fWaitFor (hpet.readings 0)).toNat ≤ (hpet.later i).toNat

end Hpet

/-- The wait returns only behind a reading that is over, and does when there is one; one for less than one is
refused. -/
structure HardwareRight (hpet : Hpet) (fWaitFor : Int64) (config : UInt64) : Prop where
  refused : fWaitFor < 1 → ∀ fuel, hpet.wait fuel fWaitFor ⟨config, 0⟩ = (.ok false, ⟨config, 0⟩)
  late : ¬ fWaitFor < 1 → ∀ fuel ret s, hpet.wait fuel fWaitFor ⟨config, 0⟩ = (.ok ret, s) →
    ∃ i, i + 2 < s.reads ∧ hpet.Over fWaitFor i
  returns : ¬ fWaitFor < 1 → ∀ i, hpet.Over fWaitFor i →
    ∃ fuel s, hpet.wait fuel fWaitFor ⟨config, 0⟩ = (.ok true, s) ∧ s.reads ≤ i + 3

/-! ### The moving limit -/

section Software

variable {timer : SoftwareTimer} {fWaitFor t : Int64} {s : SoftwareWait} {fuel : Nat}

theorem lt_add_of_not_overflows (hw : ¬ fWaitFor < 1) (h : addOverflows t fWaitFor = false) : t < t + fWaitFor := by
  have hsum : (t + fWaitFor).toInt = t.toInt + fWaitFor.toInt := by
    simpa [addOverflows] using h
  have hpos : (1 : Int64).toInt ≤ fWaitFor.toInt := by
    rw [Int64.lt_iff_toInt_lt] at hw
    omega
  have hone : (1 : Int64).toInt = 1 := rfl
  rw [Int64.lt_iff_toInt_lt, hsum]
  omega

theorem softwareWait_overflow (hw : ¬ fWaitFor < 1) {start : SoftwareWait}
    (h : loop (softwareRound fWaitFor) fuel start = .ok s) : s.overflow = true := by
  refine loop_invariant (fun _ => True) (fun s => s.overflow = true) (fun _ _ _ _ => trivial) ?_ trivial h
  intro s last _ hround
  rw [softwareRound] at hround
  split_ifs at hround with hlt
  · cases hround
  have hlast : last.overflow = (s.overflow || addOverflows s.counter fWaitFor) := by
    cases hround
    rfl
  by_contra hno
  rw [hlast, Bool.not_eq_true, Bool.or_eq_false_iff] at hno
  exact hlt (lt_add_of_not_overflows hw hno.2)

theorem softwareRight_iff : SoftwareRight timer ↔ timer.fWaitFor < 1 := by
  constructor
  · intro h
    by_contra hw
    obtain ⟨fuel, s, hwait, hnone, -⟩ := h.waits hw
    rw [SoftwareTimer.wait, if_neg hw] at hwait
    obtain ⟨last, hloop, hret⟩ := Exec.bind_eq_ok.mp hwait
    cases hret
    rw [softwareWait_overflow hw hloop] at hnone
    cases hnone
  · intro hw
    exact ⟨fun _ fuel => by rw [SoftwareTimer.wait, if_pos hw], fun hno => absurd hw hno⟩

end Software

/-! ### The forgotten start -/

section Hardware

variable {hpet : Hpet} {fWaitFor : Int64} {limit : UInt64} {s s' : HpetState} {fuel n : Nat}

namespace Hpet

theorem waitRound_next (h : hpet.readings s.reads < limit) :
    hpet.waitRound limit () s = (.ok (.inl ()), { s with reads := s.reads + 1 }) := by
  show (if hpet.readings s.reads < limit then (pure (.inl ()) : Call HpetState (Unit ⊕ Unit)) else _) _ = _
  rw [if_pos h]
  rfl

theorem waitRound_leave (h : ¬ hpet.readings s.reads < limit) :
    hpet.waitRound limit () s = (.ok (.inr ()), { s with reads := s.reads + 1 }) := by
  show (if hpet.readings s.reads < limit then (pure (.inl ()) : Call HpetState (Unit ⊕ Unit)) else _) _ = _
  rw [if_neg h]
  rfl

theorem rounds_first (hbelow : ∀ i < n, hpet.readings (s.reads + i) < limit)
    (hlast : ¬ hpet.readings (s.reads + n) < limit) (hfuel : n < fuel) :
    Call.rounds (hpet.waitRound limit) fuel () s = (.ok (), { s with reads := s.reads + n + 1 }) := by
  induction n generalizing fuel s with
  | zero =>
    obtain ⟨fuel, rfl⟩ : ∃ rest, fuel = rest + 1 := ⟨fuel - 1, by omega⟩
    exact Call.rounds_leave (waitRound_leave hlast) fuel
  | succ n ih =>
    obtain ⟨fuel, rfl⟩ : ∃ rest, fuel = rest + 1 := ⟨fuel - 1, by omega⟩
    have hnext : ∀ i, s.reads + 1 + i = s.reads + (i + 1) := fun i => by omega
    rw [Call.rounds_next (waitRound_next (hbelow 0 (Nat.succ_pos n)))]
    rw [ih (s := { s with reads := s.reads + 1 }) _ _ (by omega)]
    · simp only [hnext]
    · intro i hi
      rw [hnext]
      exact hbelow (i + 1) (by omega)
    · rw [hnext]
      exact hlast

theorem exists_of_rounds {r : Unit} (h : Call.rounds (hpet.waitRound limit) fuel () s = (.ok r, s')) :
    ∃ n, s'.reads = s.reads + n + 1 ∧ ¬ hpet.readings (s.reads + n) < limit := by
  induction fuel generalizing s with
  | zero => cases h
  | succ fuel ih =>
    by_cases hbelow : hpet.readings s.reads < limit
    · rw [Call.rounds_next (waitRound_next hbelow)] at h
      obtain ⟨n, hreads, hlast⟩ := ih h
      have hnext : s.reads + 1 + n = s.reads + (n + 1) := by omega
      refine ⟨n + 1, ?_, hnext ▸ hlast⟩
      rw [hreads]
      simp only
      omega
    · rw [Call.rounds_leave (waitRound_leave hbelow)] at h
      cases h
      exact ⟨0, rfl, hbelow⟩

theorem enable_eq (config : UInt64) : ∃ config', enable ⟨config, 0⟩ = (.ok (), ⟨config', 0⟩) := by
  simp only [enable, Call.modify]
  split_ifs
  · exact ⟨_, rfl⟩
  · exact ⟨_, rfl⟩

theorem wait_eq (hw : ¬ fWaitFor < 1) (hperiod : period (hpet.readings 0) ≠ 0) (config : UInt64) :
    ∃ config', hpet.wait fuel fWaitFor ⟨config, 0⟩ =
      (Call.rounds (hpet.waitRound (ticks fWaitFor (hpet.readings 0))) fuel () >>= fun _ => pure true)
        ⟨config', 2⟩ := by
  obtain ⟨config', henable⟩ := enable_eq config
  refine ⟨config', ?_⟩
  rw [wait, if_neg hw, Call.bind_of_ok henable]
  show (if period (hpet.readings 0) = 0 then Call.stop .fault else _) _ = _
  rw [if_neg hperiod]
  rfl

theorem wait_fault (hw : ¬ fWaitFor < 1) (hperiod : period (hpet.readings 0) = 0) (config : UInt64) :
    (hpet.wait fuel fWaitFor ⟨config, 0⟩).1 = .error .fault := by
  obtain ⟨config', henable⟩ := enable_eq config
  rw [wait, if_neg hw, Call.bind_of_ok henable]
  show ((if period (hpet.readings 0) = 0 then Call.stop .fault else _ : Call HpetState Bool) _).1 = _
  rw [if_pos hperiod]
  rfl

theorem wait_returns (hw : ¬ fWaitFor < 1) (hperiod : period (hpet.readings 0) ≠ 0) (config : UInt64)
    (hbelow : ∀ i < n, hpet.later i < ticks fWaitFor (hpet.readings 0))
    (hlast : ¬ hpet.later n < ticks fWaitFor (hpet.readings 0)) :
    ∃ config', hpet.wait (n + 1) fWaitFor ⟨config, 0⟩ = (.ok true, ⟨config', n + 3⟩) := by
  obtain ⟨config', hwait⟩ := @wait_eq hpet fWaitFor (n + 1) hw hperiod config
  have hplace : ∀ i, 2 + i = i + 2 := fun i => Nat.add_comm 2 i
  have hloop := @rounds_first hpet (ticks fWaitFor (hpet.readings 0)) ⟨config', 2⟩ (n + 1) n
    (fun i hi => (hplace i).symm ▸ hbelow i hi) ((hplace n).symm ▸ hlast) (Nat.lt_succ_self n)
  refine ⟨config', ?_⟩
  rw [hwait, Call.bind_of_ok hloop, hplace n]
  rfl

theorem later_mono {i j : Nat} (h : i ≤ j) : hpet.later i ≤ hpet.later j := by
  induction h with
  | refl => exact UInt64.le_refl _
  | step _ ih => exact UInt64.le_trans ih (hpet.nondecreasing _)

theorem start_le (i : Nat) : hpet.start ≤ hpet.later i :=
  UInt64.le_trans (hpet.nondecreasing 0) (later_mono (Nat.zero_le i))

end Hpet

theorem Hpet.exists_first {limit : UInt64} {i : Nat} (h : ¬ hpet.later i < limit) :
    ∃ n ≤ i, (∀ j < n, hpet.later j < limit) ∧ ¬ hpet.later n < limit := by
  have hsome : ∃ n, ¬ hpet.later n < limit := ⟨i, h⟩
  exact ⟨Nat.find hsome, Nat.find_min' hsome h, fun j hj => not_not.mp (Nat.find_min hsome hj), Nat.find_spec hsome⟩

theorem Hpet.Over.not_lt {i : Nat} (h : hpet.Over fWaitFor i) :
    ¬ hpet.later i < ticks fWaitFor (hpet.readings 0) := by
  rw [UInt64.not_lt, UInt64.le_iff_toNat_le]
  exact Nat.le_trans (Nat.le_add_left _ _) h

/-- No reading lies between the ticks and the ticks behind the start. -/
def Hpet.NoneBetween (hpet : Hpet) (fWaitFor : Int64) : Prop :=
  ∀ i, ¬ hpet.later i < ticks fWaitFor (hpet.readings 0) → hpet.Over fWaitFor i

theorem Hpet.wait_ends (hw : ¬ fWaitFor < 1) (hperiod : period (hpet.readings 0) ≠ 0) {config : UInt64} {ret : Bool}
    (hwait : hpet.wait fuel fWaitFor ⟨config, 0⟩ = (.ok ret, s)) :
    ∃ n, s.reads = n + 3 ∧ ¬ hpet.later n < ticks fWaitFor (hpet.readings 0) := by
  obtain ⟨config', heq⟩ := @wait_eq hpet fWaitFor fuel hw hperiod config
  rw [heq] at hwait
  rcases hloop : Call.rounds (hpet.waitRound (ticks fWaitFor (hpet.readings 0))) fuel () ⟨config', 2⟩ with ⟨e | r, s'⟩
  · rw [Call.bind_of_error hloop] at hwait
    cases hwait
  · rw [Call.bind_of_ok hloop] at hwait
    cases hwait
    obtain ⟨n, hreads, hlast⟩ := exists_of_rounds hloop
    rw [Nat.add_comm 2 n] at hreads hlast
    exact ⟨n, hreads, hlast⟩

theorem hardwareRight_iff (config : UInt64) : HardwareRight hpet fWaitFor config ↔
    fWaitFor < 1 ∨ Hpet.period (hpet.readings 0) ≠ 0 ∧ hpet.NoneBetween fWaitFor := by
  constructor
  · intro h
    by_cases hw : fWaitFor < 1
    · exact .inl hw
    have hperiod : Hpet.period (hpet.readings 0) ≠ 0 := by
      intro hzero
      have hnone : Hpet.ticks fWaitFor (hpet.readings 0) = 0 := by
        rw [Hpet.ticks, hzero]
        exact congrArg Int64.toUInt64 (Int64.div_zero)
      have hover : hpet.Over fWaitFor 0 := by
        rw [Hpet.Over, hnone]
        exact UInt64.le_iff_toNat_le.mp (Hpet.start_le 0)
      obtain ⟨fuel, s, hwait, -⟩ := h.returns hw 0 hover
      have hfault := @Hpet.wait_fault hpet fWaitFor fuel hw hzero config
      rw [hwait] at hfault
      cases hfault
    refine .inr ⟨hperiod, fun i hi => ?_⟩
    obtain ⟨n, hn, hbelow, hlast⟩ := Hpet.exists_first hi
    obtain ⟨config', hwait⟩ := Hpet.wait_returns hw hperiod config hbelow hlast
    obtain ⟨j, hj, hover⟩ := h.late hw _ _ _ hwait
    have hji : j ≤ i := by
      simp only at hj
      omega
    exact Nat.le_trans hover (UInt64.le_iff_toNat_le.mp (Hpet.later_mono hji))
  · rintro (hw | ⟨hperiod, hbetween⟩)
    · exact ⟨fun _ fuel => by rw [Hpet.wait, if_pos hw]; rfl, fun hno => absurd hw hno, fun hno => absurd hw hno⟩
    · refine ⟨fun hw fuel => by rw [Hpet.wait, if_pos hw]; rfl, fun hw fuel ret s hwait => ?_, fun hw i hover => ?_⟩
      · obtain ⟨n, hreads, hlast⟩ := Hpet.wait_ends hw hperiod hwait
        exact ⟨n, by omega, hbetween n hlast⟩
      · obtain ⟨n, hn, hbelow, hlast⟩ := Hpet.exists_first hover.not_lt
        obtain ⟨config', hwait⟩ := Hpet.wait_returns hw hperiod config hbelow hlast
        exact ⟨n + 1, ⟨config', n + 3⟩, hwait, Nat.add_le_add_right hn 3⟩

end Hardware

/-- The software timer is right only when it refuses; the hardware timer then too, and where the counter is never read
between the ticks and the ticks behind its start. -/
theorem timers_iff (timer : SoftwareTimer) (hpet : Hpet) (fWaitFor : Int64) (config : UInt64) :
    (SoftwareRight timer ↔ timer.fWaitFor < 1) ∧
    (HardwareRight hpet fWaitFor config ↔
      fWaitFor < 1 ∨ Hpet.period (hpet.readings 0) ≠ 0 ∧ hpet.NoneBetween fWaitFor) :=
  ⟨softwareRight_iff, hardwareRight_iff config⟩

/-- A counter that stands at 1000, of ticks of length 10. -/
def standingHpet : Hpet where
  readings i := if i = 0 then 0xA00000000 else 1000
  nondecreasing _ := UInt64.le_refl _

/-- A wait for one increment does not end, and one for 100, ten ticks, ends at once. -/
theorem timers_fail : ¬ SoftwareRight ⟨0, 1⟩ ∧ (standingHpet.wait 1 100 ⟨0, 0⟩).1 = .ok true ∧
    ¬ HardwareRight standingHpet 100 0 := by
  refine ⟨fun h => absurd (softwareRight_iff.mp h) (by decide), by decide, fun h => ?_⟩
  obtain ⟨-, hbetween⟩ := ((hardwareRight_iff 0).mp h).resolve_left (by decide)
  have hover : standingHpet.Over 100 0 := hbetween 0 (by decide)
  exact absurd hover (by unfold Hpet.Over; decide)

end OpenNE

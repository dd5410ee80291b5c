import OpenNE.Process.Team
import Mathlib.Data.Fintype.Fin

/-!
# Runs of the process team

Spawns, removals and exits in any order, from the empty team. A process is live from its spawn to its exit.
The counter is lowered by every exit and picks the next slot, so the calls that keep it in step with the
live processes are those of `CallOK`.
-/

namespace OpenNE

inductive TeamOp where
  | spawn (name : CString) (code image : UInt64)
  | remove (processId : Int64)
  | exit (i : Fin 32) (exitCode : Int32)

/-- The machine, and the slots of the live processes. -/
structure TeamState where
  machine : Machine
  live : Finset (Fin 32)

/-- A call, and which processes are live after it. -/
def TeamState.call (env : ProcessEnv) (debug : Bool) (fuel : Nat) (s : TeamState) : TeamOp → Exec TeamState
  | .spawn name code image => do
    let (pid, m) ← s.machine.spawn env debug fuel name code image
    return ⟨m, s.live ∪ Finset.univ.filter fun i : Fin 32 => (i.1 : Int) = pid⟩
  | .remove processId => do
    let (ret, m) ← s.machine.remove env debug fuel processId
    return ⟨m, if ret then s.live.filter fun i => i.1 ≠ processId.toUInt64.toNat else s.live⟩
  | .exit i exitCode => do
    let m ← s.machine.exit env debug fuel exitCode i
    return ⟨m, s.live.erase i⟩

def TeamStep (env : ProcessEnv) (debug : Bool) (s : TeamState) (op : TeamOp) (s' : TeamState) : Prop :=
  ∃ fuel, s.call env debug fuel op = .ok s'

/-- A spawn with a name that fits, when the slot whose number is that of the live processes is free; a
removal of a live process or of a number above the limit; an exit of a live process. -/
def TeamState.CallOK (s : TeamState) : TeamOp → Prop
  | .spawn name _ _ => name.length < kProcessNameLen ∧ ∃ i : Fin 32, i.1 = s.live.card ∧ i ∉ s.live
  | .remove processId => (∃ i ∈ s.live, i.1 = processId.toUInt64.toNat) ∨ 32 < processId.toUInt64.toNat
  | .exit i _ => i ∈ s.live

instance (s : TeamState) : ∀ op, Decidable (s.CallOK op)
  | .spawn name _ _ =>
    inferInstanceAs (Decidable (name.length < kProcessNameLen ∧ ∃ i : Fin 32, i.1 = s.live.card ∧ i ∉ s.live))
  | .remove processId =>
    inferInstanceAs (Decidable ((∃ i ∈ s.live, i.1 = processId.toUInt64.toNat) ∨ 32 < processId.toUInt64.toNat))
  | .exit i _ => inferInstanceAs (Decidable (i ∈ s.live))

/-- A team without processes. -/
structure TeamState.Empty (s : TeamState) : Prop where
  team : s.machine.team = .empty
  live : s.live = ∅

/-- The counter counts the live processes; a spawn takes a free slot and leaves the live processes alone; a
removal of anything else does nothing; no call leaves the array. -/
structure TeamProperty (env : ProcessEnv) (debug : Bool) (s : TeamState) : Prop where
  count : s.machine.team.mProcessCount = s.live.card
  spawn : ∀ fuel name code image, s.CallOK (.spawn name code image) →
    Exec.NoFault (s.machine.spawn env debug fuel name code image) ∧
    ∀ pid m, s.machine.spawn env debug fuel name code image = .ok (pid, m) →
      ∃ i : Fin 32, pid = i.1 ∧ i ∉ s.live ∧
        ∀ j ∈ s.live, m.team.mProcessList j = s.machine.team.mProcessList j
  remove : ∀ fuel processId, s.CallOK (.remove processId) →
    Exec.NoFault (s.machine.remove env debug fuel processId) ∧
    ((∀ i ∈ s.live, i.1 ≠ processId.toUInt64.toNat) →
      s.machine.remove env debug fuel processId = .ok (false, s.machine))
  exit : ∀ fuel i exitCode, s.CallOK (.exit i exitCode) →
    Exec.NoFault (s.machine.exit env debug fuel exitCode i)

/-- The invariant. -/
structure TeamInv (s : TeamState) : Prop where
  count : s.machine.team.mProcessCount = s.live.card
  kind : ∀ i, (s.machine.team.mProcessList i).kind = kExectuableKind
  memoryHeap : ∀ i, (s.machine.team.mProcessList i).processMemoryHeap = 0
  parentTeam : ∀ i ∈ s.live, (s.machine.team.mProcessList i).processParentTeam = true

theorem TeamState.Empty.inv {s : TeamState} (h : s.Empty) : TeamInv s := by
  constructor
  · rw [h.team, h.live]
    rfl
  · intro i
    rw [h.team]
    rfl
  · intro i
    rw [h.team]
    rfl
  · rw [h.live]
    simp

namespace TeamInv

variable {env : ProcessEnv} {debug : Bool} {s s' : TeamState} {op : TeamOp} {processId : Int64}

theorem not_dylib (h : TeamInv s) (i : Fin 32) :
    (s.machine.team.mProcessList i).kind ≠ kExectuableDylibKind := by
  rw [h.kind i]
  decide

theorem spawn (h : TeamInv s) {fuel : Nat} {name : CString} {code image : UInt64} {pid : Int} {m : Machine}
    (hok : s.CallOK (.spawn name code image))
    (hcall : s.machine.spawn env debug fuel name code image = .ok (pid, m)) :
    ∃ i : Fin 32, pid = i.1 ∧ i ∉ s.live ∧ (∀ j ∈ s.live, m.team.mProcessList j = s.machine.team.mProcessList j) ∧
      TeamInv ⟨m, insert i s.live⟩ := by
  obtain ⟨-, i, hi, hfree⟩ := hok
  have hcount : s.machine.team.mProcessCount = i.1 := by rw [h.count, hi]
  obtain ⟨rfl, process, hspawned⟩ := Machine.spawn_eq_ok hcount (h.not_dylib i) hcall
  have hslot : ∀ j, (m.team.mProcessList j).kind = kExectuableKind ∧
      (m.team.mProcessList j).processMemoryHeap = 0 := by
    intro j
    by_cases hj : j = i
    · subst hj
      rw [hspawned.slot, hspawned.kind, hspawned.memoryHeap]
      exact ⟨h.kind j, h.memoryHeap j⟩
    · rw [hspawned.others j hj]
      exact ⟨h.kind j, h.memoryHeap j⟩
  have hother : ∀ j ∈ s.live, m.team.mProcessList j = s.machine.team.mProcessList j := by
    intro j hj
    refine hspawned.others j ?_
    rintro rfl
    exact hfree hj
  refine ⟨i, rfl, hfree, hother, ?_, fun j => (hslot j).1, fun j => (hslot j).2, fun j hj => ?_⟩
  · rw [hspawned.count, h.count, Finset.card_insert_of_notMem hfree]
    push_cast
    rfl
  · rcases Finset.mem_insert.mp hj with rfl | hj
    · rw [hspawned.slot]
      exact hspawned.parentTeam
    · rw [hother j hj]
      exact h.parentTeam j hj

theorem exit (h : TeamInv s) {fuel : Nat} {i : Fin 32} {exitCode : Int32} {m : Machine} (hi : i ∈ s.live)
    (hcall : s.machine.exit env debug fuel exitCode i = .ok m) : TeamInv ⟨m, s.live.erase i⟩ := by
  obtain ⟨hcount, hother, hkind, hheap, -⟩ := Machine.exit_eq_ok (h.not_dylib i) hcall
  refine ⟨?_, fun j => ?_, fun j => ?_, fun j hj => ?_⟩
  · have hpos := Finset.card_pos.mpr ⟨i, hi⟩
    rw [hcount, h.count, Finset.card_erase_of_mem hi]
    omega
  · by_cases hj : j = i
    · subst hj
      rw [hkind, h.kind]
    · rw [hother j hj, h.kind]
  · by_cases hj : j = i
    · subst hj
      rw [hheap, h.memoryHeap]
    · rw [hother j hj, h.memoryHeap]
  · obtain ⟨hne, hj⟩ := Finset.mem_erase.mp hj
    rw [hother j hne]
    exact h.parentTeam j hj

theorem remove_cases (hok : s.CallOK (.remove processId)) {fuel : Nat} :
    (32 < processId.toUInt64.toNat ∧ s.machine.remove env debug fuel processId = .ok (false, s.machine)) ∨
    ∃ i ∈ s.live, i.1 = processId.toUInt64.toNat ∧
      s.machine.remove env debug fuel processId =
        (do let m ← s.machine.exit env debug fuel 0 i
            return (true, m)) := by
  rcases hok with ⟨i, hi, hpid⟩ | hpid
  · refine Or.inr ⟨i, hi, hpid, ?_⟩
    rw [Machine.remove, if_neg (by omega), ← hpid, Machine.processSlot_fin, Exec.ok_bind]
  · refine Or.inl ⟨hpid, ?_⟩
    rw [Machine.remove, if_pos hpid]
    rfl

theorem step (h : TeamInv s) (hstep : TeamStep env debug s op s') (hok : s.CallOK op) : TeamInv s' := by
  obtain ⟨fuel, hcall⟩ := hstep
  cases op with
  | spawn name code image =>
    obtain ⟨⟨pid, m⟩, hspawn, hret⟩ := Exec.bind_eq_ok.mp hcall
    obtain rfl := Except.ok.inj hret
    obtain ⟨i, rfl, -, -, hinv⟩ := h.spawn hok hspawn
    have hset : (Finset.univ.filter fun j : Fin 32 => (j.1 : Int) = i.1) = {i} := by
      ext j
      simp [Fin.ext_iff]
    simp only [hset, Finset.union_comm s.live]
    exact hinv
  | remove processId =>
    obtain ⟨⟨ret, m⟩, hremove, hret⟩ := Exec.bind_eq_ok.mp hcall
    obtain rfl := Except.ok.inj hret
    rcases remove_cases hok with ⟨-, hfalse⟩ | ⟨i, hi, hpid, htrue⟩
    · rw [hfalse] at hremove
      obtain ⟨rfl, rfl⟩ := Prod.mk.injEq .. ▸ Except.ok.inj hremove
      exact h
    · rw [htrue] at hremove
      obtain ⟨m', hexit, hlast⟩ := Exec.bind_eq_ok.mp hremove
      obtain ⟨rfl, rfl⟩ := Prod.mk.injEq .. ▸ Except.ok.inj hlast
      have hset : (s.live.filter fun j => j.1 ≠ processId.toUInt64.toNat) = s.live.erase i := by
        ext j
        simp [← hpid, Fin.ext_iff, and_comm]
      simp only [if_true, hset]
      exact h.exit hi hexit
  | exit i exitCode =>
    obtain ⟨m, hexit, hret⟩ := Exec.bind_eq_ok.mp hcall
    obtain rfl := Except.ok.inj hret
    exact h.exit hok hexit

theorem property (h : TeamInv s) : TeamProperty env debug s := by
  have hexit : ∀ fuel i exitCode, i ∈ s.live → Exec.NoFault (s.machine.exit env debug fuel exitCode i) :=
    fun _ i _ hi => Machine.exit_noFault (h.not_dylib i) (h.memoryHeap i) (h.parentTeam i hi)
  refine ⟨h.count, fun fuel name code image hok => ⟨?_, fun pid m hcall => ?_⟩,
    fun fuel processId hok => ⟨?_, fun hnot => ?_⟩, hexit⟩
  · obtain ⟨hname, i, hi, -⟩ := hok
    exact Machine.spawn_noFault (by rw [h.count, hi]) (h.not_dylib i) hname
  · obtain ⟨i, hpid, hfree, hother, -⟩ := h.spawn hok hcall
    exact ⟨i, hpid, hfree, hother⟩
  · rcases remove_cases hok with ⟨-, hret⟩ | ⟨i, hi, -, hret⟩
    · rw [hret]
      exact .ok _
    · rw [hret]
      exact .bind (hexit _ _ _ hi) fun _ _ => .ok _
  · rcases remove_cases hok with ⟨-, hret⟩ | ⟨i, hi, hpid, -⟩
    · exact hret
    · exact absurd hpid (hnot i hi)

end TeamInv

/-- In every run of such calls from the empty team, the counter is the number of live processes, and the
next such call does what it should. -/
theorem team_of_guarded {env : ProcessEnv} {debug : Bool} {s s' : TeamState} {ops : List TeamOp} (hs : s.Empty)
    (hrun : Run (Guarded (TeamStep env debug) TeamState.CallOK) s ops s') : TeamProperty env debug s' := by
  have hinv : TeamInv s' := hrun.invariant TeamInv (fun _ _ _ h hstep => h.step hstep.1 hstep.2) hs.inv
  exact hinv.property

/-- The empty team over a zeroed pool. -/
def emptyTeam : TeamState := ⟨idleMachine, ∅⟩

/-- A process name. -/
def nameA : CString := ⟨[97], by decide⟩

/-- Two spawns, the exit of the second process, and a spawn in its place. -/
theorem team_of_guarded_respawn :
    ∃ s, Run (Guarded (TeamStep plainEnv true) TeamState.CallOK) emptyTeam
        [.spawn nameA 0 0, .spawn nameA 0 0, .exit 1 0, .spawn nameA 0 0] s ∧ s.live = {0, 1} ∧
      TeamProperty plainEnv true s := by
  have hcalls : (callGuarded (TeamState.call plainEnv true 1) TeamState.CallOK
      [.spawn nameA 0 0, .spawn nameA 0 0, .exit 1 0, .spawn nameA 0 0] emptyTeam).map
      (fun s => decide (s.live = {0, 1})) = .ok true := by decide +kernel
  obtain ⟨s, hs, hlive⟩ := Exec.exists_of_map hcalls
  have hrun : Run (Guarded (TeamStep plainEnv true) TeamState.CallOK) emptyTeam
      [.spawn nameA 0 0, .spawn nameA 0 0, .exit 1 0, .spawn nameA 0 0] s :=
    .of_callGuarded (fun _ _ _ h => ⟨1, h⟩) hs
  exact ⟨s, hrun, of_decide_eq_true hlive, team_of_guarded ⟨rfl, rfl⟩ hrun⟩

/-- Two spawns and the exit of the first process: the next spawn takes the slot of the second one. -/
theorem spawn_on_live :
    ∃ s m, emptyTeam.Empty ∧
      Run (TeamStep plainEnv true) emptyTeam [.spawn nameA 0 0, .spawn nameA 0 0, .exit 0 0] s ∧
      s.machine.spawn plainEnv true 1 nameA 0 0 = .ok (1, m) ∧ (1 : Fin 32) ∈ s.live := by
  have hcalls : (callAll (TeamState.call plainEnv true 1) [.spawn nameA 0 0, .spawn nameA 0 0, .exit 0 0]
      emptyTeam).map (fun s => ((s.machine.spawn plainEnv true 1 nameA 0 0).map Prod.fst, decide (1 ∈ s.live))) =
      .ok (.ok 1, true) := by decide +kernel
  obtain ⟨s, hs, hparts⟩ := Exec.exists_of_map hcalls
  obtain ⟨hspawn, hlive⟩ := Prod.mk.injEq .. ▸ hparts
  obtain ⟨⟨pid, m⟩, hm, rfl⟩ := Exec.exists_of_map hspawn
  exact ⟨s, m, ⟨rfl, rfl⟩, .of_callAll (fun _ _ _ h => ⟨1, h⟩) hs, hm, of_decide_eq_true hlive⟩

end OpenNE

import OpenNE.Base.Since
import OpenNE.Boot.StringCompare
import OpenNE.Network.IpcPass
import Mathlib.Data.List.Induction
import Mathlib.Tactic.IntervalCases

/-!
# The file indexer (`FSKit/IndexableProperty.h`, `src/IndexableProperty.cc`)

The flags of an indexer are a word. `RemoveFlag` keeps the flag it is to clear and clears the others, so that it is
right on no flags only. `fs_index_file` copies the path of the indexer over the name that is to be indexed.
-/

namespace OpenNE

def kIndexerNodeNameLength : Nat := 255

def kIndexerClaimed : Int16 := 0xCF

/-- `IndexableProperty`: its flags, and where the path of its `IndexProperty` lies. -/
structure IndexableProperty where
  fFlags : UInt32
  path : Nat
  deriving DecidableEq

/-! ### The calls -/

/-- A flag as the operand it becomes. -/
def flagWord (flag : Int16) : UInt32 := flag.toInt32.toUInt32

namespace IndexableProperty

/-- `AddFlag`. -/
def addFlag (flag : Int16) (p : IndexableProperty) : IndexableProperty :=
  { p with fFlags := p.fFlags ||| flagWord flag }

/-- `RemoveFlag`. -/
def removeFlag (flag : Int16) (p : IndexableProperty) : IndexableProperty :=
  { p with fFlags := p.fFlags &&& flagWord flag }

/-- `HasFlag`. -/
def hasFlag (flag : Int16) (p : IndexableProperty) : Int16 := (p.fFlags &&& flagWord flag).toUInt16.toInt16

end IndexableProperty

/-- `fs_index_file`: the indexer and the memory behind it. -/
def fsIndexFile (filename filenameLen : Nat) (indexer : IndexableProperty) (mem : Store) :
    Exec (IndexableProperty × Store) :=
  if indexer.hasFlag kIndexerClaimed = 0 then do
    let indexer := indexer.addFlag kIndexerClaimed
    let (_, mem) ← rtCopyMemoryAt .anywhere ⟨filename, filenameLen⟩ indexer.path filename filenameLen mem
    .ok (indexer, mem)
  else .ok (indexer, mem)

/-! ### What they are for -/

/-- A flag of a single bit. -/
abbrev Flag := { flag : Int16 // ∃ i < 16, flag = Int16.ofNat (2 ^ i) }

/-- A call on the flags. -/
inductive FlagCall where
  | add (flag : Flag)
  | remove (flag : Flag)

def FlagCall.run (p : IndexableProperty) : FlagCall → IndexableProperty
  | add flag => p.addFlag flag
  | remove flag => p.removeFlag flag

/-- The flag was added, and not removed since. -/
def Held (calls : List FlagCall) (flag : Flag) : Prop :=
  ∃ before after, calls = before ++ .add flag :: after ∧ .remove flag ∉ after

/-- After every call, an indexer has the flags that are held. -/
def FlagsRight (p : IndexableProperty) (calls : List FlagCall) : Prop :=
  ∀ done, done <+: calls → ∀ flag : Flag, (done.foldl FlagCall.run p).hasFlag flag ≠ 0 ↔ Held done flag

/-- A name of `len` characters is stored in the path and kept where it was, and the indexer is claimed; a claimed
indexer is left alone. -/
structure IndexesRight (filename : Nat) (name : CString) (len : Nat) (p : IndexableProperty) (mem : Store) : Prop where
  unclaimed : p.hasFlag kIndexerClaimed = 0 → ∃ p' mem', fsIndexFile filename len p mem = .ok (p', mem') ∧
    p'.hasFlag kIndexerClaimed ≠ 0 ∧ len ≤ kIndexerNodeNameLength ∧ mem'.read p.path len = name.1.take len ∧
    StringAt mem' filename name
  claimed : p.hasFlag kIndexerClaimed ≠ 0 → fsIndexFile filename len p mem = .ok (p, mem)

/-! ### Bits -/

section Bits

variable {p : IndexableProperty} {flag other : Flag} {i j : Nat} {w : UInt32}

theorem getLsbD_flagWord (hi : i < 16) (hj : j < 16) :
    (flagWord (Int16.ofNat (2 ^ i))).toBitVec.getLsbD j = decide (i = j) := by
  interval_cases i <;> interval_cases j <;> rfl

theorem hasFlag_bit_iff (hi : i < 16) :
    p.hasFlag (Int16.ofNat (2 ^ i)) ≠ 0 ↔ p.fFlags.toBitVec.getLsbD i = true := by
  have hbits : (p.hasFlag (Int16.ofNat (2 ^ i))).toBitVec =
      (p.fFlags.toBitVec &&& (flagWord (Int16.ofNat (2 ^ i))).toBitVec).setWidth 16 := rfl
  have hbit : ∀ j < 16, (p.hasFlag (Int16.ofNat (2 ^ i))).toBitVec.getLsbD j =
      (p.fFlags.toBitVec.getLsbD j && decide (i = j)) := by
    intro j hj
    rw [hbits, BitVec.getLsbD_setWidth, decide_eq_true hj, Bool.true_and, BitVec.getLsbD_and, getLsbD_flagWord hi hj]
  have hnone : ∀ j, (0 : Int16).toBitVec.getLsbD j = false := fun j => BitVec.getLsbD_zero
  rw [ne_eq, ← Int16.toBitVec_inj]
  constructor
  · intro hne
    by_contra hclear
    refine hne (BitVec.eq_of_getLsbD_eq fun j hj => ?_)
    rw [hbit j hj, hnone]
    by_cases hij : i = j
    · rw [← hij, Bool.eq_false_of_not_eq_true hclear, Bool.false_and]
    · rw [decide_eq_false hij, Bool.and_false]
  · intro hset hzero
    have hsame := hbit i hi
    rw [hzero, hset, decide_eq_true rfl, hnone] at hsame
    cases hsame

theorem flag_inj (hi : i < 16) (hj : j < 16) : Int16.ofNat (2 ^ i) = Int16.ofNat (2 ^ j) ↔ i = j := by
  refine ⟨fun h => ?_, fun h => by rw [h]⟩
  have hbit := getLsbD_flagWord hi hj
  rw [h, getLsbD_flagWord hj hj, decide_eq_true rfl] at hbit
  exact of_decide_eq_true hbit.symm

theorem hasFlag_addFlag : (p.addFlag flag).hasFlag other ≠ 0 ↔ other = flag ∨ p.hasFlag other ≠ 0 := by
  obtain ⟨_, i, hi, rfl⟩ := flag
  obtain ⟨_, j, hj, rfl⟩ := other
  have hword : (p.addFlag (Int16.ofNat (2 ^ i))).fFlags.toBitVec =
      p.fFlags.toBitVec ||| (flagWord (Int16.ofNat (2 ^ i))).toBitVec := rfl
  rw [hasFlag_bit_iff hj, hasFlag_bit_iff hj, hword, BitVec.getLsbD_or, getLsbD_flagWord hi hj, Bool.or_eq_true,
    decide_eq_true_eq, Subtype.mk.injEq, flag_inj hj hi, or_comm, eq_comm]

theorem hasFlag_removeFlag : (p.removeFlag flag).hasFlag other ≠ 0 ↔ other = flag ∧ p.hasFlag other ≠ 0 := by
  obtain ⟨_, i, hi, rfl⟩ := flag
  obtain ⟨_, j, hj, rfl⟩ := other
  have hword : (p.removeFlag (Int16.ofNat (2 ^ i))).fFlags.toBitVec =
      p.fFlags.toBitVec &&& (flagWord (Int16.ofNat (2 ^ i))).toBitVec := rfl
  rw [hasFlag_bit_iff hj, hasFlag_bit_iff hj, hword, BitVec.getLsbD_and, getLsbD_flagWord hi hj, Bool.and_eq_true,
    decide_eq_true_eq, Subtype.mk.injEq, flag_inj hj hi, and_comm, eq_comm]

end Bits

/-! ### Runs -/

section Calls

variable {p : IndexableProperty} {flag other : Flag} {calls : List FlagCall}

theorem held_snoc {call : FlagCall} :
    Held (calls ++ [call]) flag ↔ call = .add flag ∨ call ≠ .remove flag ∧ Held calls flag :=
  since_snoc

theorem held_add : Held (calls ++ [.add flag]) other ↔ other = flag ∨ Held calls other := by
  rw [held_snoc, FlagCall.add.injEq, eq_comm]
  exact or_congr_right (and_iff_right nofun)

theorem held_remove : Held (calls ++ [.remove flag]) other ↔ other ≠ flag ∧ Held calls other := by
  have hcall : FlagCall.remove flag ≠ .remove other ↔ other ≠ flag := by
    rw [ne_eq, FlagCall.remove.injEq, eq_comm]
  rw [held_snoc, hcall]
  exact or_iff_right nofun

/-- No flag is held where one is removed. -/
def RemovesNothing (calls : List FlagCall) : Prop :=
  ∀ done flag, done ++ [.remove flag] <+: calls → ∀ other, ¬ Held done other

theorem run_snoc (call : FlagCall) :
    (calls ++ [call]).foldl FlagCall.run p = FlagCall.run (calls.foldl FlagCall.run p) call := by
  rw [List.foldl_append]
  rfl

theorem flagsRight_iff : FlagsRight p calls ↔ (∀ flag : Flag, p.hasFlag flag = 0) ∧ RemovesNothing calls := by
  constructor
  · intro h
    refine ⟨fun flag => ?_, fun done flag hdone other hheld => ?_⟩
    · by_contra hset
      exact not_since_nil ((h [] List.nil_prefix flag).mp hset)
    · have hbefore := h done ((List.prefix_append _ _).trans hdone) other
      have hafter := h _ hdone other
      rw [run_snoc, FlagCall.run, hasFlag_removeFlag, hbefore, held_remove] at hafter
      by_cases hflag : other = flag
      · exact (hafter.mp ⟨hflag, hheld⟩).1 hflag
      · exact hflag (hafter.mpr ⟨hflag, hheld⟩).1
  · rintro ⟨hnone, hempty⟩ done
    induction done using List.reverseRecOn with
    | nil =>
      intro _ flag
      exact iff_of_false (not_not.mpr (hnone flag)) not_since_nil
    | append_singleton done call ih =>
      intro hdone other
      have hbefore := ih ((List.prefix_append _ _).trans hdone) other
      rw [run_snoc]
      cases call with
      | add flag => rw [FlagCall.run, hasFlag_addFlag, hbefore, held_add]
      | remove flag =>
        have hheld := hempty done flag hdone other
        rw [FlagCall.run, hasFlag_removeFlag, hbefore, held_remove]
        exact iff_of_false (fun h => hheld h.2) fun h => hheld h.2

end Calls

/-! ### Indexing -/

section Index

variable {p : IndexableProperty} {filename len : Nat} {name : CString} {mem : Store}

theorem claimed_addFlag (p : IndexableProperty) : (p.addFlag kIndexerClaimed).hasFlag kIndexerClaimed ≠ 0 := by
  have habsorb : (p.fFlags ||| flagWord kIndexerClaimed) &&& flagWord kIndexerClaimed = flagWord kIndexerClaimed := by
    rw [← UInt32.toBitVec_inj, UInt32.toBitVec_and, UInt32.toBitVec_or]
    refine BitVec.eq_of_getLsbD_eq fun i _ => ?_
    rw [BitVec.getLsbD_and, BitVec.getLsbD_or]
    cases (flagWord kIndexerClaimed).toBitVec.getLsbD i
    · exact Bool.and_false _
    · rw [Bool.or_true, Bool.and_true]
  rw [IndexableProperty.hasFlag, IndexableProperty.addFlag, habsorb]
  decide

/-- The memory in which the path was copied over the name. -/
def overwritten (path filename len : Nat) (mem : Store) : Store :=
  Function.update (copied path filename len mem) (filename + len) 0

theorem fsIndexFile_unclaimed (hunclaimed : p.hasFlag kIndexerClaimed = 0)
    (hapart : p.path + len ≤ filename ∨ filename + len ≤ p.path) :
    fsIndexFile filename len p mem = .ok (p.addFlag kIndexerClaimed, overwritten p.path filename len mem) := by
  have hcopy : rtCopyMemoryAt .anywhere ⟨filename, len⟩ p.path filename len mem =
      .ok (Int32.ofNat len, overwritten p.path filename len mem) := by
    rw [rtCopyMemoryAt, copyBytes_eq hapart]
    rfl
  rw [fsIndexFile, if_pos hunclaimed]
  show (rtCopyMemoryAt .anywhere ⟨filename, len⟩ p.path filename len mem >>= _) = _
  rw [hcopy]
  rfl

theorem overwritten_path {path : Nat} (hapart : path + len ≤ filename ∨ filename + len + 1 ≤ path) :
    (overwritten path filename len mem).read path len = mem.read path len := by
  apply Store.read_congr
  intro x hlow hhigh
  rw [overwritten, Function.update_of_ne (by omega), copied_outside (by omega)]

theorem overwritten_same {path : Nat} (hname : StringAt mem filename name)
    (hsame : mem.read path name.length = name.1) :
    StringAt (overwritten path filename name.length mem) filename name := by
  rw [StringAt, ← hname]
  apply Store.read_congr
  intro x hlow hhigh
  obtain ⟨k, rfl⟩ : ∃ k, x = filename + k := ⟨x - filename, by omega⟩
  have hk : k ≤ name.length := by omega
  rw [hname.apply hk]
  by_cases hlast : k = name.length
  · rw [overwritten, hlast, Function.update_self]
    exact (List.getD_eq_default _ _ (Nat.le_refl name.length)).symm
  · have hlt : k < name.length := by omega
    have hbyte := congrArg (fun bs => bs.getD k 0) hsame
    rw [overwritten, Function.update_of_ne (by omega), copied_inside hlt, ← hbyte]
    simp [Store.read, hlt]

theorem len_of_overwritten {path : Nat} (hkept : StringAt (overwritten path filename len mem) filename name)
    (hlen : len ≤ name.length) : len = name.length := by
  by_contra hshort
  have hzero : overwritten path filename len mem (filename + len) = 0 := Function.update_self _ _ _
  rw [hkept.apply hlen] at hzero
  exact getD_pos_ne_zero (Nat.lt_of_le_of_ne hlen hshort) hzero

theorem indexesRight_iff (hname : StringAt mem filename name) (hlen : len ≤ name.length)
    (hapart : p.path + kIndexerNodeNameLength ≤ filename ∨ filename + name.length + 1 ≤ p.path) :
    IndexesRight filename name len p mem ↔ (p.hasFlag kIndexerClaimed = 0 →
      len = name.length ∧ len ≤ kIndexerNodeNameLength ∧ mem.read p.path len = name.1) := by
  have hcall : p.hasFlag kIndexerClaimed = 0 → len ≤ kIndexerNodeNameLength →
      fsIndexFile filename len p mem = .ok (p.addFlag kIndexerClaimed, overwritten p.path filename len mem) :=
    fun hunclaimed hroom => fsIndexFile_unclaimed hunclaimed (by omega)
  have hpath : len ≤ kIndexerNodeNameLength →
      (overwritten p.path filename len mem).read p.path len = mem.read p.path len :=
    fun hroom => overwritten_path (by omega)
  constructor
  · intro h hunclaimed
    obtain ⟨p', mem', hrun, -, hroom, hstored, hkept⟩ := h.unclaimed hunclaimed
    rw [hcall hunclaimed hroom] at hrun
    cases hrun
    have hwhole : len = name.length := len_of_overwritten hkept hlen
    refine ⟨hwhole, hroom, ?_⟩
    rw [← hpath hroom, hstored]
    exact List.take_of_length_le (Nat.le_of_eq hwhole.symm)
  · intro h
    refine ⟨fun hunclaimed => ?_, fun hclaimed => ?_⟩
    · obtain ⟨hwhole, hroom, hsame⟩ := h hunclaimed
      refine ⟨_, _, hcall hunclaimed hroom, claimed_addFlag p, hroom, ?_, ?_⟩
      · rw [hpath hroom, hsame]
        exact (List.take_of_length_le (Nat.le_of_eq hwhole.symm)).symm
      · rw [hwhole] at hsame ⊢
        exact overwritten_same hname hsame
    · rw [fsIndexFile, if_neg hclaimed]

end Index

/-- Flags are right on every run in which flags are removed from no flags, and on no other; a name is indexed by an
unclaimed indexer exactly when its path holds the name already. -/
theorem indexer_iff (p : IndexableProperty) :
    (∀ calls, FlagsRight p calls ↔ (∀ flag : Flag, p.hasFlag flag = 0) ∧ RemovesNothing calls) ∧
      ∀ filename name len mem, StringAt mem filename name → len ≤ name.length →
        p.path + kIndexerNodeNameLength ≤ filename ∨ filename + name.length + 1 ≤ p.path →
          (IndexesRight filename name len p mem ↔ (p.hasFlag kIndexerClaimed = 0 →
            len = name.length ∧ len ≤ kIndexerNodeNameLength ∧ mem.read p.path len = name.1)) :=
  ⟨fun _ => flagsRight_iff, fun _ _ _ _ hname hlen hapart => indexesRight_iff hname hlen hapart⟩

/-- An indexer without flags whose path, at 1000, is empty. -/
def freshIndexer : IndexableProperty := ⟨0, 1000⟩

/-- A flag. -/
def firstFlag : Flag := ⟨1, 0, by decide, rfl⟩

/-- The section name `.data` at 16, and in the path too. -/
def indexedMem : Store := (Store.write (fun _ => 0) 16 dataSect.1).write 1000 dataSect.1

/-- An added flag is there, and a name that the path holds is kept. -/
theorem indexer_data : FlagsRight freshIndexer [.add firstFlag] ∧
    IndexesRight 16 dataSect 5 freshIndexer indexedMem := by
  have hindex := (indexer_iff freshIndexer).2 16 dataSect 5 indexedMem (by decide) (by decide) (by decide)
  refine ⟨((indexer_iff freshIndexer).1 _).mpr ⟨?_, ?_⟩, hindex.mpr fun _ => by decide⟩
  · rintro ⟨_, i, hi, rfl⟩
    by_contra hset
    have hbit := (hasFlag_bit_iff (p := freshIndexer) hi).mp hset
    simp [freshIndexer] at hbit
  · intro done flag hdone
    have hlen := hdone.length_le
    rw [List.length_append, List.length_singleton, List.length_singleton] at hlen
    obtain rfl : done = [] := List.length_eq_zero_iff.mp (by omega)
    cases (List.cons_prefix_cons.mp hdone).1

/-- A flag that was added and removed is there, and a name that was to be indexed is gone. -/
theorem removed_flag_kept : ¬ FlagsRight freshIndexer [.add firstFlag, .remove firstFlag] ∧
    ¬ IndexesRight 16 dataSect 5 freshIndexer (Store.write (fun _ => 0) 16 dataSect.1) ∧
    (fsIndexFile 16 5 freshIndexer (Store.write (fun _ => 0) 16 dataSect.1)).map (fun r => r.2.read 16 5) =
      .ok [0, 0, 0, 0, 0] := by
  refine ⟨fun h => ?_, fun h => ?_, by decide⟩
  · have hheld : Held [.add firstFlag] firstFlag := ⟨[], [], rfl, List.not_mem_nil⟩
    exact (flagsRight_iff.mp h).2 [.add firstFlag] firstFlag (List.prefix_refl _) firstFlag hheld
  · have hpath := ((indexesRight_iff (by decide) (by decide) (by decide)).mp h rfl).2.2
    exact absurd hpath (by decide)

end OpenNE

import OpenNE.Acpi.Find
import OpenNE.Network.IpcPass
import OpenNE.Process.Team

/-!
# Core discovery (`HALKit/AMD64/HalApplicationProcessor.cc`)

`mp_get_cores` goes through the records of the MADT as an array: the compiler lays the first of them at 48 and each
of them 24 bytes behind the one before, while the records of a MADT begin at 44 and are as long as they say. The
processor it starts is the one of the record whose number is the count of those started (`mpGetCores_stores`), so
that no MADT is gone through record by record (`mpGetCores_never`).
-/

namespace OpenNE

/-! ### The table -/

/-- `SDT::Length`. -/
def sdtLength (sdt : Nat) (mem : Store) : UInt32 := mem.get Codec.u32 (sdt + 4)

/-- A MADT: its records lie end to end behind the header, the address and the flags, and fill it. -/
structure Madt (sdt : Nat) (mem : Store) where
  records : List Span
  tiles : Tiles (sdt + 44) records (sdt + (sdtLength sdt mem).toNat)
  lens : ∀ r ∈ records, 2 ≤ r.len ∧ r.len = (mem (r.start + 1)).toNat

namespace Madt

variable {sdt : Nat} {mem : Store}

/-- The records of type 0 whose processor is enabled. -/
def enabledLocals (table : Madt sdt mem) : List Span :=
  table.records.filter fun r => mem r.start = 0 ∧ mem (r.start + 4) &&& 1 = 1

/-- Their processor ids. -/
def processorIds (table : Madt sdt mem) : List UInt8 := table.enabledLocals.map fun r => mem (r.start + 2)

end Madt

/-! ### The code -/

/-- What goes to the interrupt controller. -/
inductive Ipi where
  | start (target apicId : UInt32)
  | sipi (target apicId : UInt32) (vector : UInt8)
  deriving DecidableEq

/-- The statics of the file. -/
structure Smp where
  kSMPAware : Bool
  kSMPCount : Nat
  kApicBaseAddress : UInt64
  kSMPInterrupt : Int32
  kAPICLocales : Nat → UInt64

/-- The loop: the statics, `index`, the records looked at and what was sent. -/
structure CoreWalk where
  smp : Smp
  index : Nat
  visited : List Nat
  sent : List Ipi

/-- `sizeof` of a record, as the compiler lays it: the union behind the type and the length is aligned to 8. -/
def madtRecordSizeof : Nat := 24

/-- Where `List[index]` lies. -/
def madtRecord (sdt index : Nat) : Nat := sdt + 48 + madtRecordSizeof * index

/-- Where `List[index].LAPIC.ProcessorID` lies. -/
def madtProcessorID (sdt index : Nat) : Nat := madtRecord sdt index + 8

/-- `kMemoryAPStart`. -/
def kMemoryAPStart : Nat := 0x7C000

/-- The case of type 0. -/
def CoreWalk.startCore (acc : Access) (mem : Store) (sdt : Nat) (walk : CoreWalk) : Exec CoreWalk := do
  let id ← fetch acc Codec.u8 (madtProcessorID sdt walk.smp.kSMPCount) mem
  if id < 1 then .ok walk
  else if acc.mayWrite ⟨0, kSchedProcessLimitPerTeam⟩ walk.smp.kSMPCount 1 then
    let base := walk.smp.kApicBaseAddress.toUInt32
    .ok { walk with
      smp := { walk.smp with
        kAPICLocales := Function.update walk.smp.kAPICLocales walk.smp.kSMPCount id.toUInt64
        kSMPCount := walk.smp.kSMPCount + 1 }
      sent := walk.sent ++ [.start base id.toUInt32, .sipi base id.toUInt32 (UInt8.ofNat (kMemoryAPStart / 2 ^ 12))] }
  else .error .fault

/-- The record at hand. -/
def CoreWalk.handle (acc : Access) (mem : Store) (sdt : Nat) (type : UInt8) (walk : CoreWalk) : Exec CoreWalk :=
  if type = 0 then walk.startCore acc mem sdt else .ok walk

/-- One round of the loop. -/
def coreRound (acc : Access) (mem : Store) (sdt : Nat) (walk : CoreWalk) : Exec (CoreWalk ⊕ CoreWalk) := do
  let type ← fetch acc Codec.u8 (madtRecord sdt walk.index) mem
  let walk := { walk with visited := walk.visited ++ [madtRecord sdt walk.index] }
  if 9 < type ∨ kSchedProcessLimitPerTeam < walk.smp.kSMPCount then .ok (.inr walk)
  else do
    let walk ← walk.handle acc mem sdt type
    .ok (.inl { walk with index := walk.index + 1 })

/-- `mp_get_cores`, when `acc` is what may be read of the table, `enabled` is the flag of the handover header and
`blob` the code of the processors; at most `fuel` rounds of the loop. -/
def mpGetCores (debug : Bool) (acc : Access) (enabled : Bool) (blob : Span) (fuel : Nat) (mem : Store) (vendor : Nat)
    (smp : Smp) : Exec (CoreWalk × Store) := do
  if vendor = 0 then .ok (⟨smp, 0, [], []⟩, mem)
  else if ¬ enabled then .ok (⟨{ smp with kSMPAware := false }, 0, [], []⟩, mem)
  else
    let (_, found) ← ACPIFactoryInterface.find debug .anywhere mem ⟨vendor, 0⟩ (some apicSignature)
    let madt ← deref found
    if madt = 0 then .ok (⟨{ smp with kSMPAware := false }, 0, [], []⟩, mem)
    else
      let address ← fetch acc Codec.u32 (madt.toNat + sdtSizeof) mem
      let smp := { smp with
        kSMPAware := false, kSMPInterrupt := 0, kSMPCount := 0, kApicBaseAddress := address.toUInt64 }
      let (_, mem) ← rtCopyMemoryAt .anywhere ⟨kMemoryAPStart, blob.len⟩ blob.start kMemoryAPStart blob.len mem
      let walk ← loop (coreRound acc mem madt.toNat) fuel ⟨smp, 0, [], []⟩
      .ok ({ walk with smp := { walk.smp with kSMPAware := true } }, mem)

/-! ### What it is for -/

/-- The call ends, looks at each record of the table once and at nothing behind it, and keeps the ids of the enabled
processors, as many as there is room for. -/
def DiscoversCores (debug : Bool) (blob : Span) (mem : Store) (vendor : Nat) (smp : Smp) {sdt : Nat}
    (table : Madt sdt mem) : Prop :=
  ∃ fuel walk mem', mpGetCores debug (.within ⟨sdt, (sdtLength sdt mem).toNat⟩) true blob fuel mem vendor smp =
      .ok (walk, mem') ∧
    walk.visited = table.records.map Span.start ∧
    (List.range walk.smp.kSMPCount).map walk.smp.kAPICLocales =
      (table.processorIds.take kSchedProcessLimitPerTeam).map UInt8.toUInt64 ∧
    walk.smp.kSMPCount ≤ kSchedProcessLimitPerTeam

/-! ### One round -/

section Round

variable {acc : Access} {mem : Store} {sdt : Nat} {walk walk' : CoreWalk}

theorem startCore_cases (h : walk.startCore acc mem sdt = .ok walk') :
    walk' = walk ∨
      (1 ≤ mem.get Codec.u8 (madtProcessorID sdt walk.smp.kSMPCount) ∧
        acc.mayWrite ⟨0, kSchedProcessLimitPerTeam⟩ walk.smp.kSMPCount 1 = true ∧
        walk'.index = walk.index ∧ walk'.visited = walk.visited ∧
        walk'.smp.kSMPCount = walk.smp.kSMPCount + 1 ∧
        walk'.smp.kAPICLocales = Function.update walk.smp.kAPICLocales walk.smp.kSMPCount
          (mem.get Codec.u8 (madtProcessorID sdt walk.smp.kSMPCount)).toUInt64) := by
  rw [CoreWalk.startCore] at h
  obtain ⟨id, hid, h⟩ := Exec.bind_eq_ok.mp h
  obtain ⟨-, rfl⟩ := fetch_eq_ok.mp hid
  by_cases hskip : mem.get Codec.u8 (madtProcessorID sdt walk.smp.kSMPCount) < 1
  · rw [if_pos hskip] at h
    exact .inl (Except.ok.inj h).symm
  · rw [if_neg hskip] at h
    by_cases hroom : acc.mayWrite ⟨0, kSchedProcessLimitPerTeam⟩ walk.smp.kSMPCount 1 = true
    · rw [if_pos hroom] at h
      cases h
      exact .inr ⟨UInt8.not_lt.mp hskip, hroom, rfl, rfl, rfl, rfl⟩
    · rw [if_neg hroom] at h
      cases h

/-- The walk after the look at a record. -/
def CoreWalk.look (sdt : Nat) (walk : CoreWalk) : CoreWalk :=
  { walk with visited := walk.visited ++ [madtRecord sdt walk.index] }

theorem coreRound_next (h : coreRound acc mem sdt walk = .ok (.inl walk')) :
    acc.mayRead (madtRecord sdt walk.index) 1 = true ∧ walk.smp.kSMPCount ≤ kSchedProcessLimitPerTeam ∧
      ∃ started, (started = walk.look sdt ∨ (walk.look sdt).startCore acc mem sdt = .ok started) ∧
        walk' = { started with index := started.index + 1 } := by
  rw [coreRound] at h
  obtain ⟨type, htype, h⟩ := Exec.bind_eq_ok.mp h
  obtain ⟨hread, rfl⟩ := fetch_eq_ok.mp htype
  by_cases hend : 9 < mem.get Codec.u8 (madtRecord sdt walk.index) ∨ kSchedProcessLimitPerTeam < walk.smp.kSMPCount
  · rw [if_pos hend] at h
    cases h
  · rw [if_neg hend] at h
    obtain ⟨started, hstarted, h⟩ := Exec.bind_eq_ok.mp h
    cases h
    refine ⟨hread, Nat.not_lt.mp (not_or.mp hend).2, started, ?_, rfl⟩
    rw [CoreWalk.handle] at hstarted
    by_cases htype : mem.get Codec.u8 (madtRecord sdt walk.index) = 0
    · rw [if_pos htype] at hstarted
      exact .inr hstarted
    · rw [if_neg htype] at hstarted
      exact .inl (Except.ok.inj hstarted).symm

theorem coreRound_leave (h : coreRound acc mem sdt walk = .ok (.inr walk')) :
    acc.mayRead (madtRecord sdt walk.index) 1 = true ∧ walk' = walk.look sdt := by
  rw [coreRound] at h
  obtain ⟨type, htype, h⟩ := Exec.bind_eq_ok.mp h
  obtain ⟨hread, rfl⟩ := fetch_eq_ok.mp htype
  by_cases hend : 9 < mem.get Codec.u8 (madtRecord sdt walk.index) ∨ kSchedProcessLimitPerTeam < walk.smp.kSMPCount
  · rw [if_pos hend] at h
    cases h
    exact ⟨hread, rfl⟩
  · rw [if_neg hend] at h
    obtain ⟨started, -, h⟩ := Exec.bind_eq_ok.mp h
    cases h

end Round

/-! ### The walk -/

section Walk

variable {acc : Access} {mem : Store} {sdt : Nat} {walk walk' : CoreWalk}

/-- The ids kept so far are those behind the first records, of whatever type these are. -/
structure Smp.Keeps (acc : Access) (mem : Store) (sdt : Nat) (smp : Smp) : Prop where
  room : ∀ k < smp.kSMPCount, acc.mayWrite ⟨0, kSchedProcessLimitPerTeam⟩ k 1 = true
  locales : ∀ k < smp.kSMPCount, smp.kAPICLocales k = (mem.get Codec.u8 (madtProcessorID sdt k)).toUInt64
  started : ∀ k < smp.kSMPCount, 1 ≤ mem.get Codec.u8 (madtProcessorID sdt k)
  limit : smp.kSMPCount ≤ kSchedProcessLimitPerTeam + 1

/-- The records looked at are those of the array, one after the other. -/
structure CoreWalk.Inv (acc : Access) (mem : Store) (sdt : Nat) (walk : CoreWalk) : Prop where
  visited : walk.visited = (List.range walk.index).map (madtRecord sdt)
  readable : ∀ k < walk.index, acc.mayRead (madtRecord sdt k) 1 = true
  keeps : walk.smp.Keeps acc mem sdt

theorem Smp.Keeps.start (hkeeps : walk.smp.Keeps acc mem sdt) (hlimit : walk.smp.kSMPCount ≤ kSchedProcessLimitPerTeam)
    (h : walk.startCore acc mem sdt = .ok walk') : walk'.smp.Keeps acc mem sdt := by
  rcases startCore_cases h with rfl | ⟨hid, hroom, -, -, hcount, hlocales⟩
  · exact hkeeps
  · have hcases : ∀ k < walk'.smp.kSMPCount, k < walk.smp.kSMPCount ∨ k = walk.smp.kSMPCount := by
      intro k hk
      omega
    refine ⟨fun k hk => ?_, fun k hk => ?_, fun k hk => ?_, by omega⟩
    · rcases hcases k hk with hbefore | rfl
      · exact hkeeps.room k hbefore
      · exact hroom
    · rw [hlocales]
      rcases hcases k hk with hbefore | rfl
      · rw [Function.update_of_ne (Nat.ne_of_lt hbefore), hkeeps.locales k hbefore]
      · rw [Function.update_self]
    · rcases hcases k hk with hbefore | rfl
      · exact hkeeps.started k hbefore
      · exact hid

theorem CoreWalk.Inv.look_visited (hinv : walk.Inv acc mem sdt) :
    (walk.look sdt).visited = (List.range (walk.index + 1)).map (madtRecord sdt) := by
  rw [CoreWalk.look, hinv.visited, List.range_succ, List.map_append]
  rfl

theorem CoreWalk.Inv.next (hinv : walk.Inv acc mem sdt) (h : coreRound acc mem sdt walk = .ok (.inl walk')) :
    walk'.Inv acc mem sdt := by
  obtain ⟨hread, hlimit, started, hstarted, rfl⟩ := coreRound_next h
  have hindex : started.index = walk.index ∧ started.visited = (walk.look sdt).visited := by
    rcases hstarted with rfl | hstarted
    · exact ⟨rfl, rfl⟩
    · rcases startCore_cases hstarted with rfl | ⟨-, -, hindex, hvisited, -⟩
      · exact ⟨rfl, rfl⟩
      · exact ⟨hindex, hvisited⟩
  refine ⟨?_, fun k hk => ?_, ?_⟩
  · simp only [hindex.2, hinv.look_visited, hindex.1]
  · simp only [hindex.1] at hk
    rcases Nat.lt_succ_iff_lt_or_eq.mp hk with hbefore | rfl
    · exact hinv.readable k hbefore
    · exact hread
  · rcases hstarted with rfl | hstarted
    · exact hinv.keeps
    · have hlook : (walk.look sdt).smp.Keeps acc mem sdt := hinv.keeps
      have hstart : started.smp.Keeps acc mem sdt := hlook.start hlimit hstarted
      exact hstart

theorem CoreWalk.Inv.initial {smp : Smp} (hcount : smp.kSMPCount = 0) :
    CoreWalk.Inv acc mem sdt ⟨smp, 0, [], []⟩ := by
  have hnone : ∀ k, ¬ k < smp.kSMPCount := by
    intro k
    rw [hcount]
    exact Nat.not_lt_zero k
  refine ⟨rfl, fun k hk => absurd hk (Nat.not_lt_zero k), fun k hk => absurd hk (hnone k),
    fun k hk => absurd hk (hnone k), fun k hk => absurd hk (hnone k), ?_⟩
  simp only [hcount, Nat.zero_le]

theorem coreWalk_run {fuel : Nat} (hinv : walk.Inv acc mem sdt)
    (h : loop (coreRound acc mem sdt) fuel walk = .ok walk') :
    walk'.visited = (List.range (walk'.index + 1)).map (madtRecord sdt) ∧
      (∀ k ≤ walk'.index, acc.mayRead (madtRecord sdt k) 1 = true) ∧ walk'.smp.Keeps acc mem sdt := by
  refine loop_invariant (CoreWalk.Inv acc mem sdt)
    (fun walk' => walk'.visited = (List.range (walk'.index + 1)).map (madtRecord sdt) ∧
      (∀ k ≤ walk'.index, acc.mayRead (madtRecord sdt k) 1 = true) ∧ walk'.smp.Keeps acc mem sdt)
    (fun _ _ hinv h => hinv.next h) ?_ hinv h
  intro last left hinv h
  obtain ⟨hread, rfl⟩ := coreRound_leave h
  refine ⟨hinv.look_visited, fun k hk => ?_, hinv.keeps⟩
  rcases Nat.lt_or_eq_of_le hk with hbefore | rfl
  · exact hinv.readable k hbefore
  · exact hread

end Walk

/-! ### The call -/

section Call

variable {debug : Bool} {acc : Access} {blob : Span} {fuel : Nat} {mem mem' : Store} {vendor : Nat} {smp : Smp}
  {self' : ACPIFactoryInterface} {madt : UInt32} {walk : CoreWalk}

theorem mpGetCores_stores (hvendor : vendor ≠ 0)
    (hfind : ACPIFactoryInterface.find debug .anywhere mem ⟨vendor, 0⟩ (some apicSignature) = .ok (self', some madt))
    (hmadt : madt ≠ 0) (h : mpGetCores debug acc true blob fuel mem vendor smp = .ok (walk, mem')) :
    walk.visited = (List.range (walk.index + 1)).map (madtRecord madt.toNat) ∧
      (∀ k ≤ walk.index, acc.mayRead (madtRecord madt.toNat k) 1 = true) ∧
      walk.smp.Keeps acc mem' madt.toNat ∧ walk.smp.kSMPAware = true := by
  rw [mpGetCores, if_neg hvendor, if_neg (not_not.mpr rfl), hfind] at h
  simp only [Exec.ok_bind, deref, if_neg hmadt] at h
  obtain ⟨address, -, h⟩ := Exec.bind_eq_ok.mp h
  obtain ⟨⟨count, copiedMem⟩, -, h⟩ := Exec.bind_eq_ok.mp h
  obtain ⟨last, hloop, h⟩ := Exec.bind_eq_ok.mp h
  cases h
  obtain ⟨hvisited, hreadable, hkeeps⟩ := coreWalk_run (CoreWalk.Inv.initial rfl) hloop
  exact ⟨hvisited, hreadable, ⟨hkeeps.room, hkeeps.locales, hkeeps.started, hkeeps.limit⟩, rfl⟩

end Call

/-- No MADT is gone through record by record: the first one looked at lies behind the start of the first record. -/
theorem mpGetCores_never (debug : Bool) (blob : Span) (mem : Store) (vendor : Nat) (hvendor : vendor ≠ 0) (smp : Smp)
    (self' : ACPIFactoryInterface) (madt : UInt32) (hmadt : madt ≠ 0)
    (hfind : ACPIFactoryInterface.find debug .anywhere mem ⟨vendor, 0⟩ (some apicSignature) = .ok (self', some madt))
    (table : Madt madt.toNat mem) : ¬ DiscoversCores debug blob mem vendor smp table := by
  rintro ⟨fuel, walk, mem', hcall, hvisited, -, -⟩
  obtain ⟨harray, -, -, -⟩ := mpGetCores_stores hvendor hfind hmadt hcall
  have hfirst : (table.records.map Span.start).head? = some (madtRecord madt.toNat 0) := by
    rw [← hvisited, harray, List.range_succ_eq_map]
    rfl
  rcases hrecords : table.records with - | ⟨r, rest⟩
  · rw [hrecords] at hfirst
    cases hfirst
  · have htiles := table.tiles
    rw [hrecords] at hfirst htiles
    have hstart : r.start = madtRecord madt.toNat 0 := Option.some.inj hfirst
    have hlow : r.start = madt.toNat + 44 := htiles.1
    rw [hlow, madtRecord] at hstart
    omega

/-! ### A machine with one processor -/

/-- The tables of `acpiMemory`, and a MADT at 1024 with the records of `records`. -/
def madtMemory (length : UInt32) (records : List UInt8) : Store :=
  Store.write (Store.put Codec.u32 (acpiMemory 44 [0, 4, 0, 0, 0, 8, 0, 0]) 1028 length) 1068 records

/-- The record of the processor 1, which is enabled. -/
def oneLocal : Madt 1024 (madtMemory 52 [0, 8, 1, 0, 1, 0, 0, 0]) where
  records := [⟨1068, 8⟩]
  tiles := by decide
  lens := by decide

/-- The statics at the start. -/
def Smp.initial : Smp := ⟨false, 0, 0, 0, fun _ => 0⟩

theorem mpGetCores_never_oneLocal :
    ¬ DiscoversCores true ⟨4096, 4⟩ (madtMemory 52 [0, 8, 1, 0, 1, 0, 0, 0]) 16 .initial oneLocal :=
  mpGetCores_never true ⟨4096, 4⟩ (madtMemory 52 [0, 8, 1, 0, 1, 0, 0, 0]) 16 (by decide) .initial ⟨16, 1⟩ 1024
    (by decide) rfl oneLocal

/-- The call looks at what lies behind the table. -/
theorem mpGetCores_leaves_table :
    oneLocal.processorIds = [1] ∧
    mpGetCores true (.within ⟨1024, 52⟩) true ⟨4096, 4⟩ 2 (madtMemory 52 [0, 8, 1, 0, 1, 0, 0, 0]) 16 .initial =
      .error .fault ∧
    ¬ DiscoversCores true ⟨4096, 4⟩ (madtMemory 52 [0, 8, 1, 0, 1, 0, 0, 0]) 16 .initial oneLocal := by
  have hfault : ∀ fuel, mpGetCores true (.within ⟨1024, 52⟩) true ⟨4096, 4⟩ (fuel + 2)
      (madtMemory 52 [0, 8, 1, 0, 1, 0, 0, 0]) 16 .initial = .error .fault := fun _ => rfl
  refine ⟨by decide, hfault 0, ?_⟩
  rintro ⟨fuel, walk, mem', hcall, -⟩
  rcases fuel with - | - | fuel
  · cases hcall
  · cases hcall
  · cases (hfault fuel).symm.trans hcall

end OpenNE

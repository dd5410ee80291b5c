import OpenNE.Base.Run
import OpenNE.NeFS.Mounted

/-!
# Runs on the mounted drive

Two levels of the file system, by their answers: the calls with their packets, and the calls on the bare drive. Every
run of the one is a run of the other, and a call stops in the one where it does in the other (`mounted_iff`). So what
is proved of the bare drive holds behind the packets.
-/

namespace OpenNE

/-- What a call returns. -/
inductive NefsAnswer where
  | found (catalog : Option NfsCatalogStruct) (lba : Lba)
  | created (catalog : Option NfsCatalogStruct)
  | removed (b : Bool)
  | forked (fork : NfsForkStruct) (b : Bool)
  | written (b : Bool)
  | read (data : Option (List UInt8))

namespace NefsCall

/-- The call made, with its answer. -/
def answer (debug : Bool) (fuel : Nat) : NefsCall → Call Mount NefsAnswer
  | .findCatalog name outLba searchHidden localSearch => do
    let r ← if localSearch then Mount.findCatalogLocal fuel name outLba searchHidden
      else Mount.findCatalog fuel name outLba searchHidden
    return .found r.1 r.2
  | .createCatalog name flags kind => do
    let r ← Mount.createCatalog fuel name flags kind
    return .created r
  | .removeCatalog name => do
    let b ← Mount.removeCatalog fuel name
    return .removed b
  | .createFork stale fork => do
    let r ← Mount.createFork debug fuel stale fork
    return .forked r.1 r.2
  | .writeCatalog name isRsrcFork data forkName => do
    let b ← Mount.writeCatalog fuel name isRsrcFork data forkName
    return .written b
  | .readCatalog catalog isRsrcFork forkName => do
    let data ← Mount.readCatalog fuel catalog isRsrcFork forkName
    return .read data

/-- The call made on the bare drive, with its answer. -/
def answerOn (debug : Bool) (fuel : Nat) (d : Drive) : NefsCall → Exec (Drive × NefsAnswer)
  | .findCatalog name outLba searchHidden localSearch =>
    if localSearch then
      (OpenNE.findCatalogLocal fuel d name outLba searchHidden).map fun r => (d, .found r.1 r.2)
    else (OpenNE.findCatalog fuel d name outLba searchHidden).map fun r => (d, .found r.1 r.2)
  | .createCatalog name flags kind =>
    (OpenNE.createCatalog fuel d name flags kind).map fun r => (r.1, .created r.2)
  | .removeCatalog name => (OpenNE.removeCatalog fuel d name).map fun r => (r.1, .removed r.2)
  | .createFork stale fork =>
    (OpenNE.createFork debug fuel stale d fork).map fun r => (r.1, .forked r.2.1 r.2.2)
  | .writeCatalog name isRsrcFork data forkName =>
    (OpenNE.writeCatalog fuel d name isRsrcFork data forkName).map fun r => (r.1, .written r.2)
  | .readCatalog catalog isRsrcFork forkName =>
    (OpenNE.readCatalog fuel d catalog isRsrcFork forkName).map fun data => (d, .read data)

end NefsCall

section Answers

variable {α : Type} {d : Drive} {call : Call Mount α} {debug : Bool} {fuel : Nat} {op : NefsCall} {m : Mount}

theorem Reads.writes_map {x : Exec α} (h : Reads d call x) (f : α → NefsAnswer) :
    Writes d (call >>= fun a => Pure.pure (f a)) (x.map fun r => (d, f r)) := by
  apply Meets.map h
  intro r a d' hrel
  obtain ⟨rfl, rfl⟩ := hrel
  exact ⟨rfl, rfl⟩

theorem NefsCall.writes_answer : Writes d (op.answer debug fuel) (op.answerOn debug fuel d) := by
  cases op with
  | findCatalog name outLba searchHidden localSearch =>
    apply Meets.ite
    · intro _
      exact (Mount.reads_findCatalogLocal name outLba searchHidden).writes_map fun r => .found r.1 r.2
    · intro _
      exact (Mount.reads_findCatalog name outLba searchHidden).writes_map fun r => .found r.1 r.2
  | createCatalog name flags kind => exact (Mount.writes_createCatalog name).map
  | removeCatalog name => exact (Mount.writes_removeCatalog name).map
  | createFork stale fork => exact (Mount.writes_createFork debug stale fork).map
  | writeCatalog name isRsrcFork data forkName =>
    exact (Mount.writes_writeCatalog name isRsrcFork data forkName).map
  | readCatalog catalog isRsrcFork forkName =>
    exact (Mount.reads_readCatalog catalog isRsrcFork forkName).writes_map _

theorem NefsCall.answer_ok_iff {r : NefsAnswer} {d' : Drive} :
    op.answerOn debug fuel m.drive = .ok (d', r) ↔ ∃ m', op.answer debug fuel m = (.ok r, m') ∧ m'.drive = d' := by
  have hmeets : Writes m.drive (op.answer debug fuel) (op.answerOn debug fuel m.drive) := NefsCall.writes_answer
  cases hx : op.answerOn debug fuel m.drive with
  | error e =>
    obtain ⟨m', hend⟩ := hmeets.stops e m hx rfl
    constructor
    · intro h
      cases h
    · rintro ⟨m'', hanswer, -⟩
      rw [hend] at hanswer
      cases hanswer
  | ok p =>
    obtain ⟨d₁, r₁⟩ := p
    obtain ⟨a, m', hend, rfl, rfl⟩ := hmeets.returns (d₁, r₁) m hx rfl
    constructor
    · intro h
      cases h
      exact ⟨m', hend, rfl⟩
    · rintro ⟨m'', hanswer, rfl⟩
      rw [hend] at hanswer
      cases hanswer
      rfl

theorem NefsCall.answer_error_iff {e : Stop} :
    op.answerOn debug fuel m.drive = .error e ↔ (op.answer debug fuel m).1 = .error e := by
  have hmeets : Writes m.drive (op.answer debug fuel) (op.answerOn debug fuel m.drive) := NefsCall.writes_answer
  cases hx : op.answerOn debug fuel m.drive with
  | error e' =>
    obtain ⟨m', hend⟩ := hmeets.stops e' m hx rfl
    rw [hend]
    constructor
    · intro h
      rw [Except.error.inj h]
    · intro h
      rw [Except.error.inj h]
  | ok p =>
    obtain ⟨a, m', hend, -⟩ := hmeets.returns p m hx rfl
    rw [hend]
    constructor
    · intro h
      cases h
    · intro h
      cases h

end Answers

/-! ### Runs -/

/-- A call with its packets, and its answer. -/
def MountStep (debug : Bool) (m : Mount) (op : NefsCall × NefsAnswer) (m' : Mount) : Prop :=
  ∃ fuel, op.1.answer debug fuel m = (.ok op.2, m')

/-- A call on the bare drive, and its answer. -/
def DriveStep (debug : Bool) (d : Drive) (op : NefsCall × NefsAnswer) (d' : Drive) : Prop :=
  ∃ fuel, op.1.answerOn debug fuel d = .ok (d', op.2)

theorem mountStep_iff {debug : Bool} {m : Mount} {op : NefsCall × NefsAnswer} {d' : Drive} :
    DriveStep debug m.drive op d' ↔ ∃ m', MountStep debug m op m' ∧ m'.drive = d' := by
  constructor
  · rintro ⟨fuel, hcall⟩
    obtain ⟨m', hanswer, hdrive⟩ := NefsCall.answer_ok_iff.mp hcall
    exact ⟨m', ⟨fuel, hanswer⟩, hdrive⟩
  · rintro ⟨m', ⟨fuel, hanswer⟩, hdrive⟩
    exact ⟨fuel, NefsCall.answer_ok_iff.mpr ⟨m', hanswer, hdrive⟩⟩

/-- The runs of calls on the mounted drive are those on the bare drive, answer for answer, and after every one of them
the next call stops behind its packets for the reason it stops on the bare drive. -/
theorem mounted_iff (debug : Bool) (m : Mount) (ops : List (NefsCall × NefsAnswer)) :
    (∀ d', Run (DriveStep debug) m.drive ops d' ↔ ∃ m', Run (MountStep debug) m ops m' ∧ m'.drive = d') ∧
      ∀ m', Run (MountStep debug) m ops m' → ∀ (op : NefsCall) fuel e,
        op.answerOn debug fuel m'.drive = .error e ↔ (op.answer debug fuel m').1 = .error e := by
  refine ⟨fun d' => ⟨fun hrun => ?_, ?_⟩, fun m' _ op fuel e => NefsCall.answer_error_iff⟩
  · have hfollow : ∀ d (m : Mount) op d', m.drive = d → DriveStep debug d op d' →
        ∃ m', MountStep debug m op m' ∧ m'.drive = d' := by
      rintro d m op d' rfl hstep
      exact mountStep_iff.mp hstep
    exact hrun.simulate (fun d (m : Mount) => m.drive = d) hfollow rfl
  · rintro ⟨m', hrun, rfl⟩
    have hfollow : ∀ (m : Mount) d op m', m.drive = d → MountStep debug m op m' →
        ∃ d', DriveStep debug d op d' ∧ m'.drive = d' := by
      rintro m d op m' rfl hstep
      exact ⟨m'.drive, mountStep_iff.mpr ⟨m', hstep, rfl⟩, rfl⟩
    obtain ⟨d, hrun', rfl⟩ := hrun.simulate (fun (m : Mount) d => m.drive = d) hfollow rfl
    exact hrun'

end OpenNE

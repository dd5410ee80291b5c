import OpenNE.Base.Simulate
import OpenNE.NeFS.Packet

/-!
# The packets do what the drive does

The calls of the file system stand twice: on the bare drive (`NeFS/Catalog`, `NeFS/Fork`), and with the packets they
send (`NeFS/Packet`). The mounted drive is the view through which the second do what the first do. Those that only
read return the same and leave the drive as it was (`Reads`), the others return the same and leave the same drive
(`Writes`). An operation that works on a copy of the drive sees the same flags there (`CopyOf`). So any sequence of
calls leaves the drive the bare calls leave (`NefsCall.meets_runAll`).
-/

namespace OpenNE

/-- The mounted drive, with the flags of its packet. -/
def Mount.drive (m : Mount) : Drive := ⟨m.disk, m.mA.fPacket.fPacketGood, m.mA.fPacket.fPacketReadOnly⟩

/-- On the drive `d` the call ends as `x`, and leaves the drive as it was. -/
abbrev Reads {α : Type} (d : Drive) (call : Call Mount α) (x : Exec α) : Prop :=
  Meets Mount.drive (fun r a d' => a = r ∧ d' = d) d call x

/-- On the drive `d` the call ends as `x`, and leaves the drive `x` returns. -/
abbrev Writes {α : Type} (d : Drive) (call : Call Mount α) (x : Exec (Drive × α)) : Prop :=
  Meets Mount.drive (fun r a d' => a = r.2 ∧ d' = r.1) d call x

/-- The packet of the copy has the flags of the drive. -/
structure CopyOf (d : Drive) (drive : DriveTrait) : Prop where
  good : drive.fPacket.fPacketGood = d.fPacketGood
  readOnly : drive.fPacket.fPacketReadOnly = d.fPacketReadOnly

/-- A loop that hands a copy of the drive on hands the same on beside it. -/
def WithCopy {τ : Type} (d : Drive) (s : τ) (t : DriveTrait × τ) : Prop := CopyOf d t.1 ∧ t.2 = s

section Reads

variable {α β : Type} {d : Drive} {call : Call Mount α} {x : Exec α} {next : α → Call Mount β}

theorem Reads.pure (a : α) : Reads d (Pure.pure a) (.ok a) := Meets.pure ⟨rfl, rfl⟩

theorem Reads.lift (x : Exec α) : Reads d (Call.lift x) x := Meets.lift x fun _ => ⟨rfl, rfl⟩

theorem Reads.lift_ok {x : Exec α} {a : α} (h : x = .ok a) : Reads d (Call.lift x) (.ok a) := h ▸ Reads.lift x

theorem Reads.ok {a : α} {m : Mount} (h : Reads d call (.ok a)) (hm : m.drive = d) :
    ∃ m', call m = (.ok a, m') ∧ m'.drive = d := by
  obtain ⟨_, m', hend, rfl, hdrive⟩ := Meets.ok h hm
  exact ⟨m', hend, hdrive⟩

theorem Reads.bind {ρ : Type} {rel : ρ → β → Drive → Prop} {g : α → Exec ρ} (hcall : Reads d call x)
    (hnext : ∀ a, Meets Mount.drive rel d (next a) (g a)) : Meets Mount.drive rel d (call >>= next) (x >>= g) := by
  apply Meets.bind hcall
  intro r a d' hrel
  obtain ⟨rfl, rfl⟩ := hrel
  exact hnext a

theorem Reads.ok_bind {ρ : Type} {rel : ρ → β → Drive → Prop} {a : α} {y : Exec ρ} (hcall : Reads d call (.ok a))
    (hnext : Meets Mount.drive rel d (next a) y) : Meets Mount.drive rel d (call >>= next) y := by
  apply Meets.ok_bind hcall
  intro a' d' hrel
  obtain ⟨rfl, rfl⟩ := hrel
  exact hnext

theorem Reads.map_bind {γ ρ : Type} {rel : ρ → β → Drive → Prop} {f : γ → α} {z : Exec γ} {g : γ → Exec ρ}
    (hcall : Reads d call (z.map f)) (hnext : ∀ r, Meets Mount.drive rel d (next (f r)) (g r)) :
    Meets Mount.drive rel d (call >>= next) (z >>= g) := by
  apply Meets.map_bind hcall
  intro r a d' hrel
  obtain ⟨rfl, rfl⟩ := hrel
  exact hnext r

theorem Reads.map {f : α → β} (hcall : Reads d call x) :
    Reads d (call >>= fun a => Pure.pure (f a)) (x.map f) := by
  apply Meets.map hcall
  intro r a d' hrel
  obtain ⟨rfl, rfl⟩ := hrel
  exact ⟨rfl, rfl⟩

theorem Reads.rounds {τ : Type} {body : τ → Call Mount (τ ⊕ α)} {g : τ → Exec (τ ⊕ α)}
    (h : ∀ t, Reads d (body t) (g t)) (fuel : Nat) (t : τ) : Reads d (Call.rounds body fuel t) (loop g fuel t) := by
  have hbody : ∀ t' t, t = t' → Meets Mount.drive
      (Meets.RoundRel (fun t' t => t = t') (fun r a d' => a = r ∧ d' = d) d) d (body t) (g t') := by
    intro t' t ht
    rw [ht]
    apply (h t').mono
    intro r a d' hrel
    obtain ⟨rfl, rfl⟩ := hrel
    cases a with
    | inl t => exact ⟨rfl, rfl⟩
    | inr a => exact ⟨rfl, rfl⟩
  exact Meets.rounds hbody fuel rfl

theorem Writes.map {f : α → β} {x : Exec (Drive × α)} (hcall : Writes d call x) :
    Writes d (call >>= fun a => Pure.pure (f a)) (x.map fun r => (r.1, f r.2)) := by
  apply Meets.map hcall
  intro r a d' hrel
  obtain ⟨rfl, rfl⟩ := hrel
  exact ⟨rfl, rfl⟩

end Reads

section Copies

variable {α β ρ : Type} {d : Drive} {drive : DriveTrait} {c : Codec α} {lba : Lba} {rel : ρ → β → Drive → Prop}
  {y : Exec ρ}

theorem CopyOf.withMime (h : CopyOf d drive) (mime : String) : CopyOf d (drive.withMime mime) := ⟨h.good, h.readOnly⟩

theorem CopyOf.withPacket (h : CopyOf d drive) (lba : Lba) (size : Nat) : CopyOf d (drive.withPacket lba size) :=
  ⟨h.good, h.readOnly⟩

theorem CopyOf.output (h : CopyOf d drive) (v : α) : CopyOf (d.output c lba v) drive := by
  constructor
  · rw [h.good]
    unfold Drive.output Drive.outputBytes
    split_ifs
    · rfl
    · rfl
  · rw [h.readOnly, Drive.output_readOnly]

namespace Mount

theorem copyA_bind {next : DriveTrait → Call Mount β}
    (hnext : ∀ drive, CopyOf d drive → Meets Mount.drive rel d (next drive) y) :
    Meets Mount.drive rel d (copyA >>= next) y := by
  have hcopy : Meets Mount.drive (fun _ drive d' => CopyOf d drive ∧ d' = d) d copyA (.ok ()) := by
    apply Meets.of_ok
    intro m hm
    subst hm
    exact ⟨m.mA, m, rfl, ⟨rfl, rfl⟩, rfl⟩
  apply hcopy.ok_bind
  intro drive d' hdrive
  obtain ⟨hdrive, rfl⟩ := hdrive
  exact hnext drive hdrive

theorem readRecord_bind {next : α × DriveTrait → Call Mount β}
    (hnext : Meets Mount.drive rel d (next (d.input c lba, drive.withPacket lba c.size)) y) :
    Meets Mount.drive rel d (readRecord c lba drive >>= next) y := by
  have hread : Meets Mount.drive (fun v a d' => a = (v, drive.withPacket lba c.size) ∧ d' = d) d
      (readRecord c lba drive) (.ok (d.input c lba)) := by
    apply Meets.of_ok
    intro m hm
    subst hm
    exact ⟨_, m, rfl, rfl, rfl⟩
  apply hread.ok_bind
  intro a d' ha
  obtain ⟨rfl, rfl⟩ := ha
  exact hnext

theorem writes_ioDrvOutput {pckt : DrivePacket} (hro : pckt.fPacketReadOnly = d.fPacketReadOnly)
    (content : List UInt8) :
    Writes d (ioDrvOutput pckt content) (.ok (d.outputBytes pckt.fPacketLba content, ())) := by
  apply Meets.of_ok
  intro m hm
  subst hm
  refine ⟨(), _, rfl, rfl, ?_⟩
  dsimp only
  unfold Drive.outputBytes
  rw [← hro]
  by_cases h : pckt.fPacketReadOnly = true
  · rw [if_pos h, if_pos h]
    rfl
  · rw [if_neg h, if_neg h]
    exact congrArg (Drive.mk _ _) hro.symm

theorem writeRecord_bind {next : DriveTrait → Call Mount β} (h : CopyOf d drive) (v : α)
    (hnext : Meets Mount.drive rel (d.output c lba v) (next (drive.withPacket lba c.size)) y) :
    Meets Mount.drive rel d (writeRecord c lba v drive >>= next) y := by
  have hwrite : Meets Mount.drive (fun d₁ drive' d' => drive' = drive.withPacket lba c.size ∧ d' = d₁) d
      (writeRecord c lba v drive) (.ok (d.output c lba v)) := by
    apply Meets.ok_bind (writes_ioDrvOutput (h.withPacket lba c.size).readOnly (c.enc v))
    intro _ d' hout
    exact .pure ⟨rfl, hout.2⟩
  apply hwrite.ok_bind
  intro drive' d' hdrive
  obtain ⟨rfl, rfl⟩ := hdrive
  exact hnext

/-! ### `FindCatalog` -/

theorem reads_readRecordA (c : Codec α) (lba : Lba) : Reads d (readRecordA c lba) (.ok (d.input c lba)) := by
  apply Meets.of_ok
  intro m hm
  subst hm
  exact ⟨_, _, rfl, rfl, rfl⟩

theorem reads_withMime (mime : String) :
    Reads d (Call.modify fun m => { m with mA := m.mA.withMime mime }) (.ok ()) := by
  apply Meets.of_ok
  intro m hm
  subst hm
  exact ⟨(), _, rfl, rfl, rfl⟩

end Mount

end Copies

namespace Mount

variable {fuel : Nat} {d : Drive}

theorem reads_findPart : Reads d findPart (.ok d.superBlock) := by
  have hpart : Reads d (readRecordA NfsSuperBlock.codec kNeFSRootCatalogStartAddress) (.ok d.superBlock) :=
    reads_readRecordA _ _
  exact (reads_withMime nefsMime).ok_bind hpart

theorem reads_findRound (name : CString) (hidden : Bool) (part : NfsSuperBlock) (lba : Lba) :
    Reads d (findRound name hidden part lba) (OpenNE.findRound d name hidden part lba) := by
  have hrecord : Reads d (readRecordA NfsCatalogStruct.codec lba) (.ok (d.catalogAt lba)) := reads_readRecordA _ _
  apply Reads.ok_bind hrecord
  apply Reads.bind (Reads.lift _)
  intro temporaryName
  apply Meets.ite
  · intro _
    exact Reads.pure _
  · intro _
    apply Meets.ite
    · intro _
      exact Reads.pure _
    · intro _
      exact Reads.pure _

theorem reads_search (name : CString) (hidden : Bool) (start : Lba) :
    Reads d (Call.rounds (findRound name hidden d.superBlock) fuel start)
      (searchCatalogList fuel d name hidden start) :=
  Reads.rounds (reads_findRound name hidden _) fuel start

theorem reads_findCatalog (name : Option CString) (outLba : Lba) (hidden : Bool) :
    Reads d (findCatalog fuel name outLba hidden) (OpenNE.findCatalog fuel d name outLba hidden) := by
  rcases name with _ | name
  · exact Reads.pure _
  unfold findCatalog OpenNE.findCatalog
  apply Meets.ite
  · intro _
    exact Reads.pure _
  · intro _
    apply Reads.ok_bind reads_findPart
    apply Reads.map
    exact reads_search name hidden _

theorem reads_getCatalog (name : Option CString) :
    Reads d (getCatalog fuel name) (OpenNE.getCatalog fuel d name) :=
  Reads.map (reads_findCatalog name 0 true)

theorem reads_findTwice {name : CString} {hidden : Bool} (start : Lba)
    {next : Option (NfsCatalogStruct × Lba) → Exec (Option NfsCatalogStruct × Lba)}
    (hsome : ∀ found, next (some found) = .ok (foundAt (some found)))
    (hnone : next none = (searchCatalogList fuel d name hidden d.superBlock.StartCatalog).map foundAt) :
    Reads d (findTwice fuel name hidden d.superBlock start) (searchCatalogList fuel d name hidden start >>= next) := by
  apply Reads.bind (reads_search name hidden start)
  intro found
  cases found with
  | none =>
    rw [hnone]
    exact Reads.map (reads_search name hidden _)
  | some found =>
    rw [hsome found]
    exact Reads.pure _

theorem reads_findCatalogLocal (name : Option CString) (outLba : Lba) (hidden : Bool) :
    Reads d (findCatalogLocal fuel name outLba hidden) (OpenNE.findCatalogLocal fuel d name outLba hidden) := by
  rcases name with _ | name
  · exact Reads.pure _
  unfold findCatalogLocal OpenNE.findCatalogLocal
  dsimp only
  apply Meets.ite
  · intro _
    exact Reads.pure _
  intro _
  apply Reads.ok_bind reads_findPart
  apply Meets.ite
  · intro _
    exact reads_findTwice _ (fun _ => rfl) rfl
  intro _
  apply Reads.bind (Reads.lift _)
  intro parent
  apply Reads.bind (reads_findCatalog (some parent) outLba true)
  intro r
  obtain ⟨parentCatalog, lba⟩ := r
  cases parentCatalog with
  | none => exact Reads.pure _
  | some parentCatalog => exact reads_findTwice _ (fun _ => rfl) rfl

/-! ### `CreateCatalog` -/

section CreateCatalog

variable {name : CString} {drive : DriveTrait} {flags kind : Int32}

/-- `WithCopy` for the loop of `CreateCatalog`, which has the copy last. -/
def SlotCopy (d : Drive) (s : Lba × NfsCatalogStruct) (t : Lba × NfsCatalogStruct × DriveTrait) : Prop :=
  WithCopy d s (t.2.2, t.1, t.2.1)

theorem writes_allocateCatalog (h : CopyOf d drive) {part : NfsSuperBlock} {temporary child : NfsCatalogStruct}
    {startFree : Lba} : Writes d (allocateCatalog part temporary child startFree drive)
      (.ok (d.allocateCatalog part temporary child startFree, ())) := by
  have hfirst : CopyOf (d.output NfsCatalogStruct.codec startFree temporary)
      (drive.withPacket startFree NfsCatalogStruct.codec.size) := (h.withPacket _ _).output temporary
  apply writeRecord_bind h
  apply writeRecord_bind hfirst
  apply readRecord_bind
  exact writes_ioDrvOutput ((hfirst.withPacket _ _).output _).readOnly _

theorem meets_createRound (h : CopyOf d drive) {part : NfsSuperBlock} {child temporary : NfsCatalogStruct}
    {startFree : Lba} :
    Meets Mount.drive (Meets.RoundRel (SlotCopy d) (fun r a d' => a = r.2 ∧ d' = r.1) d) d
      (createRound name part child (startFree, temporary, drive))
      (OpenNE.createRound d name part child (startFree, temporary)) := by
  unfold createRound OpenNE.createRound
  dsimp only
  apply Meets.ite
  · intro _
    exact .pure ⟨rfl, rfl⟩
  intro _
  apply Meets.ite
  · intro _
    apply Meets.ok_bind (writes_allocateCatalog h)
    intro _ d' hd
    exact .pure ⟨rfl, hd.2⟩
  intro _
  apply Reads.bind (Reads.lift _)
  intro temporaryName
  apply Meets.ite
  · intro _
    exact .pure ⟨rfl, rfl⟩
  intro _
  apply readRecord_bind
  exact .pure ⟨⟨h.withPacket _ _, rfl⟩, rfl⟩

theorem writes_createCatalogFrom (h : CopyOf d drive) (outLba : Lba) :
    Writes d (createCatalogFrom fuel name flags kind outLba drive)
      (OpenNE.createCatalogFrom fuel d name flags kind outLba) := by
  unfold createCatalogFrom OpenNE.createCatalogFrom
  apply readRecord_bind
  apply readRecord_bind
  apply Meets.ite
  · intro _
    exact .pure ⟨rfl, rfl⟩
  intro _
  have hround : ∀ s t, SlotCopy d s t → Meets Mount.drive
      (Meets.RoundRel (SlotCopy d) (fun r a d' => a = r.2 ∧ d' = r.1) d) d
      (createRound name d.superBlock (childCatalog name flags kind outLba) t)
      (OpenNE.createRound d name d.superBlock (childCatalog name flags kind outLba) s) := by
    intro s t ht
    obtain ⟨startFree, temporary, drive'⟩ := t
    obtain ⟨hdrive, rfl⟩ := ht
    exact meets_createRound hdrive
  exact Meets.rounds hround fuel ⟨((h.withMime nefsMime).withPacket _ _).withPacket _ _, rfl⟩

theorem writes_createCatalog (name : Option CString) :
    Writes d (createCatalog fuel name flags kind) (OpenNE.createCatalog fuel d name flags kind) := by
  rcases name with _ | name
  · exact .stop _
  unfold createCatalog OpenNE.createCatalog
  dsimp only
  rcases name.1.getLast? with _ | last
  · exact .stop _
  dsimp only
  apply Meets.ite
  · intro _
    exact .pure ⟨rfl, rfl⟩
  intro _
  apply Meets.ite
  · intro _
    exact .pure ⟨rfl, rfl⟩
  intro _
  apply Reads.bind (reads_findCatalog (some name) 0 true)
  intro existing
  apply Meets.ite
  · intro _
    exact .pure ⟨rfl, rfl⟩
  intro _
  apply Reads.bind (Reads.lift _)
  intro parent
  apply Reads.bind (reads_findCatalog (some parent) _ true)
  intro found
  apply copyA_bind
  intro drive hdrive
  obtain ⟨catalog, outLba⟩ := found
  cases catalog with
  | none =>
    apply readRecord_bind
    exact writes_createCatalogFrom (hdrive.withPacket _ _) _
  | some catalog =>
    apply Meets.ite
    · intro _
      exact .pure ⟨rfl, rfl⟩
    · intro _
      exact writes_createCatalogFrom hdrive _

end CreateCatalog

/-! ### `RemoveCatalog` -/

theorem writes_releaseCatalog (catalog : NfsCatalogStruct) (lba : Lba) :
    Writes d (releaseCatalog catalog lba) (.ok (d.releaseCatalog catalog lba, ())) := by
  apply copyA_bind
  intro drive hdrive
  apply writeRecord_bind (hdrive.withMime nefsMime)
  apply readRecord_bind
  exact writes_ioDrvOutput (((hdrive.withMime nefsMime).withPacket _ _).output _).readOnly _

theorem writes_removeCatalog (name : Option CString) :
    Writes d (removeCatalog fuel name) (OpenNE.removeCatalog fuel d name) := by
  rcases name with _ | name
  · exact .pure ⟨rfl, rfl⟩
  unfold removeCatalog OpenNE.removeCatalog
  dsimp only
  apply Meets.ite
  · intro _
    exact .pure ⟨rfl, rfl⟩
  intro _
  apply Reads.bind (reads_findCatalog (some name) 0 true)
  intro found
  obtain ⟨catalog, outLba⟩ := found
  cases catalog with
  | none => exact .stop _
  | some catalog =>
    apply Meets.ite
    · intro _
      apply Meets.ok_bind (writes_releaseCatalog catalog outLba)
      intro _ d' hd
      exact .pure ⟨rfl, hd.2⟩
    · intro _
      exact .pure ⟨rfl, rfl⟩

/-! ### Forks -/

section Forks

variable {drive : DriveTrait}

theorem meets_fsIfsWrite (h : CopyOf d drive) (content : List UInt8) :
    Meets Mount.drive (fun d₁ _ d' => d' = d₁) d (fsIfsWrite content drive)
      (.ok (d.outputBytes drive.fPacket.fPacketLba content)) := by
  have hro : { drive.fPacket with fPacketGood := false }.fPacketReadOnly = d.fPacketReadOnly := h.readOnly
  apply Meets.ok_bind (writes_ioDrvOutput hro content)
  intro _ d' hd
  exact .pure hd.2

theorem meets_createForkRound (h : CopyOf d drive) {fork : NfsForkStruct} {scan : ForkScan} :
    Meets Mount.drive (Meets.RoundRel (WithCopy d) (fun r a d' => WithCopy r.1 r.2 a ∧ d' = r.1) d) d
      (createForkRound fork (drive, scan)) (OpenNE.createForkRound d fork scan) := by
  unfold createForkRound OpenNE.createForkRound
  dsimp only
  rw [h.good]
  apply Meets.ite
  · intro _
    exact .pure ⟨⟨h, rfl⟩, rfl⟩
  intro _
  apply readRecord_bind
  apply Meets.ite
  · intro _
    apply Reads.bind (Reads.lift _)
    intro named
    apply Meets.ite
    · intro _
      exact .pure ⟨⟨h.withPacket _ _, rfl⟩, rfl⟩
    · intro _
      exact .pure ⟨⟨h.withPacket _ _, rfl⟩, rfl⟩
  intro _
  apply Meets.ite
  · intro _
    apply writeRecord_bind (h.withPacket _ _)
    exact .pure ⟨⟨((h.withPacket _ _).withPacket _ _).output _, rfl⟩, rfl⟩
  · intro _
    exact .pure ⟨⟨h.withPacket _ _, rfl⟩, rfl⟩

theorem writes_mustTryFailed (debug : Bool) (fork : NfsForkStruct) :
    Writes d (mustTryFailed debug fork) (OpenNE.mustTryFailed debug d fork) := by
  apply Meets.ite
  · intro _
    exact .stop _
  · intro _
    exact .pure ⟨rfl, rfl⟩

theorem writes_createFork (debug : Bool) (stale fork : NfsForkStruct) :
    Writes d (createFork debug fuel stale fork) (OpenNE.createFork debug fuel stale d fork) := by
  apply Meets.ite
  · intro _
    apply Reads.bind (Reads.lift _)
    intro catalogName
    apply Reads.bind (reads_getCatalog (some catalogName))
    intro catalog
    cases catalog with
    | none => exact writes_mustTryFailed debug fork
    | some catalog =>
      apply Meets.ite
      · intro _
        apply copyA_bind
        intro drv hdrv
        have hscan : ∀ scan t, WithCopy d scan t → Meets Mount.drive
            (Meets.RoundRel (WithCopy d) (fun r a d' => WithCopy r.1 r.2 a ∧ d' = r.1) d) d
            (createForkRound fork t) (OpenNE.createForkRound d fork scan) := by
          intro scan t ht
          obtain ⟨drive, scan'⟩ := t
          obtain ⟨hdrive, rfl⟩ := ht
          exact meets_createForkRound hdrive
        apply Meets.bind (Meets.rounds hscan fuel ⟨hdrv, rfl⟩)
        intro r a d' hend
        obtain ⟨d₁, scan⟩ := r
        obtain ⟨drive, scan'⟩ := a
        obtain ⟨⟨hdrive, rfl⟩, rfl⟩ := hend
        apply Meets.ok_bind (meets_fsIfsWrite (hdrive.withPacket _ _) _)
        intro _ d₂ hd
        exact .pure ⟨rfl, hd⟩
      · intro _
        exact writes_mustTryFailed debug fork
  · intro _
    exact .pure ⟨rfl, rfl⟩

theorem meets_writeRound (h : CopyOf d drive) {catalogName : CString} {data : List UInt8} {forkName : Option CString}
    {lba : Lba} :
    Meets Mount.drive (Meets.RoundRel (WithCopy d) (fun r a d' => a = r.2 ∧ d' = r.1) d) d
      (writeRound catalogName data forkName (drive, lba)) (OpenNE.writeRound d catalogName data forkName lba) := by
  unfold writeRound OpenNE.writeRound
  dsimp only
  apply Meets.ite
  · intro _
    exact .pure ⟨rfl, rfl⟩
  intro _
  apply readRecord_bind
  apply Reads.bind (Reads.lift _)
  intro wanted
  apply Meets.ite
  · intro _
    apply Meets.ok_bind (writes_ioDrvOutput ((h.withPacket _ _).withPacket _ _).readOnly data)
    intro _ d' hd
    exact .pure ⟨rfl, hd.2⟩
  · intro _
    exact .pure ⟨⟨h.withPacket _ _, rfl⟩, rfl⟩

theorem writes_writeCatalog (name : Option CString) (isRsrcFork : Bool) (data : List UInt8)
    (forkName : Option CString) : Writes d (writeCatalog fuel name isRsrcFork data forkName)
      (OpenNE.writeCatalog fuel d name isRsrcFork data forkName) := by
  apply Meets.ite
  · intro _
    exact .pure ⟨rfl, rfl⟩
  intro _
  apply copyA_bind
  intro drive hdrive
  apply Reads.bind (reads_getCatalog name)
  intro catalog
  cases catalog with
  | none => exact .pure ⟨rfl, rfl⟩
  | some catalog =>
    apply Reads.bind (Reads.lift _)
    intro catalogName
    have hround : ∀ lba t, WithCopy d lba t → Meets Mount.drive
        (Meets.RoundRel (WithCopy d) (fun r a d' => a = r.2 ∧ d' = r.1) d) d
        (writeRound catalogName data forkName t) (OpenNE.writeRound d catalogName data forkName lba) := by
      intro lba t ht
      obtain ⟨drive', lba'⟩ := t
      obtain ⟨hdrive', rfl⟩ := ht
      exact meets_writeRound hdrive'
    exact Meets.rounds hround fuel ⟨hdrive.withMime nefsMime, rfl⟩

theorem meets_readRound {catalog : NfsCatalogStruct} {forkName : Option CString} {lba : Lba}
    {last : Option NfsForkStruct} :
    Meets Mount.drive (Meets.RoundRel (fun s t => t.2 = s) (fun r a d' => a = r ∧ d' = d) d) d
      (readRound catalog forkName (drive, lba, last)) (OpenNE.readRound d catalog forkName (lba, last)) := by
  unfold readRound OpenNE.readRound
  dsimp only
  apply Meets.ite
  · intro _
    exact .pure ⟨rfl, rfl⟩
  intro _
  apply readRecord_bind
  apply Reads.bind (Reads.lift _)
  intro named
  apply Meets.ite
  · intro _
    exact .pure ⟨rfl, rfl⟩
  · intro _
    exact .pure ⟨rfl, rfl⟩

theorem reads_readCatalog (catalog : Option NfsCatalogStruct) (isRsrcFork : Bool) (forkName : Option CString) :
    Reads d (readCatalog fuel catalog isRsrcFork forkName)
      (OpenNE.readCatalog fuel d catalog isRsrcFork forkName) := by
  rcases catalog with _ | catalog
  · exact Reads.pure _
  apply copyA_bind
  intro drive _
  have hrounds : ∀ s t, t.2 = s → Meets Mount.drive
      (Meets.RoundRel (fun s t => t.2 = s) (fun r a d' => a = r ∧ d' = d) d) d
      (readRound catalog forkName t) (OpenNE.readRound d catalog forkName s) := by
    intro s t ht
    obtain ⟨drive', lba, last⟩ := t
    subst ht
    exact meets_readRound
  apply Reads.bind (Meets.rounds hrounds fuel rfl)
  intro r
  apply Meets.ite
  · intro _
    exact Reads.pure _
  · intro _
    exact Reads.pure _

end Forks

end Mount

/-! ### Sequences of calls -/

/-- The call made on the bare drive. -/
def NefsCall.onDrive (debug : Bool) (fuel : Nat) (d : Drive) : NefsCall → Exec Drive
  | .findCatalog name outLba searchHidden localSearch =>
    if localSearch then (OpenNE.findCatalogLocal fuel d name outLba searchHidden).map fun _ => d
    else (OpenNE.findCatalog fuel d name outLba searchHidden).map fun _ => d
  | .createCatalog name flags kind => (OpenNE.createCatalog fuel d name flags kind).map Prod.fst
  | .removeCatalog name => (OpenNE.removeCatalog fuel d name).map Prod.fst
  | .createFork stale fork => (OpenNE.createFork debug fuel stale d fork).map Prod.fst
  | .writeCatalog name isRsrcFork data forkName =>
    (OpenNE.writeCatalog fuel d name isRsrcFork data forkName).map Prod.fst
  | .readCatalog catalog isRsrcFork forkName =>
    (OpenNE.readCatalog fuel d catalog isRsrcFork forkName).map fun _ => d

section Calls

variable {α : Type} {d : Drive} {call : Call Mount α}

theorem Reads.leaves {x : Exec α} (h : Reads d call x) :
    Meets Mount.drive (fun d₁ _ d' => d' = d₁) d (call >>= fun _ => Pure.pure ()) (x.map fun _ => d) := by
  apply Meets.map h
  intro r a d' hrel
  exact hrel.2

theorem Writes.leaves {x : Exec (Drive × α)} (h : Writes d call x) :
    Meets Mount.drive (fun d₁ _ d' => d' = d₁) d (call >>= fun _ => Pure.pure ()) (x.map Prod.fst) := by
  apply Meets.map h
  intro r a d' hrel
  exact hrel.2

theorem NefsCall.meets_run (debug : Bool) (fuel : Nat) (op : NefsCall) :
    Meets Mount.drive (fun d₁ _ d' => d' = d₁) d (op.run debug fuel) (op.onDrive debug fuel d) := by
  cases op with
  | findCatalog name outLba searchHidden localSearch =>
    apply Meets.ite
    · intro _
      exact (Mount.reads_findCatalogLocal name outLba searchHidden).leaves
    · intro _
      exact (Mount.reads_findCatalog name outLba searchHidden).leaves
  | createCatalog name flags kind => exact (Mount.writes_createCatalog name).leaves
  | removeCatalog name => exact (Mount.writes_removeCatalog name).leaves
  | createFork stale fork => exact (Mount.writes_createFork debug stale fork).leaves
  | writeCatalog name isRsrcFork data forkName =>
    exact (Mount.writes_writeCatalog name isRsrcFork data forkName).leaves
  | readCatalog catalog isRsrcFork forkName => exact (Mount.reads_readCatalog catalog isRsrcFork forkName).leaves

theorem NefsCall.meets_runAll (debug : Bool) (ops : List (Nat × NefsCall)) :
    Meets Mount.drive (fun d₁ _ d' => d' = d₁) d (NefsCall.runAll debug ops)
      (ops.foldlM (fun d op => op.2.onDrive debug op.1 d) d) :=
  Meets.all (fun _ op => op.2.meets_run debug op.1) ops d

end Calls

end OpenNE

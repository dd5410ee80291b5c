import OpenNE.NeFS.Packet

/-!
# A drive without an EPM header is never written

`io_detect_drive` marks the packet of such a drive read-only. No operation assigns the flag, every packet is
that of the mounted drive or of a copy, so each packet that reaches `io_drv_output` carries it
(`readOnly_never_written`).
-/

namespace OpenNE

/-- The packet of the drive is marked read-only. -/
def DriveTrait.ReadOnly (drive : DriveTrait) : Prop := drive.fPacket.fPacketReadOnly = true

/-- The disk as it was, the mounted drive read-only, and nothing but read-only packets sent since. -/
structure Protected (disk : Store) (sent : List DrivePacket) (m : Mount) : Prop where
  disk : m.disk = disk
  mounted : m.mA.ReadOnly
  packets : ∃ ps, m.sent = sent ++ ps ∧ ∀ p ∈ ps, p.fPacketReadOnly = true

namespace Mount

variable {disk : Store} {sent : List DrivePacket} {drive : DriveTrait} {α : Type} {c : Codec α} {lba : Lba}
  {fuel : Nat}

/-! ### Packets -/

theorem keeps_ioDrvOutput {pckt : DrivePacket} (h : pckt.fPacketReadOnly = true) (content : List UInt8) :
    Call.Keeps (Protected disk sent) (fun _ => True) (ioDrvOutput pckt content) := by
  apply Call.Keeps.modify
  rintro m ⟨hdisk, hmounted, ps, hsent, hps⟩
  rw [if_pos h]
  refine ⟨hdisk, hmounted, ps ++ [pckt], ?_, ?_⟩
  · rw [hsent, List.append_assoc]
  · intro p hp
    rcases List.mem_append.mp hp with hp | hp
    · exact hps p hp
    · rw [List.mem_singleton.mp hp, h]

theorem keeps_readRecord (h : drive.ReadOnly) :
    Call.Keeps (Protected disk sent) (fun r => r.2.ReadOnly) (readRecord c lba drive) := by
  apply Call.Keeps.seq
  · exact .gets fun _ _ => trivial
  · intro content
    exact .pure h

theorem keeps_writeRecord {v : α} (h : drive.ReadOnly) :
    Call.Keeps (Protected disk sent) DriveTrait.ReadOnly (writeRecord c lba v drive) := by
  have hpckt : (drive.withPacket lba c.size).fPacket.fPacketReadOnly = true := h
  apply Call.Keeps.bind (keeps_ioDrvOutput hpckt _)
  intro _ _
  exact .pure h

theorem keeps_fsIfsWrite (h : drive.ReadOnly) (content : List UInt8) :
    Call.Keeps (Protected disk sent) (fun r => r.2.ReadOnly) (fsIfsWrite content drive) := by
  have hpckt : { drive.fPacket with fPacketGood := false }.fPacketReadOnly = true := h
  apply Call.Keeps.bind (keeps_ioDrvOutput hpckt _)
  intro _ _
  exact .pure h

theorem keeps_copyA : Call.Keeps (Protected disk sent) DriveTrait.ReadOnly copyA :=
  .gets fun _ h => h.mounted

theorem keeps_mount (h : drive.ReadOnly) :
    Call.Keeps (Protected disk sent) (fun _ => True) (Call.modify fun m => { m with mA := drive }) := by
  apply Call.Keeps.modify
  intro m hm
  exact ⟨hm.disk, h, hm.packets⟩

theorem keeps_readRecordA :
    Call.Keeps (Protected disk sent) (fun _ => True) (readRecordA c lba) := by
  apply Call.Keeps.bind keeps_copyA
  intro drive hdrive
  apply Call.Keeps.bind (keeps_readRecord hdrive)
  intro r hdrive
  obtain ⟨v, drive⟩ := r
  apply Call.Keeps.bind (keeps_mount hdrive)
  intro _ _
  exact .pure trivial

/-! ### `FindCatalog` -/

theorem keeps_findRound {name : CString} {hidden : Bool} {part : NfsSuperBlock} :
    Call.Keeps (Protected disk sent) (Sum.elim (fun _ => True) fun _ => True)
      (findRound name hidden part lba) := by
  apply Call.Keeps.bind keeps_readRecordA
  intro temporary _
  apply Call.Keeps.bind (.lift _)
  intro temporaryName _
  dsimp only
  split_ifs
  all_goals exact .pure trivial

theorem keeps_search {name : CString} {hidden : Bool} {part : NfsSuperBlock} :
    Call.Keeps (Protected disk sent) (fun _ => True) (Call.rounds (findRound name hidden part) fuel lba) :=
  .rounds (fun _ _ => keeps_findRound) fuel trivial

theorem keeps_findPart : Call.Keeps (Protected disk sent) (fun _ => True) findPart := by
  apply Call.Keeps.seq
  · apply Call.Keeps.modify
    intro m hm
    exact ⟨hm.disk, hm.mounted, hm.packets⟩
  · intro _
    exact keeps_readRecordA

theorem keeps_findCatalog {name : Option CString} {hidden : Bool} :
    Call.Keeps (Protected disk sent) (fun _ => True) (findCatalog fuel name lba hidden) := by
  unfold findCatalog
  split
  · exact .pure trivial
  · split_ifs
    · exact .pure trivial
    · apply Call.Keeps.bind keeps_findPart
      intro part _
      apply Call.Keeps.bind keeps_search
      intro found _
      exact .pure trivial

theorem keeps_findTwice {name : CString} {hidden : Bool} {part : NfsSuperBlock} :
    Call.Keeps (Protected disk sent) (fun _ => True) (findTwice fuel name hidden part lba) := by
  apply Call.Keeps.bind keeps_search
  intro first _
  cases first with
  | none =>
    apply Call.Keeps.bind keeps_search
    intro found _
    exact .pure trivial
  | some found => exact .pure trivial

theorem keeps_findCatalogLocal {name : Option CString} {hidden : Bool} :
    Call.Keeps (Protected disk sent) (fun _ => True) (findCatalogLocal fuel name lba hidden) := by
  unfold findCatalogLocal
  split
  · exact .pure trivial
  · split_ifs
    · exact .pure trivial
    · apply Call.Keeps.bind keeps_findPart
      intro part _
      exact keeps_findTwice
    · apply Call.Keeps.bind keeps_findPart
      intro part _
      apply Call.Keeps.bind (.lift _)
      intro parent _
      apply Call.Keeps.bind keeps_findCatalog
      intro r _
      obtain ⟨parentCatalog, outLba⟩ := r
      cases parentCatalog with
      | none => exact .pure trivial
      | some parentCatalog => exact keeps_findTwice

theorem keeps_getCatalog {name : Option CString} :
    Call.Keeps (Protected disk sent) (fun _ => True) (getCatalog fuel name) := by
  apply Call.Keeps.bind keeps_findCatalog
  intro _ _
  exact .pure trivial

/-! ### `CreateCatalog` -/

theorem keeps_allocateCatalog {part : NfsSuperBlock} {temporary child : NfsCatalogStruct} (h : drive.ReadOnly) :
    Call.Keeps (Protected disk sent) (fun _ => True) (allocateCatalog part temporary child lba drive) := by
  apply Call.Keeps.bind (keeps_writeRecord h)
  intro drive hdrive
  apply Call.Keeps.bind (keeps_writeRecord hdrive)
  intro drive hdrive
  apply Call.Keeps.bind (keeps_readRecord hdrive)
  intro r hdrive
  obtain ⟨part, drive⟩ := r
  exact keeps_ioDrvOutput hdrive _

theorem keeps_createRound {name : CString} {part : NfsSuperBlock} {child : NfsCatalogStruct}
    {s : Lba × NfsCatalogStruct × DriveTrait} (h : s.2.2.ReadOnly) :
    Call.Keeps (Protected disk sent) (Sum.elim (fun s => s.2.2.ReadOnly) fun _ => True)
      (createRound name part child s) := by
  obtain ⟨startFree, temporary, drive⟩ := s
  unfold createRound
  dsimp only
  split_ifs
  · exact .pure trivial
  · apply Call.Keeps.bind (keeps_allocateCatalog h)
    intro _ _
    exact .pure trivial
  · apply Call.Keeps.bind (.lift _)
    intro temporaryName _
    split_ifs
    · exact .pure trivial
    · apply Call.Keeps.bind (keeps_readRecord h)
      intro r hdrive
      obtain ⟨next, drive⟩ := r
      exact .pure hdrive

theorem keeps_createCatalogFrom {name : CString} {flags kind : Int32} (h : drive.ReadOnly) :
    Call.Keeps (Protected disk sent) (fun _ => True) (createCatalogFrom fuel name flags kind lba drive) := by
  have hmime : (drive.withMime nefsMime).ReadOnly := h
  apply Call.Keeps.bind (keeps_readRecord hmime)
  intro r hdrive
  obtain ⟨part, drive⟩ := r
  apply Call.Keeps.bind (keeps_readRecord hdrive)
  intro r hdrive
  obtain ⟨temporary, drive⟩ := r
  dsimp only
  split_ifs
  · exact .pure trivial
  · exact .rounds (fun _ hs => keeps_createRound hs) fuel hdrive

theorem keeps_createCatalogChecked {name : CString} {flags kind : Int32} :
    Call.Keeps (Protected disk sent) (fun _ => True) (createCatalogChecked fuel name flags kind) := by
  apply Call.Keeps.bind keeps_findCatalog
  intro r _
  obtain ⟨existing, outLba⟩ := r
  dsimp only
  split_ifs
  · exact .pure trivial
  · apply Call.Keeps.bind (.lift _)
    intro parent _
    apply Call.Keeps.bind keeps_findCatalog
    intro r _
    obtain ⟨catalog, outLba⟩ := r
    apply Call.Keeps.bind keeps_copyA
    intro drive hdrive
    rcases catalog with _ | catalog
    · apply Call.Keeps.bind (keeps_readRecord hdrive)
      intro r hdrive
      obtain ⟨part, drive⟩ := r
      exact keeps_createCatalogFrom hdrive
    · dsimp only
      split_ifs
      · exact .pure trivial
      · exact keeps_createCatalogFrom hdrive

theorem keeps_createCatalog {name : Option CString} {flags kind : Int32} :
    Call.Keeps (Protected disk sent) (fun _ => True) (createCatalog fuel name flags kind) := by
  unfold createCatalog
  split
  · exact .stop _
  · split
    · exact .stop _
    · split_ifs
      · exact .pure trivial
      · exact .pure trivial
      · exact keeps_createCatalogChecked

/-! ### `RemoveCatalog` -/

theorem keeps_releaseCatalog {catalog : NfsCatalogStruct} :
    Call.Keeps (Protected disk sent) (fun _ => True) (releaseCatalog catalog lba) := by
  apply Call.Keeps.bind keeps_copyA
  intro drive hdrive
  have hmime : (drive.withMime nefsMime).ReadOnly := hdrive
  apply Call.Keeps.bind (keeps_writeRecord hmime)
  intro drive hdrive
  apply Call.Keeps.bind (keeps_readRecord hdrive)
  intro r hdrive
  obtain ⟨part, drive⟩ := r
  exact keeps_ioDrvOutput hdrive _

theorem keeps_removeCatalog {name : Option CString} :
    Call.Keeps (Protected disk sent) (fun _ => True) (removeCatalog fuel name) := by
  unfold removeCatalog
  split
  · exact .pure trivial
  · split_ifs
    · exact .pure trivial
    · apply Call.Keeps.bind keeps_findCatalog
      intro r _
      obtain ⟨catalog, outLba⟩ := r
      cases catalog with
      | none => exact .stop _
      | some catalog =>
        dsimp only
        split_ifs
        · apply Call.Keeps.bind keeps_releaseCatalog
          intro _ _
          exact .pure trivial
        · exact .pure trivial

/-! ### Forks -/

theorem keeps_createForkRound {fork : NfsForkStruct} {s : DriveTrait × ForkScan} (h : s.1.ReadOnly) :
    Call.Keeps (Protected disk sent) (Sum.elim (fun s => s.1.ReadOnly) fun s => s.1.ReadOnly)
      (createForkRound fork s) := by
  obtain ⟨drv, scan⟩ := s
  unfold createForkRound
  dsimp only
  by_cases hgood : drv.fPacket.fPacketGood = false
  · rw [if_pos hgood]
    exact .pure h
  · rw [if_neg hgood]
    apply Call.Keeps.bind (keeps_readRecord h)
    intro r hdrv
    obtain ⟨cur, drv⟩ := r
    dsimp only
    split_ifs
    · apply Call.Keeps.bind (.lift _)
      intro named _
      split_ifs
      · exact .pure hdrv
      · exact .pure hdrv
    · apply Call.Keeps.bind (keeps_writeRecord hdrv)
      intro drv hdrv
      exact .pure hdrv
    · exact .pure hdrv

theorem keeps_mustTryFailed {debug : Bool} {fork : NfsForkStruct} :
    Call.Keeps (Protected disk sent) (fun _ => True) (mustTryFailed debug fork) := by
  unfold mustTryFailed
  split_ifs
  · exact .stop _
  · exact .pure trivial

theorem keeps_createFork {debug : Bool} {stale fork : NfsForkStruct} :
    Call.Keeps (Protected disk sent) (fun _ => True) (createFork debug fuel stale fork) := by
  unfold createFork
  split_ifs
  · apply Call.Keeps.bind (.lift _)
    intro catalogName _
    apply Call.Keeps.bind keeps_getCatalog
    intro catalog _
    cases catalog with
    | none => exact keeps_mustTryFailed
    | some catalog =>
      dsimp only
      split_ifs
      · apply Call.Keeps.bind keeps_copyA
        intro drv hdrv
        apply Call.Keeps.bind (.rounds (fun _ hs => keeps_createForkRound hs) fuel hdrv)
        intro r hdrv
        obtain ⟨drv, scan⟩ := r
        have hpacket : (drv.withPacket scan.lba forkSize).ReadOnly := hdrv
        apply Call.Keeps.bind (keeps_fsIfsWrite hpacket _)
        intro _ _
        exact .pure trivial
      · exact keeps_mustTryFailed
  · exact .pure trivial

theorem keeps_writeRound {name : CString} {data : List UInt8} {forkName : Option CString} {s : DriveTrait × Lba}
    (h : s.1.ReadOnly) :
    Call.Keeps (Protected disk sent) (Sum.elim (fun s => s.1.ReadOnly) fun _ => True)
      (writeRound name data forkName s) := by
  obtain ⟨drive, startFork⟩ := s
  unfold writeRound
  dsimp only
  split_ifs
  · exact .pure trivial
  · apply Call.Keeps.bind (keeps_readRecord h)
    intro r hdrive
    obtain ⟨fork, drive⟩ := r
    apply Call.Keeps.bind (.lift _)
    intro wanted _
    dsimp only
    split_ifs
    · have hpckt : (drive.withPacket fork.DataOffset data.length).fPacket.fPacketReadOnly = true := hdrive
      apply Call.Keeps.bind (keeps_ioDrvOutput hpckt _)
      intro _ _
      exact .pure trivial
    · exact .pure hdrive

theorem keeps_writeCatalog {name : Option CString} {isRsrcFork : Bool} {data : List UInt8}
    {forkName : Option CString} :
    Call.Keeps (Protected disk sent) (fun _ => True) (writeCatalog fuel name isRsrcFork data forkName) := by
  unfold writeCatalog
  by_cases hdata : data.length < 1
  · rw [if_pos hdata]
    exact .pure trivial
  · rw [if_neg hdata]
    apply Call.Keeps.bind keeps_copyA
    intro drive hdrive
    apply Call.Keeps.bind keeps_getCatalog
    intro catalog _
    cases catalog with
    | none => exact .pure trivial
    | some catalog =>
      apply Call.Keeps.bind (.lift _)
      intro catalogName _
      exact .rounds (fun _ hs => keeps_writeRound hs) fuel hdrive

theorem keeps_readRound {catalog : NfsCatalogStruct} {forkName : Option CString}
    {s : DriveTrait × Lba × Option NfsForkStruct} (h : s.1.ReadOnly) :
    Call.Keeps (Protected disk sent) (Sum.elim (fun s => s.1.ReadOnly) fun _ => True)
      (readRound catalog forkName s) := by
  obtain ⟨drive, lba, last⟩ := s
  unfold readRound
  dsimp only
  split_ifs
  · exact .pure trivial
  · apply Call.Keeps.bind (keeps_readRecord h)
    intro r hdrive
    obtain ⟨fork, drive⟩ := r
    apply Call.Keeps.bind (.lift _)
    intro named _
    dsimp only
    split_ifs
    · exact .pure trivial
    · exact .pure hdrive

theorem keeps_readCatalog {catalog : Option NfsCatalogStruct} {isRsrcFork : Bool} {forkName : Option CString} :
    Call.Keeps (Protected disk sent) (fun _ => True) (readCatalog fuel catalog isRsrcFork forkName) := by
  unfold readCatalog
  split
  · exact .pure trivial
  · apply Call.Keeps.bind keeps_copyA
    intro drive hdrive
    apply Call.Keeps.bind (.rounds (fun _ hs => keeps_readRound hs) fuel hdrive)
    intro r _
    obtain ⟨lba, fork⟩ := r
    dsimp only
    split_ifs
    all_goals exact .pure trivial

end Mount

/-! ### The whole run -/

variable {disk : Store} {sent : List DrivePacket}

theorem NefsCall.keeps_run (debug : Bool) (fuel : Nat) (op : NefsCall) :
    Call.Keeps (Protected disk sent) (fun _ => True) (op.run debug fuel) := by
  have hunit : ∀ {α : Type} {call : Call Mount α}, Call.Keeps (Protected disk sent) (fun _ => True) call →
      Call.Keeps (Protected disk sent) (fun _ => True) (call >>= fun _ => pure ()) := by
    intro α call hcall
    apply Call.Keeps.bind hcall
    intro _ _
    exact .pure trivial
  cases op with
  | findCatalog name outLba hidden localSearch =>
    cases localSearch
    · exact hunit Mount.keeps_findCatalog
    · exact hunit Mount.keeps_findCatalogLocal
  | createCatalog name flags kind => exact hunit Mount.keeps_createCatalog
  | removeCatalog name => exact hunit Mount.keeps_removeCatalog
  | createFork stale fork => exact hunit Mount.keeps_createFork
  | writeCatalog name isRsrcFork data forkName => exact hunit Mount.keeps_writeCatalog
  | readCatalog catalog isRsrcFork forkName => exact hunit Mount.keeps_readCatalog

theorem EpmPartBlock.dec_magic {bs : List UInt8} (h : bs.length = EpmPartBlock.codec.size) :
    (EpmPartBlock.codec.dec bs).Magic.1 = bs.take kEPMMagicLength := by
  have henc := EpmPartBlock.codec.enc_dec bs h
  have hmagic := (EpmPartBlock.codec.dec bs).Magic.2
  rw [← henc, Codec.dec_enc]
  show _ = List.take 5 ((EpmPartBlock.codec.dec bs).Magic.1 ++ _)
  rw [List.take_left' hmagic]

theorem epmMagic_eq (disk : Store) :
    (EpmPartBlock.codec.dec (disk.read kEPMBootBlockLba.toNat EpmPartBlock.codec.size)).Magic.1 =
      disk.read kEPMBootBlockLba.toNat kEPMMagicLength := by
  rw [EpmPartBlock.dec_magic (Store.read_length ..), show EpmPartBlock.codec.size = kEPMMagicLength + 491 from rfl,
    Store.read_add]
  exact List.take_left' (Store.read_length ..)

theorem ioDetectDrive_readOnly {m : Mount} (trait : DriveTrait)
    (hmagic : m.disk.read kEPMBootBlockLba.toNat kEPMMagicLength ≠ kEPMMagic) :
    ∃ drive, Mount.ioDetectDrive trait m = (.ok drive, m) ∧ drive.ReadOnly := by
  have hne : ¬ rtStringCmp (EpmPartBlock.codec.dec
      (m.disk.read kEPMBootBlockLba.toNat EpmPartBlock.codec.size)).Magic.1 kEPMMagic kEPMMagicLength = 0 := by
    rw [epmMagic_eq]
    intro hzero
    exact hmagic ((rtStringCmp_eq_zero_of_length (by rw [Store.read_length]; rfl)).mp hzero)
  have hread : Mount.readRecord EpmPartBlock.codec kEPMBootBlockLba (trait.withMime "fs/detect-packet") m =
      (.ok (EpmPartBlock.codec.dec (m.disk.read kEPMBootBlockLba.toNat EpmPartBlock.codec.size),
        (trait.withMime "fs/detect-packet").withPacket kEPMBootBlockLba EpmPartBlock.codec.size), m) := rfl
  unfold Mount.ioDetectDrive
  rw [Call.bind_of_ok hread]
  dsimp only
  unfold Mount.detected
  rw [if_neg hne]
  exact ⟨_, rfl, rfl⟩

theorem fsInitNefs_protects {m : Mount}
    (hmagic : m.disk.read kEPMBootBlockLba.toNat kEPMMagicLength ≠ kEPMMagic) :
    Protected m.disk m.sent (Mount.fsInitNefs m).2 := by
  obtain ⟨drive, hdrive, hro⟩ := ioDetectDrive_readOnly { fName := "/media/sda/" } hmagic
  unfold Mount.fsInitNefs Mount.ioConstructMainDrive
  rw [Call.bind_of_ok hdrive]
  exact ⟨rfl, hro, [], (List.append_nil _).symm, by simp⟩

/-- When the block at LBA 0 of the mounted drive does not start with the EPM magic, no later sequence of calls
writes a byte of the disk, whether it returns, stops or runs on: every packet that reaches `io_drv_output` is
read-only. -/
theorem readOnly_never_written (debug : Bool) (m : Mount) (ops : List (Nat × NefsCall))
    (hmagic : m.disk.read kEPMBootBlockLba.toNat kEPMMagicLength ≠ kEPMMagic) :
    let m' := (NefsCall.runAll debug ops (Mount.fsInitNefs m).2).2
    m'.disk = m.disk ∧ ∃ ps, m'.sent = m.sent ++ ps ∧ ∀ p ∈ ps, p.fPacketReadOnly = true := by
  have hkeeps : Call.Keeps (Protected m.disk m.sent) (fun _ => True) (NefsCall.runAll debug ops) :=
    .all (fun op => NefsCall.keeps_run debug op.1 op.2) ops
  obtain ⟨hprotected, -⟩ := hkeeps _ (fsInitNefs_protects hmagic)
  exact ⟨hprotected.disk, hprotected.packets⟩

/-- A disk with a filesystem of four catalogs, and no EPM block in front of it. -/
def nefsOnlyDisk : Store :=
  Store.put NfsSuperBlock.codec (fun _ => 0) kNeFSRootCatalogStartAddress.toNat { NfsSuperBlock.zero with
    StartCatalog := kNeFSCatalogStartAddress
    DiskSize := 0x101000
    FreeCatalog := 4 }

set_option maxRecDepth 8000 in
/-- `CreateCatalog("/ab", 0, kNeFSCatalogKindFile)` sends three packets, and leaves the disk as it is. -/
theorem readOnly_never_written_create :
    let m : Mount := ⟨nefsOnlyDisk, { fName := "" }, []⟩
    let m' := (NefsCall.runAll true [(1, .createCatalog (some ⟨[47, 97, 98], by decide⟩) 0 kNeFSCatalogKindFile)]
      (Mount.fsInitNefs m).2).2
    m'.sent.length = 3 ∧ m'.disk = m.disk ∧ ∃ ps, m'.sent = m.sent ++ ps ∧ ∀ p ∈ ps, p.fPacketReadOnly = true :=
  ⟨rfl, readOnly_never_written true ⟨nefsOnlyDisk, { fName := "" }, []⟩ _ (by decide)⟩

end OpenNE

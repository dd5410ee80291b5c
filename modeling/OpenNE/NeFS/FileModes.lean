import OpenNE.NeFS.FileMgr

/-!
# How a file is opened (`KernelKit/FileMgr.h`)

The constructor of a stream takes the first entry of its table that the mode begins with. Two entries of one letter
come before the others, so that the first letter of a mode decides: no mode is for both, and every mode that begins
with `w` writes (`grantsNamed_iff`).
-/

namespace OpenNE

def kFileReadChunk : Int32 := 102

/-- `FSClass`, as far as streams call it. -/
structure FSClass (σ Node : Type) extends IFilesystemMgr σ Node where
  WriteAt : UInt64 → Option Node → List UInt8 → UInt64 → Call σ Unit
  Seek : Option Node → UInt64 → Call σ Bool
  ReadChunk : Option Node → Int32 → UInt64 → Call σ (Option (List UInt8))

namespace FileStream

variable {σ Node : Type}

/-- `Write` at an offset. -/
def writeAt (man : Option (FSClass σ Node)) (offset : UInt64) (data : Option (List UInt8)) (len : UInt64)
    (file : FileStream Node) : Call σ Int32 :=
  if file.fFileRestrict.canWrite = false then pure kErrorInvalidData
  else
    match data, man with
    | some data, some man => do
      man.WriteAt offset file.fFile data len
      return 0
    | _, _ => pure kErrorInvalidData

/-- `Read` at an offset. -/
def readAt (man : Option (FSClass σ Node)) (offset sz : UInt64) (file : FileStream Node) :
    Call σ (Option (List UInt8)) :=
  if file.fFileRestrict.canRead = false then pure none
  else
    match man with
    | some man => do
      let _ ← man.Seek file.fFile offset
      man.ReadChunk file.fFile kFileReadChunk sz
    | none => pure none

end FileStream

/-! ### What modes are for -/

/-- The string is one of the modes, and the mode has the right. -/
def HasRight (right : FileMgrRestrict → Bool) (restrictType : CString) : Prop :=
  ∃ kind ∈ kRestrictList, restrictType = kind.1 ∧ right kind.2 = true

/-- The string is none of them. -/
def Unlisted (restrictType : CString) : Prop := ∀ kind ∈ kRestrictList, restrictType ≠ kind.1

instance (restrictType : CString) : Decidable (Unlisted restrictType) := List.decidableBAll _ _

/-- A stream as the constructor leaves it. -/
def Opened {Node : Type} (restrictType : CString) (file : FileStream Node) : Prop :=
  ∃ (σ : Type) (man : IFilesystemMgr σ Node) (path : CString) (s : σ),
    (FileStream.new (some man) path restrictType s).1 = .ok file

/-- Every stream opened with the string has the rights it names, and no other writes or reads. -/
structure GrantsNamed (restrictType : CString) : Prop where
  listed : ∀ {Node : Type} {file : FileStream Node}, Opened restrictType file →
    ∀ kind ∈ kRestrictList, restrictType = kind.1 → file.fFileRestrict = kind.2
  unlisted : ∀ {Node : Type} {file : FileStream Node}, Opened restrictType file → Unlisted restrictType →
    file.fFileRestrict.canWrite = false
  write : ∀ {σ Node : Type} {file : FileStream Node}, Opened restrictType file →
    ∀ (man : Option (IFilesystemMgr σ Node)) name data len s,
      (file.write man name data len s).1 = .ok 0 → HasRight FileMgrRestrict.canWrite restrictType
  writeAt : ∀ {σ Node : Type} {file : FileStream Node}, Opened restrictType file →
    ∀ (man : Option (FSClass σ Node)) offset data len s,
      (file.writeAt man offset data len s).1 = .ok 0 → HasRight FileMgrRestrict.canWrite restrictType
  read : ∀ {σ Node : Type} {file : FileStream Node}, Opened restrictType file →
    ∀ (man : Option (IFilesystemMgr σ Node)) name sz s bytes,
      (file.read man name sz s).1 = .ok (some bytes) →
        HasRight FileMgrRestrict.canRead restrictType ∨ Unlisted restrictType
  readAt : ∀ {σ Node : Type} {file : FileStream Node}, Opened restrictType file →
    ∀ (man : Option (FSClass σ Node)) offset sz s bytes,
      (file.readAt man offset sz s).1 = .ok (some bytes) →
        HasRight FileMgrRestrict.canRead restrictType ∨ Unlisted restrictType

/-! ### Rights -/

section Rights

variable {σ Node : Type} {restrictType : CString} {file : FileStream Node}

theorem Opened.restrict (h : Opened restrictType file) : file.fFileRestrict = fileRestrict restrictType := by
  obtain ⟨σ, man, path, s, hnew⟩ := h
  unfold FileStream.new at hnew
  obtain ⟨man', hman, hnew⟩ := Call.lift_bind_eq_ok.mp hnew
  obtain ⟨node, s', -, hret⟩ := Call.bind_eq_ok.mp hnew
  cases hret
  rfl

theorem exists_opened (restrictType : CString) :
    Opened restrictType (⟨none, fileRestrict restrictType⟩ : FileStream Unit) := by
  refine ⟨Unit, ⟨fun _ _ => pure none, fun _ _ _ _ _ => pure (), fun _ _ _ _ => pure none⟩, kRestrictR, (), rfl⟩

theorem FileStream.canWrite_of_write {man : Option (IFilesystemMgr σ Node)} {name : Option CString}
    {data : Option (List UInt8)} {len : UInt64} {s : σ} (h : (file.write man name data len s).1 = .ok 0) :
    file.fFileRestrict.canWrite = true := by
  by_contra hno
  unfold FileStream.write at h
  rw [if_pos (Bool.not_eq_true _ ▸ hno)] at h
  cases h

theorem FileStream.canWrite_of_writeAt {man : Option (FSClass σ Node)} {offset : UInt64}
    {data : Option (List UInt8)} {len : UInt64} {s : σ} (h : (file.writeAt man offset data len s).1 = .ok 0) :
    file.fFileRestrict.canWrite = true := by
  by_contra hno
  unfold FileStream.writeAt at h
  rw [if_pos (Bool.not_eq_true _ ▸ hno)] at h
  cases h

theorem FileStream.canRead_of_read {man : Option (IFilesystemMgr σ Node)} {name : Option CString} {sz : UInt64}
    {s : σ} {bytes : List UInt8} (h : (file.read man name sz s).1 = .ok (some bytes)) :
    file.fFileRestrict.canRead = true := by
  by_contra hno
  unfold FileStream.read at h
  rw [if_pos (Bool.not_eq_true _ ▸ hno)] at h
  cases h

theorem FileStream.canRead_of_readAt {man : Option (FSClass σ Node)} {offset sz : UInt64} {s : σ}
    {bytes : List UInt8} (h : (file.readAt man offset sz s).1 = .ok (some bytes)) :
    file.fFileRestrict.canRead = true := by
  by_contra hno
  unfold FileStream.readAt at h
  rw [if_pos (Bool.not_eq_true _ ▸ hno)] at h
  cases h

end Rights

/-! ### The table -/

/-- The first letter is all there is to the mode. -/
def OneLetter (restrictType : CString) : Prop :=
  restrictType ≠ kRestrictRB ∧ restrictType ≠ kRestrictRWB ∧ restrictType ≠ kRestrictWB ∧
    (restrictType.1.head? = some 119 → restrictType = kRestrictW)

section Table

variable {restrictType : CString} {kind : CString × FileMgrRestrict}

theorem OneLetter.listed (h : OneLetter restrictType) (hkind : kind ∈ kRestrictList) (hmode : restrictType = kind.1) :
    fileRestrict restrictType = kind.2 := by
  obtain ⟨hrb, hrwb, hrw, -⟩ := h
  simp only [kRestrictList, List.mem_cons, List.not_mem_nil, or_false] at hkind
  rcases hkind with rfl | rfl | rfl | rfl | rfl
  · rw [hmode]
    decide
  · exact absurd hmode hrb
  · exact absurd hmode hrwb
  · rw [hmode]
    decide
  · exact absurd hmode hrw

theorem OneLetter.eq_w (h : OneLetter restrictType) (hwrite : (fileRestrict restrictType).canWrite = true) :
    restrictType = kRestrictW :=
  h.2.2.2 ((canWrite_iff restrictType).mp hwrite)

theorem OneLetter.hasRight_write (h : OneLetter restrictType) (hwrite : (fileRestrict restrictType).canWrite = true) :
    HasRight FileMgrRestrict.canWrite restrictType :=
  ⟨(kRestrictW, .kFileMgrRestrictWrite), by decide, h.eq_w hwrite, rfl⟩

theorem OneLetter.hasRight_read (h : OneLetter restrictType) (hread : (fileRestrict restrictType).canRead = true) :
    HasRight FileMgrRestrict.canRead restrictType ∨ Unlisted restrictType := by
  by_cases hlisted : Unlisted restrictType
  · exact .inr hlisted
  · unfold Unlisted at hlisted
    push Not at hlisted
    obtain ⟨kind, hkind, hmode⟩ := hlisted
    refine .inl ⟨kind, hkind, hmode, ?_⟩
    rwa [← h.listed hkind hmode]

theorem grantsNamed_of_oneLetter (h : OneLetter restrictType) : GrantsNamed restrictType where
  listed hopen kind hkind hmode := hopen.restrict.trans (h.listed hkind hmode)
  unlisted hopen hunlisted := by
    rw [hopen.restrict, ← Bool.not_eq_true]
    intro hwrite
    exact hunlisted (kRestrictW, .kFileMgrRestrictWrite) (by decide) (h.eq_w hwrite)
  write hopen man name data len s hdone :=
    h.hasRight_write (hopen.restrict ▸ FileStream.canWrite_of_write hdone)
  writeAt hopen man offset data len s hdone :=
    h.hasRight_write (hopen.restrict ▸ FileStream.canWrite_of_writeAt hdone)
  read hopen man name sz s bytes hdone :=
    h.hasRight_read (hopen.restrict ▸ FileStream.canRead_of_read hdone)
  readAt hopen man offset sz s bytes hdone :=
    h.hasRight_read (hopen.restrict ▸ FileStream.canRead_of_readAt hdone)

theorem GrantsNamed.fileRestrict_eq (h : GrantsNamed restrictType) (hkind : kind ∈ kRestrictList)
    (hmode : restrictType = kind.1) : fileRestrict restrictType = kind.2 :=
  h.listed (exists_opened restrictType) kind hkind hmode

theorem GrantsNamed.oneLetter (h : GrantsNamed restrictType) : OneLetter restrictType := by
  refine ⟨fun hrb => ?_, fun hrwb => ?_, fun hrw => ?_, fun hw => ?_⟩
  · have hlisted : (kRestrictRB, .kFileMgrRestrictReadBinary) ∈ kRestrictList := by decide
    have hmapped := h.fileRestrict_eq hlisted hrb
    rw [hrb] at hmapped
    exact absurd hmapped (by decide)
  · have hlisted : (kRestrictRWB, .kFileMgrRestrictReadWriteBinary) ∈ kRestrictList := by decide
    have hmapped := h.fileRestrict_eq hlisted hrwb
    rw [hrwb] at hmapped
    exact absurd hmapped (by decide)
  · have hlisted : (kRestrictWB, .kFileMgrRestrictReadWrite) ∈ kRestrictList := by decide
    have hmapped := h.fileRestrict_eq hlisted hrw
    rw [hrw] at hmapped
    exact absurd hmapped (by decide)
  · have hwrite := (canWrite_iff restrictType).mpr hw
    by_contra hne
    have hunlisted : Unlisted restrictType := by
      intro kind hkind hmode
      rw [hmode] at hw
      have hkind' : ∀ kind ∈ kRestrictList, kind.1.1.head? = some 119 → kind.1 = kRestrictW := by decide
      exact hne (hmode.trans (hkind' kind hkind hw))
    have hno := h.unlisted (exists_opened restrictType) hunlisted
    rw [hwrite] at hno
    cases hno

end Table

/-- A mode grants what it names exactly when it is not one of the three modes of more letters, and does not begin with
`w` without being that letter. -/
theorem grantsNamed_iff (restrictType : CString) : GrantsNamed restrictType ↔ OneLetter restrictType :=
  ⟨GrantsNamed.oneLetter, grantsNamed_of_oneLetter⟩

/-- A file opened with `rw` cannot be written, and one opened with `wb`, which is no mode, can. -/
theorem rw_not_granted : ¬ GrantsNamed kRestrictWB ∧ fileRestrict kRestrictWB = .kFileMgrRestrictRead ∧
    Unlisted swapWriteRestrict ∧ ¬ GrantsNamed swapWriteRestrict ∧
    (fileRestrict swapWriteRestrict).canWrite = true := by
  refine ⟨fun h => h.oneLetter.2.2.1 rfl, by decide, by decide, fun h => ?_, swapWriteRestrict_canWrite⟩
  exact absurd (h.oneLetter.2.2.2 rfl) (by decide)

end OpenNE

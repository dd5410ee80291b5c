import OpenNE.NeFS.Mounted

/-!
# Files and the swap disk (`KernelKit/FileMgr.h`, `src/FS/OpenNeFS+FileMgr.cc`, `src/System/SwapDisk.cc`)

A `FileStream` checks how it was opened and calls the file system that is mounted; `SwapDisk` opens a stream on the
page file for each block. A stream hands the size 0 on when it reads, for which NeFS has no buffer, and reports a
write as done whatever NeFS did with it (`file_round_trips_iff`).
-/

namespace OpenNE

def kErrorInvalidData : Int32 := 56

def kFileReadAll : Int32 := 101
def kFileFlagRsrc : Int32 := 104

/-- `IFilesystemMgr`, as far as streams call it. -/
structure IFilesystemMgr (σ Node : Type) where
  Open : Option CString → Option CString → Call σ (Option Node)
  Write : Option CString → Option Node → Option (List UInt8) → Int32 → UInt64 → Call σ Unit
  Read : Option CString → Option Node → Int32 → UInt64 → Call σ (Option (List UInt8))

/-! ### NeFS -/

namespace NeFileSystemMgr

/-- `flags & kFileFlagRsrc`. -/
def isRsrcFork (flags : Int32) : Bool := flags &&& kFileFlagRsrc != 0

/-- The first `size` bytes behind a pointer. -/
def bytesOf (data : List UInt8) (size : UInt64) : Exec (List UInt8) :=
  if data.length < size.toNat then .error .fault else .ok (data.take size.toNat)

/-- `Open`. -/
def openNode (fuel : Nat) (path r : Option CString) : Call Mount (Option NfsCatalogStruct) :=
  match path, r with
  | some path, some r =>
    if path.1 = [] then pure none
    else if r.1 = [] then pure none
    else Mount.getCatalog fuel (some path)
  | _, _ => pure none

/-- `Write` to the fork `name`. What `WriteCatalog` returns is dropped. -/
def write (fuel : Nat) (name : Option CString) (node : Option NfsCatalogStruct) (data : Option (List UInt8))
    (flags : Int32) (size : UInt64) : Call Mount Unit :=
  if size = 0 ∨ kNeFSForkSize < size.toNat then pure ()
  else
    match data with
    | none => pure ()
    | some data => do
      let node ← Call.lift (deref node)
      if node.Kind = kNeFSCatalogKindFile then
        let catalogName ← Call.lift node.nameString
        let content ← Call.lift (bytesOf data size)
        let _ ← Mount.writeCatalog fuel (some catalogName) (isRsrcFork flags) content name
        return ()
      else return ()

/-- `Read` of the fork `name`. -/
def read (fuel : Nat) (name : Option CString) (node : Option NfsCatalogStruct) (flags : Int32) (sz : UInt64) :
    Call Mount (Option (List UInt8)) :=
  if kNeFSForkSize < sz.toNat then pure none
  else if sz = 0 then pure none
  else do
    let node ← Call.lift (deref node)
    if node.Kind = kNeFSCatalogKindFile then Mount.readCatalog fuel (some node) (isRsrcFork flags) name
    else return none

end NeFileSystemMgr

/-- `NeFileSystemMgr`, with a step budget for each call. -/
def neFileSystemMgr (fuel : Nat) : IFilesystemMgr Mount NfsCatalogStruct where
  Open := NeFileSystemMgr.openNode fuel
  Write := NeFileSystemMgr.write fuel
  Read := NeFileSystemMgr.read fuel

/-! ### Streams -/

inductive FileMgrRestrict where
  | kFileMgrRestrictRead
  | kFileMgrRestrictReadBinary
  | kFileMgrRestrictWrite
  | kFileMgrRestrictWriteBinary
  | kFileMgrRestrictReadWrite
  | kFileMgrRestrictReadWriteBinary
  deriving DecidableEq

namespace FileMgrRestrict

/-- `Write` goes on. -/
def canWrite : FileMgrRestrict → Bool
  | kFileMgrRestrictReadWrite | kFileMgrRestrictReadWriteBinary | kFileMgrRestrictWrite
  | kFileMgrRestrictWriteBinary => true
  | _ => false

/-- `Read` goes on. -/
def canRead : FileMgrRestrict → Bool
  | kFileMgrRestrictReadWrite | kFileMgrRestrictReadWriteBinary | kFileMgrRestrictRead
  | kFileMgrRestrictReadBinary => true
  | _ => false

end FileMgrRestrict

def kRestrictR : CString := ⟨[114], by decide⟩ -- r
def kRestrictRB : CString := ⟨[114, 98], by decide⟩ -- rb
def kRestrictRWB : CString := ⟨[114, 119, 98], by decide⟩ -- rwb
def kRestrictW : CString := ⟨[119], by decide⟩ -- w
def kRestrictWB : CString := ⟨[114, 119], by decide⟩ -- rw

def kRestrictList : List (CString × FileMgrRestrict) :=
  [(kRestrictR, .kFileMgrRestrictRead), (kRestrictRB, .kFileMgrRestrictReadBinary),
    (kRestrictRWB, .kFileMgrRestrictReadWriteBinary), (kRestrictW, .kFileMgrRestrictWrite),
    (kRestrictWB, .kFileMgrRestrictReadWrite)]

/-- What the first entry of the list that `restrict_type` begins with is mapped to. -/
def fileRestrict (restrictType : CString) : FileMgrRestrict :=
  match kRestrictList.find? fun kind => rtStringCmp restrictType.1 kind.1.1 kind.1.length = 0 with
  | some kind => kind.2
  | none => .kFileMgrRestrictReadBinary

structure FileStream (Node : Type) where
  fFile : Option Node
  fFileRestrict : FileMgrRestrict

namespace FileStream

variable {σ Node : Type}

/-- The constructor; `man` is `GetMounted()`. -/
def new (man : Option (IFilesystemMgr σ Node)) (path restrictType : CString) : Call σ (FileStream Node) := do
  let man ← Call.lift (deref man)
  let file ← man.Open (some path) (some restrictType)
  return ⟨file, fileRestrict restrictType⟩

/-- `Write` to the fork `name`: the `Error()` of what it returns. -/
def write (man : Option (IFilesystemMgr σ Node)) (name : Option CString) (data : Option (List UInt8)) (len : UInt64)
    (file : FileStream Node) : Call σ Int32 :=
  if file.fFileRestrict.canWrite = false then pure kErrorInvalidData
  else
    match data, man with
    | some data, some man => do
      man.Write name file.fFile (some data) 0 len
      return 0
    | _, _ => pure kErrorInvalidData

/-- `Read` of the fork `name`. `sz` is not handed on. -/
def read (man : Option (IFilesystemMgr σ Node)) (name : Option CString) (_sz : UInt64) (file : FileStream Node) :
    Call σ (Option (List UInt8)) :=
  if file.fFileRestrict.canRead = false then pure none
  else
    match man with
    | some man => man.Read name file.fFile kFileReadAll 0
    | none => pure none

end FileStream

/-! ### The swap disk -/

/-- `SWAP_DISK_HEADER`, with the blob behind it. -/
structure SwapDiskHeader where
  fMagic : UInt32
  fHeaderSz : UInt64
  fTeamID : UInt64
  fProcessID : UInt64
  fVirtualAddress : UInt64
  fBlobSz : UInt64
  fBlob : List UInt8

/-- The packed image of the fields before the blob. -/
def SwapDiskHeader.codec : Codec (UInt32 × UInt64 × UInt64 × UInt64 × UInt64 × UInt64) :=
  Codec.u32.pair <| Codec.u64.pair <| Codec.u64.pair <| Codec.u64.pair <| Codec.u64.pair Codec.u64

/-- What stands from the pointer on. -/
def SwapDiskHeader.image (h : SwapDiskHeader) : List UInt8 :=
  codec.enc (h.fMagic, h.fHeaderSz, h.fTeamID, h.fProcessID, h.fVirtualAddress, h.fBlobSz) ++ h.fBlob

/-- `sizeof(SWAP_DISK_HEADER)`. -/
def swapDiskHeaderSize : Nat := SwapDiskHeader.codec.size

def kSwapBlockMaxSize : UInt64 := 16 * 1024 * 1024

/-- `/boot/pagefile.sys`. -/
def kSwapPageFile : CString :=
  ⟨[47, 98, 111, 111, 116, 47, 112, 97, 103, 101, 102, 105, 108, 101, 46, 115, 121, 115], by decide⟩

def swapWriteRestrict : CString := ⟨[119, 98], by decide⟩ -- wb
def swapReadRestrict : CString := ⟨[114, 98], by decide⟩ -- rb

namespace SwapDisk

variable {σ Node : Type}

/-- `Write`. -/
def write (man : Option (IFilesystemMgr σ Node)) (forkName : Option CString) (forkNameLen : UInt64)
    (data : Option SwapDiskHeader) (dataLen : UInt64) : Call σ Bool :=
  if forkName = none ∨ forkNameLen = 0 then pure false
  else if kSwapBlockMaxSize < dataLen then pure false
  else
    match data with
    | none => pure false
    | some data => do
      let file ← FileStream.new man kSwapPageFile swapWriteRestrict
      let ret ← file.write man forkName (some data.image) (UInt64.ofNat swapDiskHeaderSize + dataLen)
      if ret ≠ 0 then return false else return true

/-- `Read`. -/
def read (man : Option (IFilesystemMgr σ Node)) (forkName : Option CString) (forkNameLen dataLen : UInt64) :
    Call σ (Option (List UInt8)) :=
  if forkName = none ∨ forkNameLen = 0 then pure none
  else if kSwapBlockMaxSize < dataLen then pure none
  else do
    let file ← FileStream.new man kSwapPageFile swapReadRestrict
    file.read man forkName (UInt64.ofNat swapDiskHeaderSize + dataLen)

/-- The arguments `Write` goes on with. -/
def Accepts (forkName : Option CString) (forkNameLen : UInt64) (data : Option SwapDiskHeader) (dataLen : UInt64) :
    Prop :=
  forkName ≠ none ∧ forkNameLen ≠ 0 ∧ data ≠ none ∧ dataLen ≤ kSwapBlockMaxSize

end SwapDisk

/-! ### How a stream is opened -/

theorem head_of_rtStringCmp {src cmp : List UInt8} {c : UInt8} (hc : c ≠ 0)
    (h : rtStringCmp src (c :: cmp) (cmp.length + 1) = 0) : src.head? = some c := by
  have hfirst : src.getD 0 0 = c := rtStringCmp_eq_zero.mp h 0 (Nat.succ_pos _)
  rcases src with _ | ⟨b, src⟩
  · exact absurd hfirst.symm hc
  · exact congrArg some hfirst

theorem rtStringCmp_head {src : List UInt8} {c : UInt8} (h : src.head? = some c) : rtStringCmp src [c] 1 = 0 := by
  rw [rtStringCmp_eq_zero]
  intro i hi
  obtain rfl : i = 0 := Nat.lt_one_iff.mp hi
  rcases src with _ | ⟨b, src⟩
  · cases h
  · exact Option.some.inj h

theorem fileRestrict_eq (restrictType : CString) :
    fileRestrict restrictType =
      if restrictType.1.head? = some 114 then .kFileMgrRestrictRead
      else if restrictType.1.head? = some 119 then .kFileMgrRestrictWrite
      else .kFileMgrRestrictReadBinary := by
  unfold fileRestrict kRestrictList
  by_cases hr : restrictType.1.head? = some 114
  · have hfirst : rtStringCmp restrictType.1 kRestrictR.1 kRestrictR.length = 0 := rtStringCmp_head hr
    rw [if_pos hr, List.find?_cons_of_pos (by simpa using hfirst)]
  -- all entries but one begin with `r`
  have hother : ∀ cmp, ¬ rtStringCmp restrictType.1 (114 :: cmp) (cmp.length + 1) = 0 := by
    intro cmp hmatch
    exact hr (head_of_rtStringCmp (by decide) hmatch)
  have hR : ¬ rtStringCmp restrictType.1 kRestrictR.1 kRestrictR.length = 0 := hother []
  have hRB : ¬ rtStringCmp restrictType.1 kRestrictRB.1 kRestrictRB.length = 0 := hother [98]
  have hRWB : ¬ rtStringCmp restrictType.1 kRestrictRWB.1 kRestrictRWB.length = 0 := hother [119, 98]
  have hWB : ¬ rtStringCmp restrictType.1 kRestrictWB.1 kRestrictWB.length = 0 := hother [119]
  rw [if_neg hr, List.find?_cons_of_neg (by simpa using hR), List.find?_cons_of_neg (by simpa using hRB),
    List.find?_cons_of_neg (by simpa using hRWB)]
  by_cases hw : restrictType.1.head? = some 119
  · have hfirst : rtStringCmp restrictType.1 kRestrictW.1 kRestrictW.length = 0 := rtStringCmp_head hw
    rw [if_pos hw, List.find?_cons_of_pos (by simpa using hfirst)]
  · have hW : ¬ rtStringCmp restrictType.1 kRestrictW.1 kRestrictW.length = 0 := by
      intro hmatch
      exact hw (head_of_rtStringCmp (by decide) hmatch)
    rw [if_neg hw, List.find?_cons_of_neg (by simpa using hW), List.find?_cons_of_neg (by simpa using hWB)]
    rfl

theorem canWrite_iff (restrictType : CString) :
    (fileRestrict restrictType).canWrite = true ↔ restrictType.1.head? = some 119 := by
  rw [fileRestrict_eq]
  by_cases hr : restrictType.1.head? = some 114
  · rw [if_pos hr, hr]
    decide
  rw [if_neg hr]
  by_cases hw : restrictType.1.head? = some 119
  · rw [if_pos hw]
    exact iff_of_true rfl hw
  · rw [if_neg hw]
    exact iff_of_false (by decide) hw

theorem swapWriteRestrict_canWrite : (fileRestrict swapWriteRestrict).canWrite = true :=
  (canWrite_iff _).mpr rfl

/-! ### What a read returns -/

namespace NeFileSystemMgr

theorem read_zero (fuel : Nat) (name : Option CString) (node : Option NfsCatalogStruct) (flags : Int32) :
    read fuel name node flags 0 = pure none := by
  unfold read
  rw [if_neg (by decide), if_pos rfl]

end NeFileSystemMgr

section Streams

variable {fuel : Nat} {name : Option CString} {len : UInt64} {file : FileStream NfsCatalogStruct}

theorem FileStream.read_none : file.read (some (neFileSystemMgr fuel)) name len = pure none := by
  unfold FileStream.read
  by_cases hread : file.fFileRestrict.canRead = false
  · rw [if_pos hread]
  · rw [if_neg hread]
    exact NeFileSystemMgr.read_zero fuel name file.fFile kFileReadAll

theorem SwapDisk.read_none {forkNameLen dataLen : UInt64} {m : Mount} {blob : List UInt8} :
    (SwapDisk.read (some (neFileSystemMgr fuel)) name forkNameLen dataLen m).1 ≠ .ok (some blob) := by
  unfold SwapDisk.read
  by_cases hname : name = none ∨ forkNameLen = 0
  · rw [if_pos hname]
    intro h
    cases h
  rw [if_neg hname]
  by_cases hlen : kSwapBlockMaxSize < dataLen
  · rw [if_pos hlen]
    intro h
    cases h
  rw [if_neg hlen]
  intro hret
  obtain ⟨file, m', -, hret⟩ := Call.bind_eq_ok.mp hret
  rw [FileStream.read_none] at hret
  cases hret

end Streams

/-! ### What a write reports -/

section Reports

variable {σ Node : Type} {man : IFilesystemMgr σ Node} {name : Option CString} {len : UInt64}
  {file : FileStream Node} {s : σ}

theorem FileStream.write_refused {data : Option (List UInt8)}
    (h : file.fFileRestrict.canWrite = false ∨ data = none) :
    file.write (some man) name data len = pure kErrorInvalidData := by
  unfold FileStream.write
  by_cases hwrite : file.fFileRestrict.canWrite = false
  · rw [if_pos hwrite]
  · rw [if_neg hwrite, h.resolve_left hwrite]

theorem FileStream.write_open (hwrite : file.fFileRestrict.canWrite = true) (data : List UInt8) :
    file.write (some man) name (some data) len =
      man.Write name file.fFile (some data) 0 len >>= fun _ => pure 0 := by
  unfold FileStream.write
  rw [if_neg (by rw [hwrite]; decide)]

theorem FileStream.write_reported (hwrite : file.fFileRestrict.canWrite = true) {data : List UInt8} {ret : Int32}
    (h : (file.write (some man) name (some data) len s).1 = .ok ret) : ret = 0 := by
  rw [FileStream.write_open hwrite] at h
  obtain ⟨_, s', -, hret⟩ := Call.bind_eq_ok.mp h
  cases hret
  rfl

namespace SwapDisk

variable {forkNameLen dataLen : UInt64} {data : Option SwapDiskHeader}

theorem write_accepted {header : SwapDiskHeader} (h : Accepts name forkNameLen (some header) dataLen) :
    write (some man) name forkNameLen (some header) dataLen =
      FileStream.new (some man) kSwapPageFile swapWriteRestrict >>= fun file =>
        file.write (some man) name (some header.image) (UInt64.ofNat swapDiskHeaderSize + dataLen) >>= fun ret =>
          if ret ≠ 0 then pure false else pure true := by
  obtain ⟨hname, hlen, -, hdata⟩ := h
  unfold write
  rw [if_neg (by simp [hname, hlen]), if_neg (UInt64.not_lt.mpr hdata)]

theorem write_refused (h : ¬ Accepts name forkNameLen data dataLen) :
    write (some man) name forkNameLen data dataLen = pure false := by
  unfold write
  by_cases hname : name = none ∨ forkNameLen = 0
  · rw [if_pos hname]
  rw [if_neg hname]
  by_cases hlen : kSwapBlockMaxSize < dataLen
  · rw [if_pos hlen]
  rw [if_neg hlen]
  rcases data with _ | header
  · rfl
  · rw [not_or] at hname
    exact absurd ⟨hname.1, hname.2, Option.some_ne_none header, UInt64.not_lt.mp hlen⟩ h

theorem new_restrict {restrictType path : CString} {s' : σ}
    (h : FileStream.new (some man) path restrictType s = (.ok file, s')) :
    file.fFileRestrict = fileRestrict restrictType := by
  obtain ⟨_, -, h⟩ := Call.lift_bind_eq_ok.mp (congrArg Prod.fst h)
  obtain ⟨_, _, -, h⟩ := Call.bind_eq_ok.mp h
  cases h
  rfl

theorem write_reported (h : Accepts name forkNameLen data dataLen) {stored : Bool}
    (hret : (write (some man) name forkNameLen data dataLen s).1 = .ok stored) : stored = true := by
  obtain ⟨header, rfl⟩ := Option.ne_none_iff_exists'.mp h.2.2.1
  rw [write_accepted h] at hret
  obtain ⟨file, s', hnew, hret⟩ := Call.bind_eq_ok.mp hret
  obtain ⟨ret, s'', hwrite, hret⟩ := Call.bind_eq_ok.mp hret
  have hopen : file.fFileRestrict.canWrite = true := by
    rw [new_restrict hnew, swapWriteRestrict_canWrite]
  rw [FileStream.write_reported hopen (congrArg Prod.fst hwrite)] at hret
  cases hret
  rfl

end SwapDisk

end Reports

/-! ### The round trip -/

/-- The contract of two streams on one file: the write returns, and when it reports no error the read returns a buffer
that begins with the bytes written. -/
def FileStream.RoundTrips (out inp : FileStream NfsCatalogStruct) (name : Option CString)
    (data : Option (List UInt8)) (len : UInt64) (m : Mount) : Prop :=
  ∃ fuel ret m', out.write (some (neFileSystemMgr fuel)) name data len m = (.ok ret, m') ∧
    (ret = 0 → ∃ fuel bytes buf, data = some bytes ∧
      (inp.read (some (neFileSystemMgr fuel)) name len m').1 = .ok (some buf) ∧
      buf.take len.toNat = bytes.take len.toNat)

/-- The contract of the swap disk. -/
def SwapDisk.RoundTrips (forkName : Option CString) (forkNameLen : UInt64) (data : Option SwapDiskHeader)
    (dataLen : UInt64) (m : Mount) : Prop :=
  ∃ fuel stored m', SwapDisk.write (some (neFileSystemMgr fuel)) forkName forkNameLen data dataLen m =
      (.ok stored, m') ∧
    (stored = true → ∃ fuel header blob, data = some header ∧
      (SwapDisk.read (some (neFileSystemMgr fuel)) forkName forkNameLen dataLen m').1 = .ok (some blob) ∧
      blob.take (swapDiskHeaderSize + dataLen.toNat) = header.image.take (swapDiskHeaderSize + dataLen.toNat))

theorem FileStream.roundTrips_iff {out inp : FileStream NfsCatalogStruct} {name : Option CString}
    {data : Option (List UInt8)} {len : UInt64} {m : Mount} :
    FileStream.RoundTrips out inp name data len m ↔ out.fFileRestrict.canWrite = false ∨ data = none := by
  constructor
  · rintro ⟨fuel, ret, m', hwrite, hread⟩
    by_contra hopen
    rw [not_or, Bool.not_eq_false] at hopen
    obtain ⟨bytes, rfl⟩ := Option.ne_none_iff_exists'.mp hopen.2
    have hret := FileStream.write_reported hopen.1 (congrArg Prod.fst hwrite)
    obtain ⟨fuel, bytes, buf, -, hbuf, -⟩ := hread hret
    rw [FileStream.read_none] at hbuf
    cases hbuf
  · intro hrefused
    refine ⟨0, kErrorInvalidData, m, ?_, ?_⟩
    · rw [FileStream.write_refused hrefused]
      rfl
    · intro hret
      exact absurd hret (by decide)

theorem SwapDisk.roundTrips_iff {forkName : Option CString} {forkNameLen : UInt64} {data : Option SwapDiskHeader}
    {dataLen : UInt64} {m : Mount} :
    SwapDisk.RoundTrips forkName forkNameLen data dataLen m ↔
      ¬ SwapDisk.Accepts forkName forkNameLen data dataLen := by
  constructor
  · rintro ⟨fuel, stored, m', hwrite, hread⟩ haccepts
    have hstored := SwapDisk.write_reported haccepts (congrArg Prod.fst hwrite)
    obtain ⟨fuel, header, blob, -, hblob, -⟩ := hread hstored
    exact SwapDisk.read_none hblob
  · intro hrefused
    refine ⟨0, false, m, ?_, ?_⟩
    · rw [SwapDisk.write_refused hrefused]
      rfl
    · intro hstored
      cases hstored

/-- The round trip fails for every write that is not refused before it reaches the file system, on whatever drive is
mounted: an accepted block is reported as stored, and no later read returns a buffer. -/
theorem file_round_trips_iff (m : Mount) :
    (∀ (outFile inpFile : Option NfsCatalogStruct) (outRestrict inpRestrict : CString) (name : Option CString)
        (data : Option (List UInt8)) (len : UInt64),
      FileStream.RoundTrips ⟨outFile, fileRestrict outRestrict⟩ ⟨inpFile, fileRestrict inpRestrict⟩ name data len m ↔
        outRestrict.1.head? ≠ some 119 ∨ data = none) ∧
    (∀ forkName forkNameLen data dataLen, SwapDisk.RoundTrips forkName forkNameLen data dataLen m ↔
      ¬ SwapDisk.Accepts forkName forkNameLen data dataLen) ∧
    ∀ fuel forkName forkNameLen data dataLen, SwapDisk.Accepts forkName forkNameLen data dataLen →
      (∀ stored, (SwapDisk.write (some (neFileSystemMgr fuel)) forkName forkNameLen data dataLen m).1 = .ok stored →
        stored = true) ∧
      ∀ later blob,
        (SwapDisk.read (some (neFileSystemMgr fuel)) forkName forkNameLen dataLen later).1 ≠ .ok (some blob) := by
  refine ⟨?_, ?_, ?_⟩
  · intro outFile inpFile outRestrict inpRestrict name data len
    rw [FileStream.roundTrips_iff, ne_eq, ← canWrite_iff, Bool.not_eq_true]
  · intro forkName forkNameLen data dataLen
    exact SwapDisk.roundTrips_iff
  · intro fuel forkName forkNameLen data dataLen haccepts
    exact ⟨fun stored => SwapDisk.write_reported haccepts, fun later blob => SwapDisk.read_none⟩

/-! ### What becomes of an accepted block -/

section Block

variable {fuel : Nat} {d : Drive} {forkName : Option CString} {forkNameLen dataLen : UInt64} {header : SwapDiskHeader}

theorem FileStream.reads_new {path restrictType : CString} (hpath : path.1 ≠ []) (hrestrict : restrictType.1 ≠ []) :
    Reads d (FileStream.new (some (neFileSystemMgr fuel)) path restrictType)
      ((getCatalog fuel d (some path)).map fun file => ⟨file, fileRestrict restrictType⟩) := by
  have hopen : NeFileSystemMgr.openNode fuel (some path) (some restrictType) = Mount.getCatalog fuel (some path) := by
    unfold NeFileSystemMgr.openNode
    dsimp only
    rw [if_neg hpath, if_neg hrestrict]
  have hman : Reads d (Call.lift (deref (some (neFileSystemMgr fuel)))) (.ok (neFileSystemMgr fuel)) := .lift _
  apply Reads.ok_bind hman
  apply Reads.map
  show Reads d (NeFileSystemMgr.openNode fuel (some path) (some restrictType)) _
  rw [hopen]
  exact Mount.reads_getCatalog (some path)

theorem FileStream.new_of_getCatalog {m : Mount} {path restrictType : CString} {file : Option NfsCatalogStruct}
    (hpath : path.1 ≠ []) (hrestrict : restrictType.1 ≠ []) (hget : getCatalog fuel d (some path) = .ok file)
    (hm : m.drive = d) :
    ∃ m', FileStream.new (some (neFileSystemMgr fuel)) path restrictType m =
      (.ok ⟨file, fileRestrict restrictType⟩, m') ∧ m'.drive = d := by
  have hreads : Reads d (FileStream.new (some (neFileSystemMgr fuel)) path restrictType)
      ((getCatalog fuel d (some path)).map fun file => ⟨file, fileRestrict restrictType⟩) :=
    FileStream.reads_new hpath hrestrict
  rw [hget] at hreads
  exact hreads.ok hm

theorem swapSize_toNat (h : dataLen ≤ kSwapBlockMaxSize) :
    (UInt64.ofNat swapDiskHeaderSize + dataLen).toNat = swapDiskHeaderSize + dataLen.toNat := by
  have hsize : (UInt64.ofNat swapDiskHeaderSize).toNat = swapDiskHeaderSize := rfl
  have hmax : kSwapBlockMaxSize.toNat = 16777216 := rfl
  have hheader : swapDiskHeaderSize = 44 := rfl
  rw [UInt64.le_iff_toNat_le] at h
  rw [UInt64.toNat_add, hsize]
  omega

namespace SwapDisk

theorem write_large (haccepts : Accepts forkName forkNameLen (some header) dataLen)
    (hlarge : kNeFSForkSize < swapDiskHeaderSize + dataLen.toNat) :
    Reads d (write (some (neFileSystemMgr fuel)) forkName forkNameLen (some header) dataLen)
      (getCatalog fuel d (some kSwapPageFile) >>= fun _ => .ok true) := by
  have hdropped : ∀ node, NeFileSystemMgr.write fuel forkName node (some header.image) 0
      (UInt64.ofNat swapDiskHeaderSize + dataLen) = pure () := by
    intro node
    unfold NeFileSystemMgr.write
    rw [if_pos (.inr (by rwa [swapSize_toNat haccepts.2.2.2]))]
  rw [write_accepted haccepts]
  apply Reads.map_bind (FileStream.reads_new (by decide) (by decide))
  intro node
  rw [FileStream.write_open swapWriteRestrict_canWrite]
  show Reads d ((NeFileSystemMgr.write fuel forkName node (some header.image) 0
    (UInt64.ofNat swapDiskHeaderSize + dataLen) >>= fun _ => pure 0) >>= _) _
  rw [hdropped]
  exact .pure true

theorem write_small (haccepts : Accepts forkName forkNameLen (some header) dataLen)
    (hsmall : swapDiskHeaderSize + dataLen.toNat ≤ kNeFSForkSize) (hblob : dataLen.toNat ≤ header.fBlob.length)
    {catalog : NfsCatalogStruct} (hget : getCatalog fuel d (some kSwapPageFile) = .ok (some catalog))
    (hkind : catalog.Kind = kNeFSCatalogKindFile) {catalogName : CString}
    (hname : catalog.nameString = .ok catalogName) :
    Writes d (write (some (neFileSystemMgr fuel)) forkName forkNameLen (some header) dataLen)
      ((writeCatalog fuel d (some catalogName) false
        (header.image.take (swapDiskHeaderSize + dataLen.toNat)) forkName).map fun r => (r.1, true)) := by
  have hsize := swapSize_toNat haccepts.2.2.2
  have hnonempty : UInt64.ofNat swapDiskHeaderSize + dataLen ≠ 0 := by
    intro hzero
    rw [hzero] at hsize
    have hheader : swapDiskHeaderSize = 44 := rfl
    have hnat : (0 : UInt64).toNat = 0 := rfl
    omega
  have himage : header.image.length = swapDiskHeaderSize + header.fBlob.length := by
    unfold SwapDiskHeader.image
    rw [List.length_append, SwapDiskHeader.codec.enc_length]
    rfl
  have hcontent : NeFileSystemMgr.bytesOf header.image (UInt64.ofNat swapDiskHeaderSize + dataLen) =
      .ok (header.image.take (swapDiskHeaderSize + dataLen.toNat)) := by
    unfold NeFileSystemMgr.bytesOf
    rw [hsize, if_neg (by omega)]
  have hopen : Reads d (FileStream.new (some (neFileSystemMgr fuel)) kSwapPageFile swapWriteRestrict)
      ((getCatalog fuel d (some kSwapPageFile)).map fun file => ⟨file, fileRestrict swapWriteRestrict⟩) :=
    FileStream.reads_new (by decide) (by decide)
  rw [hget] at hopen
  have hstore : Writes d (NeFileSystemMgr.write fuel forkName (some catalog) (some header.image) 0
      (UInt64.ofNat swapDiskHeaderSize + dataLen))
      ((writeCatalog fuel d (some catalogName) false
        (header.image.take (swapDiskHeaderSize + dataLen.toNat)) forkName).map fun r => (r.1, ())) := by
    unfold NeFileSystemMgr.write
    rw [if_neg (not_or.mpr ⟨hnonempty, by omega⟩)]
    apply Reads.ok_bind (Reads.lift_ok rfl)
    rw [if_pos hkind]
    apply Reads.ok_bind (Reads.lift_ok hname)
    apply Reads.ok_bind (Reads.lift_ok hcontent)
    exact (Mount.writes_writeCatalog (some catalogName) false _ forkName).map
  have hreport : (fun ret : Int32 => if ret ≠ 0 then (pure false : Call Mount Bool) else pure true) =
      fun ret => pure (decide (ret = 0)) := by
    funext ret
    by_cases hzero : ret = 0
    · rw [if_neg (not_not_intro hzero), decide_eq_true hzero]
    · rw [if_pos hzero, decide_eq_false hzero]
  have hmaps : ∀ x : Exec (Drive × Bool), x.map (fun r => (r.1, true)) =
      ((x.map fun r => (r.1, ())).map fun r => (r.1, (0 : Int32))).map fun r => (r.1, decide (r.2 = 0)) := by
    intro x
    rcases x with e | r
    all_goals rfl
  rw [write_accepted haccepts, hmaps]
  apply Reads.ok_bind hopen
  rw [FileStream.write_open swapWriteRestrict_canWrite, hreport]
  exact hstore.map.map

theorem read_of_getCatalog {m : Mount} {file : Option NfsCatalogStruct}
    (hget : getCatalog fuel d (some kSwapPageFile) = .ok file) (hm : m.drive = d) :
    (read (some (neFileSystemMgr fuel)) forkName forkNameLen dataLen m).1 = .ok none := by
  have hpath : kSwapPageFile.1 ≠ [] := by decide
  have hrestrict : swapReadRestrict.1 ≠ [] := by decide
  unfold read
  by_cases hname : forkName = none ∨ forkNameLen = 0
  · rw [if_pos hname]
    rfl
  rw [if_neg hname]
  by_cases hlen : kSwapBlockMaxSize < dataLen
  · rw [if_pos hlen]
    rfl
  obtain ⟨m', hopen, -⟩ := FileStream.new_of_getCatalog hpath hrestrict hget hm
  rw [if_neg hlen, Call.bind_of_ok hopen, FileStream.read_none]
  rfl

end SwapDisk

end Block

/-! ### A page that is lost -/

theorem getCatalog_first {d : Drive} {catalog : NfsCatalogStruct} {name : CString}
    (hfirst : d.catalogAt kNeFSCatalogStartAddress = catalog) (hname : catalog.nameString = .ok name)
    (hne : name.1 ≠ []) (hcreated : catalog.hasCreated = true) :
    getCatalog 1 d (some name) = .ok (some catalog) := by
  have hround : findRound d name true d.superBlock kNeFSCatalogStartAddress =
      .ok (.inr (some (catalog, kNeFSCatalogStartAddress))) := by
    unfold findRound
    rw [hfirst]
    dsimp only
    rw [hname, Exec.ok_bind, if_pos ⟨rfl, Bool.and_false _, hcreated⟩]
  unfold getCatalog findCatalog searchCatalogList
  dsimp only
  rw [if_neg hne, loop_succ_leave hround]
  rfl

/-- The superblock of a drive with one catalog. -/
def pageFilePart : NfsSuperBlock := { NfsSuperBlock.zero with
  StartCatalog := kNeFSCatalogStartAddress
  DiskSize := 0x101000
  CatalogCount := 1
  FreeCatalog := 3 }

/-- The page file as `CreateCatalog` leaves it in the first slot. -/
def pageFileCatalog : NfsCatalogStruct :=
  (childCatalog kSwapPageFile 0 kNeFSCatalogKindFile kNeFSCatalogStartAddress).placedAt pageFilePart
    kNeFSCatalogStartAddress

def pageFileMount : Mount where
  disk := Store.put NfsCatalogStruct.codec (Drive.blank pageFilePart).disk kNeFSCatalogStartAddress.toNat
    pageFileCatalog
  mA := { fName := "/media/sda/" }
  sent := []

theorem getCatalog_pageFile : getCatalog 1 pageFileMount.drive (some kSwapPageFile) = .ok (some pageFileCatalog) := by
  have hname : pageFileCatalog.nameString = .ok kSwapPageFile :=
    NfsCatalogStruct.nameString_field (by decide) rfl
  exact getCatalog_first Store.get_put_same hname (by decide) (by decide)

/-- The fork `p`. -/
def pageForkName : CString := ⟨[112], by decide⟩

/-- A page of memory as a block of the swap disk. -/
def pageBlock : SwapDiskHeader := ⟨0, 44, 1, 1, 0x1000, 4096, List.replicate 4096 7⟩

/-- The page is reported as stored, nothing is written, and it is not read back. -/
theorem page_reported_and_lost :
    SwapDisk.Accepts (some pageForkName) 1 (some pageBlock) 4096 ∧
      ¬ SwapDisk.RoundTrips (some pageForkName) 1 (some pageBlock) 4096 pageFileMount ∧
      ∃ m', SwapDisk.write (some (neFileSystemMgr 1)) (some pageForkName) 1 (some pageBlock) 4096 pageFileMount =
          (.ok true, m') ∧ m'.drive = pageFileMount.drive ∧
        (SwapDisk.read (some (neFileSystemMgr 1)) (some pageForkName) 1 4096 m').1 = .ok none := by
  have haccepts : SwapDisk.Accepts (some pageForkName) 1 (some pageBlock) 4096 :=
    ⟨Option.some_ne_none _, by decide, Option.some_ne_none _, by decide⟩
  refine ⟨haccepts, fun h => SwapDisk.roundTrips_iff.mp h haccepts, ?_⟩
  have hwrite : Reads pageFileMount.drive
      (SwapDisk.write (some (neFileSystemMgr 1)) (some pageForkName) 1 (some pageBlock) 4096)
      (getCatalog 1 pageFileMount.drive (some kSwapPageFile) >>= fun _ => .ok true) :=
    SwapDisk.write_large haccepts (by decide)
  rw [getCatalog_pageFile] at hwrite
  obtain ⟨m', hend, hdrive⟩ := hwrite.ok rfl
  exact ⟨m', hend, hdrive, SwapDisk.read_of_getCatalog getCatalog_pageFile hdrive⟩

end OpenNE

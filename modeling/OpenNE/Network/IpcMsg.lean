import OpenNE.Base.Codec

/-!
# Messages between processes (`NetworkKit/IPC.h`, `src/Network/IPCMsg.cc`)

`ipc_construct_packet` fills in the header of a message and `ipc_sanitize_packet` tests one. Two things keep
them apart. The size the constructor stores is that of the whole record, which is above the limit the other
call has for it (`constructed_oversized`). And the byte order is found by comparing the first byte of the
message with itself, so that it is always the same one (`rtlEndian_self`) and the tests for the others are
dead.
-/

namespace OpenNE

def kErrorIPC : Int32 := 59

def kIPCHeaderMagic : UInt32 := 0x4950434

def kIPCLittleEndian : UInt8 := 0
def kIPCBigEndian : UInt8 := 1
def kIPCMixedEndian : UInt8 := 2

def kIPCMsgSize : Nat := 6094

/-- `Endian` (`NewKit/Defines.h`). -/
inductive Endian where
  | kEndianInvalid | kEndianBig | kEndianLittle | kEndianMixed | kEndianCount
  deriving DecidableEq

/-- `static_cast<UInt8>(endian)`. -/
def Endian.toUInt8 : Endian → UInt8
  | .kEndianInvalid => 0
  | .kEndianBig => 1
  | .kEndianLittle => 2
  | .kEndianMixed => 3
  | .kEndianCount => 4

/-- `RTL_ENDIAN`, of the byte at the address. -/
def rtlEndian (first value : UInt8) : Endian :=
  if first = value then .kEndianBig else .kEndianLittle

/-! ### Messages -/

/-- `IPC_ADDR`. -/
structure IPCAddr where
  UserProcessID : UInt64
  UserProcessTeam : UInt64
  deriving DecidableEq

def IPCAddr.codec : Codec IPCAddr :=
  (Codec.u64.pair Codec.u64).map (fun ⟨id, team⟩ => ⟨id, team⟩) (fun a => (a.UserProcessID, a.UserProcessTeam))
    (fun _ => rfl) (fun _ => rfl)

/-- `IPC_MSG`. -/
structure IPCMsg where
  IpcHeaderMagic : UInt32
  IpcEndianess : UInt8
  IpcPacketSize : UInt64
  IpcFrom : IPCAddr
  IpcTo : IPCAddr
  IpcCRC32 : UInt32
  IpcMsg : UInt32
  IpcMsgSz : UInt32
  IpcData : Bytes kIPCMsgSize

namespace IPCMsg

/-- The packed image. -/
def codec : Codec IPCMsg :=
  (Codec.u32.pair <| Codec.u8.pair <| Codec.u64.pair <| IPCAddr.codec.pair <| IPCAddr.codec.pair <|
      Codec.u32.pair <| Codec.u32.pair <| Codec.u32.pair (Codec.bytes kIPCMsgSize)).map
    (fun ⟨magic, endian, size, src, dst, crc, msg, msgSz, data⟩ =>
      ⟨magic, endian, size, src, dst, crc, msg, msgSz, data⟩)
    (fun m => (m.IpcHeaderMagic, m.IpcEndianess, m.IpcPacketSize, m.IpcFrom, m.IpcTo, m.IpcCRC32, m.IpcMsg,
      m.IpcMsgSz, m.IpcData))
    (fun _ => rfl) (fun _ => rfl)

/-- `IPC_MSG()`. -/
def zero : IPCMsg := ⟨0, 0, 0, ⟨0, 0⟩, ⟨0, 0⟩, 0, 0, 0, Bytes.zeros kIPCMsgSize⟩

/-- `((Char*)pckt)[0]`. -/
def firstByte (m : IPCMsg) : UInt8 := (codec.enc m).headD 0

end IPCMsg

/-- `sizeof(IPC_MSG)`. -/
def ipcMsgSizeof : Nat := IPCMsg.codec.size

/-! ### The two calls -/

/-- The tags the sanitizer turns away in a message of the byte order it found. -/
def wrongTag (endian : Endian) (tag : UInt8) : Bool :=
  match endian with
  | .kEndianBig => tag = kIPCLittleEndian
  | .kEndianLittle => tag = kIPCBigEndian
  | .kEndianMixed => tag = kIPCMixedEndian
  | _ => true

/-- `ipc_int_sanitize_packet`, with the local code of the current process. -/
def ipcIntSanitizePacket (pckt : IPCMsg) (localCode : Int32) : Bool × Int32 :=
  let endian := rtlEndian pckt.firstByte pckt.firstByte
  if wrongTag endian pckt.IpcEndianess then (false, kErrorIPC)
  else if pckt.IpcFrom = pckt.IpcTo ∨ pckt.IpcPacketSize.toNat > kIPCMsgSize then (false, kErrorIPC)
  else (pckt.IpcPacketSize.toNat > 1 ∧ pckt.IpcHeaderMagic = kIPCHeaderMagic, localCode)

/-- `ipc_sanitize_packet`; `none` is the null pointer. -/
def ipcSanitizePacket (pckt : Option IPCMsg) (localCode : Int32) : Bool × Int32 :=
  match pckt with
  | none => (false, localCode)
  | some pckt => ipcIntSanitizePacket pckt localCode

/-- What `ipc_construct_packet` assigns. -/
def IPCMsg.constructed (pckt : IPCMsg) : IPCMsg :=
  let endian := rtlEndian pckt.firstByte pckt.firstByte
  { pckt with
    IpcHeaderMagic := kIPCHeaderMagic
    IpcEndianess := endian.toUInt8
    IpcPacketSize := UInt64.ofNat ipcMsgSizeof
    IpcTo := ⟨0, 0⟩
    IpcFrom := ⟨0, 0⟩ }

/-- `ipc_construct_packet`: what it returns and leaves at `pckt_in`. `allocated` says whether `new` gave a
message, where one is asked for. -/
def ipcConstructPacket (allocated : Bool) (pcktIn : Option (Option IPCMsg)) : Bool × Option (Option IPCMsg) :=
  match pcktIn with
  | none => (false, none)
  | some pckt =>
    let pckt := match pckt with
      | none => if allocated then some IPCMsg.zero else none
      | some pckt => some pckt
    match pckt with
    | none => (false, some none)
    | some pckt => (true, some (some pckt.constructed))

/-! ### What they make of a message -/

theorem rtlEndian_self (v : UInt8) : rtlEndian v v = .kEndianBig := if_pos rfl

theorem ipcMsgSizeof_eq : ipcMsgSizeof = 6151 := rfl

theorem ipcIntSanitizePacket_eq (m : IPCMsg) (localCode : Int32) :
    ipcIntSanitizePacket m localCode =
      if m.IpcEndianess = kIPCLittleEndian ∨ m.IpcFrom = m.IpcTo ∨ kIPCMsgSize < m.IpcPacketSize.toNat then
        (false, kErrorIPC)
      else (1 < m.IpcPacketSize.toNat ∧ m.IpcHeaderMagic = kIPCHeaderMagic, localCode) := by
  unfold ipcIntSanitizePacket
  rw [rtlEndian_self]
  by_cases htag : m.IpcEndianess = kIPCLittleEndian
  · have hwrong : wrongTag .kEndianBig m.IpcEndianess = true := decide_eq_true htag
    simp only [hwrong, if_true]
    rw [if_pos (Or.inl htag)]
  · have hother : wrongTag .kEndianBig m.IpcEndianess = false := decide_eq_false htag
    simp only [hother, htag, false_or, Bool.false_eq_true, if_false, gt_iff_lt]

theorem ipcSanitizePacket_eq_true_iff {m : IPCMsg} {localCode : Int32} :
    (ipcSanitizePacket (some m) localCode).1 = true ↔
      m.IpcEndianess ≠ kIPCLittleEndian ∧ m.IpcFrom ≠ m.IpcTo ∧ 1 < m.IpcPacketSize.toNat ∧
        m.IpcPacketSize.toNat ≤ kIPCMsgSize ∧ m.IpcHeaderMagic = kIPCHeaderMagic := by
  rw [ipcSanitizePacket, ipcIntSanitizePacket_eq]
  by_cases hfailed : m.IpcEndianess = kIPCLittleEndian ∨ m.IpcFrom = m.IpcTo ∨ kIPCMsgSize < m.IpcPacketSize.toNat
  · rw [if_pos hfailed]
    constructor
    · intro h
      cases h
    · rintro ⟨htag, haddr, -, hsize, -⟩
      rcases hfailed with h | h | h
      · exact absurd h htag
      · exact absurd h haddr
      · exact absurd hsize (by omega)
  · rw [if_neg hfailed, decide_eq_true_iff]
    rw [not_or, not_or, not_lt] at hfailed
    obtain ⟨htag, haddr, hsize⟩ := hfailed
    constructor
    · rintro ⟨hmin, hmagic⟩
      exact ⟨htag, haddr, hmin, hsize, hmagic⟩
    · rintro ⟨-, -, hmin, -, hmagic⟩
      exact ⟨hmin, hmagic⟩

theorem ipcConstructPacket_eq_true {allocated : Bool} {pcktIn : Option (Option IPCMsg)} {m : IPCMsg}
    (h : ipcConstructPacket allocated pcktIn = (true, some (some m))) : ∃ pckt : IPCMsg, m = pckt.constructed := by
  rcases pcktIn with _ | pckt | pckt
  · cases h
  · cases allocated
    · cases h
    · cases h
      exact ⟨IPCMsg.zero, rfl⟩
  · cases h
    exact ⟨pckt, rfl⟩

theorem constructed_oversized (pckt : IPCMsg) : kIPCMsgSize < pckt.constructed.IpcPacketSize.toNat := by
  show kIPCMsgSize < (UInt64.ofNat ipcMsgSizeof).toNat
  rw [ipcMsgSizeof_eq]
  decide

/-- What a sender fills in after the construction. -/
structure IPCMsg.Payload where
  IpcCRC32 : UInt32
  IpcMsg : UInt32
  IpcMsgSz : UInt32
  IpcData : Bytes kIPCMsgSize

/-- The message from `a` to `b` with the given payload. -/
def IPCMsg.addressed (m : IPCMsg) (a b : IPCAddr) (payload : IPCMsg.Payload) : IPCMsg :=
  { m with
    IpcFrom := a
    IpcTo := b
    IpcCRC32 := payload.IpcCRC32
    IpcMsg := payload.IpcMsg
    IpcMsgSz := payload.IpcMsgSz
    IpcData := payload.IpcData }

/-- Every constructed message is turned away, whoever sends it to whom and with whatever payload. A message
that names the other byte order than the machine's, which is little endian, is accepted when all else is in
order. -/
theorem constructed_rejected {allocated : Bool} {pcktIn : Option (Option IPCMsg)} {m : IPCMsg}
    (h : ipcConstructPacket allocated pcktIn = (true, some (some m))) {a b : IPCAddr} (hab : a ≠ b)
    (payload : IPCMsg.Payload) (localCode : Int32) :
    ipcSanitizePacket (some (m.addressed a b payload)) localCode = (false, kErrorIPC) ∧
      ∀ other : IPCMsg, other.IpcEndianess = kIPCBigEndian → other.IpcFrom = a → other.IpcTo = b →
        1 < other.IpcPacketSize.toNat → other.IpcPacketSize.toNat ≤ kIPCMsgSize →
        other.IpcHeaderMagic = kIPCHeaderMagic → (ipcSanitizePacket (some other) localCode).1 = true := by
  obtain ⟨pckt, rfl⟩ := ipcConstructPacket_eq_true h
  constructor
  · have hsize : kIPCMsgSize < (pckt.constructed.addressed a b payload).IpcPacketSize.toNat :=
      constructed_oversized pckt
    rw [ipcSanitizePacket, ipcIntSanitizePacket_eq, if_pos (Or.inr (Or.inr hsize))]
  · rintro other htag rfl rfl hmin hmax hmagic
    apply ipcSanitizePacket_eq_true_iff.mpr
    refine ⟨?_, hab, hmin, hmax, hmagic⟩
    rw [htag]
    decide

/-- A payload of no bytes. -/
def IPCMsg.Payload.zero : IPCMsg.Payload := ⟨0, 0, 0, Bytes.zeros kIPCMsgSize⟩

theorem constructed_rejected_null :
    ipcSanitizePacket (some (IPCMsg.zero.constructed.addressed ⟨0, 1⟩ ⟨1, 0⟩ .zero)) 0 = (false, kErrorIPC) ∧
      ∀ other : IPCMsg, other.IpcEndianess = kIPCBigEndian → other.IpcFrom = ⟨0, 1⟩ → other.IpcTo = ⟨1, 0⟩ →
        1 < other.IpcPacketSize.toNat → other.IpcPacketSize.toNat ≤ kIPCMsgSize →
        other.IpcHeaderMagic = kIPCHeaderMagic → (ipcSanitizePacket (some other) 0).1 = true :=
  have h : ipcConstructPacket true (some none) = (true, some (some IPCMsg.zero.constructed)) := rfl
  constructed_rejected h (by decide) .zero 0

/-- The message constructed at a null pointer, from the process of number 0 to the one of number 1. -/
theorem constructed_not_accepted :
    ∃ m, ipcConstructPacket true (some none) = (true, some (some m)) ∧
      (ipcSanitizePacket (some (m.addressed ⟨0, 1⟩ ⟨1, 0⟩ .zero)) 0).1 = false := by
  refine ⟨IPCMsg.zero.constructed, rfl, ?_⟩
  rw [← Bool.not_eq_true, ipcSanitizePacket_eq_true_iff]
  rintro ⟨-, -, -, hsize, -⟩
  have hover := constructed_oversized IPCMsg.zero
  exact absurd hsize (Nat.not_le.mpr hover)

end OpenNE

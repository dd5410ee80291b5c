import OpenNE.Base.Access
import OpenNE.Network.IpcMsg

/-!
# Passing a message on (`NetworkKit/IPC.h`, `src/Utils.cc`)

`IPC_MSG::Pass` copies `IpcMsgSz` bytes of payload, a field the sanitizer does not look at, and the copy puts a zero
behind them. So a message of `kIPCMsgSize` bytes of payload is written beyond, and a shorter one clears a byte that
is not part of it (`passes_iff`).
-/

namespace OpenNE

/-! ### Copying -/

/-- The first `len` rounds of the loop of `rt_copy_memory`. -/
def copyBytes (acc : Access) (room : Span) (src dst : Nat) : Nat → Store → Exec Store
  | 0, mem => .ok mem
  | index + 1, mem => do
    let mem ← copyBytes acc room src dst index mem
    if acc.mayRead (src + index) 1 ∧ acc.mayWrite room (dst + index) 1 then
      .ok (Function.update mem (dst + index) (mem (src + index)))
    else .error .fault

/-- `rt_copy_memory`, when `room` is what may be written. -/
def rtCopyMemoryAt (acc : Access) (room : Span) (src dst len : Nat) (mem : Store) : Exec (Int32 × Store) := do
  let mem ← copyBytes acc room src dst len mem
  if acc.mayWrite room (dst + len) 1 then .ok (Int32.ofNat len, Function.update mem (dst + len) 0)
  else .error .fault

/-- The store with the `len` bytes from `src` on at `dst` as well. -/
def copied (src dst len : Nat) (mem : Store) : Store := fun x =>
  if dst ≤ x ∧ x < dst + len then mem (src + (x - dst)) else mem x

section Copy

variable {source room : Span} {src dst len : Nat} {mem : Store}

theorem copied_inside {i : Nat} (hi : i < len) : copied src dst len mem (dst + i) = mem (src + i) := by
  rw [copied, if_pos (by omega), Nat.add_sub_cancel_left]

theorem copied_outside {x : Nat} (h : x < dst ∨ dst + len ≤ x) : copied src dst len mem x = mem x :=
  if_neg (by omega)

theorem copyBytes_eq (hapart : src + len ≤ dst ∨ dst + len ≤ src) :
    copyBytes .anywhere room src dst len mem = .ok (copied src dst len mem) := by
  induction len with
  | zero =>
    have hsame : copied src dst 0 mem = mem := by
      funext x
      exact copied_outside (by omega)
    rw [hsame]
    rfl
  | succ index ih =>
    have hbyte : copied src dst index mem (src + index) = mem (src + index) := copied_outside (by omega)
    have hnext : Function.update (copied src dst index mem) (dst + index) (mem (src + index)) =
        copied src dst (index + 1) mem := by
      funext x
      by_cases hx : x = dst + index
      · subst hx
        rw [Function.update_self, copied_inside (Nat.lt_succ_self index)]
      · rw [Function.update_of_ne hx]
        unfold copied
        simp only [show (dst ≤ x ∧ x < dst + index) ↔ (dst ≤ x ∧ x < dst + (index + 1)) by omega]
    rw [copyBytes, ih (by omega)]
    simp only [Exec.ok_bind, hbyte, hnext]
    rfl

theorem copyBytes_ok (room : Span) (src dst len : Nat) (mem : Store) :
    ∃ mem', copyBytes .anywhere room src dst len mem = .ok mem' := by
  induction len with
  | zero => exact ⟨mem, rfl⟩
  | succ index ih =>
    obtain ⟨mem', hloop⟩ := ih
    exact ⟨Function.update mem' (dst + index) (mem' (src + index)), by rw [copyBytes, hloop]; rfl⟩

theorem copyBytes_checked (acc : Access) (room : Span) (src dst len : Nat) (mem : Store) :
    Checked (copyBytes acc room src dst len mem) (copyBytes .anywhere room src dst len mem) := by
  induction len with
  | zero => exact .refl _
  | succ index ih => exact ih.bind fun mem' => .ite_error

theorem holds_byte_iff {a i n : Nat} : (Span.mk a n).Holds (a + i) 1 ↔ i < n := by
  simp only [Span.Holds]
  omega

theorem copyBytes_within {m n : Nat} (hm : len ≤ m) (hn : len ≤ n) :
    ∃ mem', copyBytes (.within ⟨src, m⟩) ⟨dst, n⟩ src dst len mem = .ok mem' := by
  induction len with
  | zero => exact ⟨mem, rfl⟩
  | succ index ih =>
    obtain ⟨before, hbefore⟩ := ih (by omega) (by omega)
    have hread : (Access.within ⟨src, m⟩).mayRead (src + index) 1 = true :=
      decide_eq_true (holds_byte_iff.mpr hm)
    have hwrite : (Access.within ⟨src, m⟩).mayWrite ⟨dst, n⟩ (dst + index) 1 = true :=
      decide_eq_true (holds_byte_iff.mpr hn)
    exact ⟨_, by rw [copyBytes, hbefore, Exec.ok_bind, if_pos ⟨hread, hwrite⟩]⟩

theorem copyBytes_noFault {n : Nat} (h : len ≤ n) :
    (copyBytes (.within ⟨src, n⟩) ⟨dst, n⟩ src dst len mem).NoFault := by
  obtain ⟨mem', hcopy⟩ := @copyBytes_within src dst len mem n n h h
  rw [hcopy]
  exact .ok mem'

theorem rtCopyMemoryAt_noFault_iff {n : Nat} :
    (rtCopyMemoryAt (.within ⟨src, n⟩) ⟨dst, n⟩ src dst len mem).NoFault ↔ len < n := by
  have hlast : (Access.within ⟨src, n⟩).mayWrite ⟨dst, n⟩ (dst + len) 1 = true ↔ len < n :=
    decide_eq_true_iff.trans holds_byte_iff
  rw [rtCopyMemoryAt]
  constructor
  · intro hclean
    by_contra hlong
    obtain ⟨mem', hloop⟩ := copyBytes_ok ⟨dst, n⟩ src dst len mem
    rcases copyBytes_checked (.within ⟨src, n⟩) ⟨dst, n⟩ src dst len mem with hfault | hsame
    · rw [hfault] at hclean
      exact hclean rfl
    · rw [hsame, hloop, Exec.ok_bind, if_neg fun hin => hlong (hlast.mp hin)] at hclean
      exact hclean rfl
  · intro hshort
    refine (copyBytes_noFault (Nat.le_of_lt hshort)).bind fun mem' _ => ?_
    rw [if_pos (hlast.mpr hshort)]
    exact .ok _

end Copy

/-! ### Passing -/

/-- `offsetof(IPC_MSG, IpcData)`. -/
def ipcDataOffset : Nat := ipcMsgSizeof - kIPCMsgSize

/-- The message a pointer leads to. -/
def messageAt (mem : Store) (p : Nat) : Option IPCMsg := if p = 0 then none else some (mem.get IPCMsg.codec p)

/-- What `IpcData` of the message at `p` takes up. -/
def ipcDataSpan (p : Nat) : Span := ⟨p + ipcDataOffset, kIPCMsgSize⟩

/-- `IPC_MSG::Pass`, of the message at `source` to the one at `target`. -/
def pass (acc : Access) (source target : Nat) (mem : Store) : Exec (Bool × Store) :=
  let src := mem.get IPCMsg.codec source
  match messageAt mem target with
  | none => .ok (false, mem)
  | some dst =>
    if dst.IpcFrom = src.IpcTo then
      if dst.IpcMsgSz < src.IpcMsgSz then .ok (false, mem)
      else do
        let (_, mem) ← rtCopyMemoryAt acc (ipcDataSpan target) (source + ipcDataOffset) (target + ipcDataOffset)
          src.IpcMsgSz.toNat mem
        .ok (true, mem)
    else .ok (false, mem)

/-- The payload of `src` fits into `dst`: into what it says it has room for, and into its `IpcData`. -/
def IPCMsg.Fits (src dst : IPCMsg) : Prop := src.IpcMsgSz ≤ dst.IpcMsgSz ∧ src.IpcMsgSz.toNat ≤ kIPCMsgSize

/-- What passing a message is meant to do. The last part: behind a check of each byte copied the call does not
fault. -/
structure Passes (source target : Nat) (mem : Store) (ret : Bool) (mem' : Store) : Prop where
  ret_iff : ret = true ↔ (mem.get IPCMsg.codec target).IpcFrom = (mem.get IPCMsg.codec source).IpcTo ∧
    (mem.get IPCMsg.codec source).Fits (mem.get IPCMsg.codec target)
  payload : ret = true → ∀ i < (mem.get IPCMsg.codec source).IpcMsgSz.toNat,
    mem' (target + ipcDataOffset + i) = mem (source + ipcDataOffset + i)
  frame : ret = true → ∀ x ∈ Span.mk target ipcMsgSizeof,
    x ∉ Span.mk (target + ipcDataOffset) (mem.get IPCMsg.codec source).IpcMsgSz.toNat → mem' x = mem x
  refused : ret = false → ∀ x ∈ Span.mk target ipcMsgSizeof, mem' x = mem x
  bounded : (pass (.within (ipcDataSpan source)) source target mem).NoFault

/-- Where it does: the message is turned away, or it is shorter than the room in a message and what comes behind it
is zero. -/
def PassOK (source target : Nat) (mem : Store) : Prop :=
  let src := mem.get IPCMsg.codec source
  let dst := mem.get IPCMsg.codec target
  dst.IpcFrom ≠ src.IpcTo ∨ dst.IpcMsgSz < src.IpcMsgSz ∨
    src.IpcMsgSz.toNat < kIPCMsgSize ∧ mem (target + ipcDataOffset + src.IpcMsgSz.toNat) = 0

theorem ipcData_get (mem : Store) (p : Nat) :
    (mem.get IPCMsg.codec p).IpcData = mem.get (Codec.bytes kIPCMsgSize) (p + ipcDataOffset) := by
  show (mem.get (Codec.u32.pair <| Codec.u8.pair <| Codec.u64.pair <| IPCAddr.codec.pair <| IPCAddr.codec.pair <|
    Codec.u32.pair <| Codec.u32.pair <| Codec.u32.pair (Codec.bytes kIPCMsgSize)) p).2.2.2.2.2.2.2.2 = _
  simp only [Store.get_pair]
  rfl

section Pass

variable {acc : Access} {source target : Nat} {mem mem' : Store} {ret : Bool} {localCode : Int32}

theorem messageAt_accepted {p : Nat} (h : (ipcSanitizePacket (messageAt mem p) localCode).1 = true) :
    messageAt mem p = some (mem.get IPCMsg.codec p) ∧
      (mem.get IPCMsg.codec p).IpcFrom ≠ (mem.get IPCMsg.codec p).IpcTo := by
  by_cases hnull : p = 0
  · rw [messageAt, if_pos hnull] at h
    cases h
  · have hsome : messageAt mem p = some (mem.get IPCMsg.codec p) := if_neg hnull
    rw [hsome] at h
    exact ⟨hsome, (ipcSanitizePacket_eq_true_iff.mp h).2.1⟩

theorem pass_refused (htarget : messageAt mem target = some (mem.get IPCMsg.codec target))
    (h : (mem.get IPCMsg.codec target).IpcFrom ≠ (mem.get IPCMsg.codec source).IpcTo ∨
      (mem.get IPCMsg.codec target).IpcMsgSz < (mem.get IPCMsg.codec source).IpcMsgSz) :
    pass acc source target mem = .ok (false, mem) := by
  simp only [pass, htarget]
  rcases h with haddr | hsize
  · rw [if_neg haddr]
  · rw [if_pos hsize]
    split <;> rfl

theorem pass_copied (htarget : messageAt mem target = some (mem.get IPCMsg.codec target))
    (haddr : (mem.get IPCMsg.codec target).IpcFrom = (mem.get IPCMsg.codec source).IpcTo)
    (hsize : ¬ (mem.get IPCMsg.codec target).IpcMsgSz < (mem.get IPCMsg.codec source).IpcMsgSz) :
    pass acc source target mem = (do
      let (_, mem) ← rtCopyMemoryAt acc (ipcDataSpan target) (source + ipcDataOffset) (target + ipcDataOffset)
        (mem.get IPCMsg.codec source).IpcMsgSz.toNat mem
      .ok (true, mem)) := by
  simp only [pass, htarget]
  rw [if_pos haddr, if_neg hsize]

theorem passes_refused (htarget : messageAt mem target = some (mem.get IPCMsg.codec target))
    (h : (mem.get IPCMsg.codec target).IpcFrom ≠ (mem.get IPCMsg.codec source).IpcTo ∨
      (mem.get IPCMsg.codec target).IpcMsgSz < (mem.get IPCMsg.codec source).IpcMsgSz) :
    Passes source target mem false mem where
  ret_iff := by
    refine iff_of_false Bool.false_ne_true ?_
    rintro ⟨haddr, hfits, -⟩
    rcases h with hother | hlong
    · exact hother haddr
    · exact absurd hfits (UInt32.not_le.mpr hlong)
  payload := fun hret => Bool.noConfusion hret
  frame := fun hret => Bool.noConfusion hret
  refused := fun _ _ _ => rfl
  bounded := by
    rw [pass_refused htarget h]
    exact .ok _

theorem pass_clears (haddr : (mem.get IPCMsg.codec target).IpcFrom = (mem.get IPCMsg.codec source).IpcTo)
    (hsize : ¬ (mem.get IPCMsg.codec target).IpcMsgSz < (mem.get IPCMsg.codec source).IpcMsgSz)
    (htarget : messageAt mem target = some (mem.get IPCMsg.codec target)) :
    ∃ mem', pass .anywhere source target mem = .ok (true, mem') ∧
      mem' (target + ipcDataOffset + (mem.get IPCMsg.codec source).IpcMsgSz.toNat) = 0 := by
  obtain ⟨mem', hloop⟩ := copyBytes_ok (ipcDataSpan target) (source + ipcDataOffset) (target + ipcDataOffset)
    (mem.get IPCMsg.codec source).IpcMsgSz.toNat mem
  refine ⟨_, ?_, Function.update_self _ 0 mem'⟩
  rw [pass_copied htarget haddr hsize, rtCopyMemoryAt, hloop]
  rfl

theorem pass_copied_eq (hapart : (Span.mk source ipcMsgSizeof).Disjoint (Span.mk target ipcMsgSizeof))
    (htarget : messageAt mem target = some (mem.get IPCMsg.codec target))
    (haddr : (mem.get IPCMsg.codec target).IpcFrom = (mem.get IPCMsg.codec source).IpcTo)
    (hsize : ¬ (mem.get IPCMsg.codec target).IpcMsgSz < (mem.get IPCMsg.codec source).IpcMsgSz)
    (hshort : (mem.get IPCMsg.codec source).IpcMsgSz.toNat < kIPCMsgSize) :
    pass .anywhere source target mem = .ok (true, Function.update
      (copied (source + ipcDataOffset) (target + ipcDataOffset) (mem.get IPCMsg.codec source).IpcMsgSz.toNat mem)
      (target + ipcDataOffset + (mem.get IPCMsg.codec source).IpcMsgSz.toNat) 0) := by
  have hpos : 0 < ipcMsgSizeof := by decide
  have hlies := (Span.disjoint_iff hpos hpos).mp hapart
  have hoff : ipcDataOffset + kIPCMsgSize = ipcMsgSizeof := rfl
  dsimp only at hlies
  rw [pass_copied htarget haddr hsize, rtCopyMemoryAt, copyBytes_eq (by omega)]
  rfl

theorem pass_noFault_iff (htarget : messageAt mem target = some (mem.get IPCMsg.codec target))
    (haddr : (mem.get IPCMsg.codec target).IpcFrom = (mem.get IPCMsg.codec source).IpcTo)
    (hsize : ¬ (mem.get IPCMsg.codec target).IpcMsgSz < (mem.get IPCMsg.codec source).IpcMsgSz) :
    (pass (.within (ipcDataSpan source)) source target mem).NoFault ↔
      (mem.get IPCMsg.codec source).IpcMsgSz.toNat < kIPCMsgSize := by
  have hcopy : (rtCopyMemoryAt (.within (ipcDataSpan source)) (ipcDataSpan target) (source + ipcDataOffset)
      (target + ipcDataOffset) (mem.get IPCMsg.codec source).IpcMsgSz.toNat mem).NoFault ↔ _ :=
    rtCopyMemoryAt_noFault_iff
  rw [pass_copied htarget haddr hsize, ← hcopy]
  constructor
  · intro hclean hfault
    rw [hfault] at hclean
    exact hclean rfl
  · exact fun hclean => hclean.bind fun _ _ => .ok _

theorem passes_copied_iff (hapart : (Span.mk source ipcMsgSizeof).Disjoint (Span.mk target ipcMsgSizeof))
    (htarget : messageAt mem target = some (mem.get IPCMsg.codec target))
    (haddr : (mem.get IPCMsg.codec target).IpcFrom = (mem.get IPCMsg.codec source).IpcTo)
    (hsize : ¬ (mem.get IPCMsg.codec target).IpcMsgSz < (mem.get IPCMsg.codec source).IpcMsgSz)
    (hcall : pass .anywhere source target mem = .ok (true, mem')) :
    Passes source target mem true mem' ↔ (mem.get IPCMsg.codec source).IpcMsgSz.toNat < kIPCMsgSize ∧
      mem (target + ipcDataOffset + (mem.get IPCMsg.codec source).IpcMsgSz.toNat) = 0 := by
  have hoff : ipcDataOffset + kIPCMsgSize = ipcMsgSizeof := rfl
  constructor
  · intro hlaw
    have hshort := (pass_noFault_iff htarget haddr hsize).mp hlaw.bounded
    obtain ⟨mem'', hcall', hzero⟩ := pass_clears haddr hsize htarget
    rw [hcall] at hcall'
    obtain rfl : mem' = mem'' := congrArg Prod.snd (Except.ok.inj hcall')
    refine ⟨hshort, ?_⟩
    rw [← hlaw.frame rfl _ ?_ ?_, hzero]
    · rw [Span.mem_def]
      dsimp only
      omega
    · rw [Span.mem_def]
      dsimp only
      omega
  · rintro ⟨hshort, hzero⟩
    rw [pass_copied_eq hapart htarget haddr hsize hshort] at hcall
    obtain rfl := congrArg Prod.snd (Except.ok.inj hcall)
    dsimp only
    refine ⟨iff_of_true rfl ⟨haddr, UInt32.not_lt.mp hsize, Nat.le_of_lt hshort⟩, ?_, ?_, ?_,
      (pass_noFault_iff htarget haddr hsize).mpr hshort⟩
    · intro _ i hi
      rw [Function.update_of_ne (by omega), copied_inside hi]
    · intro _ x _ hout
      by_cases hend : x = target + ipcDataOffset + (mem.get IPCMsg.codec source).IpcMsgSz.toNat
      · rw [hend, Function.update_self, hzero]
      · rw [Span.mem_def] at hout
        dsimp only at hout
        rw [Function.update_of_ne hend, copied_outside (by omega)]
    · exact fun hret => Bool.noConfusion hret

end Pass

/-- From a message, accepted or not, to an accepted one, or to itself: the call returns, and passes the message
exactly under the condition. -/
theorem passes_iff {source target : Nat} {mem : Store} {localCode : Int32}
    (htarget : (ipcSanitizePacket (messageAt mem target) localCode).1 = true)
    (hapart : source = target ∨ (Span.mk source ipcMsgSizeof).Disjoint (Span.mk target ipcMsgSizeof)) :
    ∃ ret mem', pass .anywhere source target mem = .ok (ret, mem') ∧
      (Passes source target mem ret mem' ↔ PassOK source target mem) := by
  obtain ⟨hsome, hothers⟩ := messageAt_accepted htarget
  by_cases hrefused : (mem.get IPCMsg.codec target).IpcFrom ≠ (mem.get IPCMsg.codec source).IpcTo ∨
      (mem.get IPCMsg.codec target).IpcMsgSz < (mem.get IPCMsg.codec source).IpcMsgSz
  · refine ⟨false, mem, pass_refused hsome hrefused, iff_of_true (passes_refused hsome hrefused) ?_⟩
    exact hrefused.imp id Or.inl
  · rw [not_or, not_not] at hrefused
    obtain ⟨haddr, hsize⟩ := hrefused
    -- an accepted message is not one to its sender
    have hdisjoint : (Span.mk source ipcMsgSizeof).Disjoint (Span.mk target ipcMsgSizeof) := by
      rcases hapart with rfl | hapart
      · exact absurd haddr hothers
      · exact hapart
    obtain ⟨mem', hcall, -⟩ := pass_clears haddr hsize hsome
    refine ⟨true, mem', hcall, (passes_copied_iff hdisjoint hsome haddr hsize hcall).trans ?_⟩
    constructor
    · exact fun h => Or.inr (Or.inr h)
    · rintro (hother | hlong | hspare)
      · exact absurd haddr hother
      · exact absurd hlong hsize
      · exact hspare

/-! ### Two messages -/

/-- A message of one byte of payload. -/
def byteMsg (src dst : UInt64) (fill : UInt8) : IPCMsg :=
  ⟨kIPCHeaderMagic, kIPCBigEndian, 2, ⟨src, 0⟩, ⟨dst, 0⟩, 0, 0, 1,
    ⟨List.replicate kIPCMsgSize fill, List.length_replicate⟩⟩

/-- One to process 2, and one of process 2 with `fill` in all of its `IpcData`. -/
def twoMessages (fill : UInt8) : Store :=
  (Store.put IPCMsg.codec (fun _ => 0) 0x1000 (byteMsg 1 2 0)).put IPCMsg.codec 0x3000 (byteMsg 2 1 fill)

theorem twoMessages_source (fill : UInt8) : (twoMessages fill).get IPCMsg.codec 0x1000 = byteMsg 1 2 0 := by
  rw [twoMessages, Store.get_put_disjoint (by decide), Store.get_put_same]

theorem twoMessages_target (fill : UInt8) : (twoMessages fill).get IPCMsg.codec 0x3000 = byteMsg 2 1 fill :=
  Store.get_put_same

theorem twoMessages_data {fill : UInt8} {i : Nat} (hi : i < kIPCMsgSize) :
    twoMessages fill (0x3000 + ipcDataOffset + i) = fill := by
  have hdata : (twoMessages fill).get (Codec.bytes kIPCMsgSize) (0x3000 + ipcDataOffset) =
      Store.get (Codec.bytes kIPCMsgSize) (fun _ => fill) (0x3000 + ipcDataOffset) := by
    rw [← ipcData_get, twoMessages_target]
    apply Subtype.ext
    simp [Store.get, Store.read, Codec.bytes, byteMsg]
  exact Store.eq_of_get_eq hdata (Nat.le_add_right _ i) (Nat.add_lt_add_left hi _)

theorem byteMsg_accepted {src dst : UInt64} (h : src ≠ dst) (fill : UInt8) :
    (ipcSanitizePacket (some (byteMsg src dst fill)) 0).1 = true := by
  apply ipcSanitizePacket_eq_true_iff.mpr
  refine ⟨show kIPCBigEndian ≠ kIPCLittleEndian by decide, ?_, show 1 < (2 : UInt64).toNat by decide,
    show (2 : UInt64).toNat ≤ kIPCMsgSize by decide, rfl⟩
  intro hsame
  exact h (congrArg IPCAddr.UserProcessID hsame)

theorem twoMessages_accepted (fill : UInt8) :
    (ipcSanitizePacket (messageAt (twoMessages fill) 0x1000) 0).1 = true ∧
      (ipcSanitizePacket (messageAt (twoMessages fill) 0x3000) 0).1 = true := by
  rw [messageAt, messageAt, if_neg (by decide), if_neg (by decide), twoMessages_source, twoMessages_target]
  exact ⟨byteMsg_accepted (by decide) 0, byteMsg_accepted (by decide) fill⟩

/-- With zeros in the target the byte is passed on. -/
theorem passes_iff_zeros : ∃ ret mem', pass .anywhere 0x1000 0x3000 (twoMessages 0) = .ok (ret, mem') ∧
    Passes 0x1000 0x3000 (twoMessages 0) ret mem' := by
  obtain ⟨-, htarget⟩ := twoMessages_accepted 0
  have hapart : (Span.mk 0x1000 ipcMsgSizeof).Disjoint (Span.mk 0x3000 ipcMsgSizeof) :=
    Span.disjoint_of_le (by decide)
  obtain ⟨ret, mem', hcall, hlaw⟩ := passes_iff htarget (Or.inr hapart)
  refine ⟨ret, mem', hcall, hlaw.mpr (Or.inr (Or.inr ?_))⟩
  rw [twoMessages_source]
  exact ⟨by decide, twoMessages_data (by decide)⟩

/-- With ones in the target the second of them is cleared. -/
theorem pass_clears_second : (ipcSanitizePacket (messageAt (twoMessages 1) 0x1000) 0).1 = true ∧
    (ipcSanitizePacket (messageAt (twoMessages 1) 0x3000) 0).1 = true ∧
    ∃ mem', pass .anywhere 0x1000 0x3000 (twoMessages 1) = .ok (true, mem') ∧
      ¬ Passes 0x1000 0x3000 (twoMessages 1) true mem' := by
  obtain ⟨hsource, htarget⟩ := twoMessages_accepted 1
  have hsome := (messageAt_accepted htarget).1
  have hfrom : ((twoMessages 1).get IPCMsg.codec 0x3000).IpcFrom =
      ((twoMessages 1).get IPCMsg.codec 0x1000).IpcTo := by
    rw [twoMessages_source, twoMessages_target]
    rfl
  have hsize : ¬ ((twoMessages 1).get IPCMsg.codec 0x3000).IpcMsgSz <
      ((twoMessages 1).get IPCMsg.codec 0x1000).IpcMsgSz := by
    rw [twoMessages_source, twoMessages_target]
    exact UInt32.lt_irrefl 1
  obtain ⟨mem', hcall, hzero⟩ := pass_clears hfrom hsize hsome
  refine ⟨hsource, htarget, mem', hcall, fun hlaw => ?_⟩
  rw [twoMessages_source] at hzero
  have hone : twoMessages 1 (0x3000 + ipcDataOffset + 1) = 1 := twoMessages_data (by decide)
  have hkept := hlaw.frame rfl (0x3000 + ipcDataOffset + 1) (by decide) (by rw [twoMessages_source]; decide)
  rw [hone] at hkept
  exact absurd (hkept.symm.trans hzero) (by decide)

end OpenNE

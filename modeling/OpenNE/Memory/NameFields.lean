import OpenNE.Auth.User
import OpenNE.Base.ForwardCopy
import OpenNE.Base.StringSearch
import OpenNE.Memory.ByteMoves
import OpenNE.Process.Team

/-!
# Names in fields of a fixed size (`src/UserProcessScheduler.cc`, `src/User.cc`, `src/Network/NetworkDevice.cc`,
`Boot/src/BootThread.cc`)

Four records keep a copy of a name. Two of them take a name of any length, a network device takes one of as many
characters as its field has, and none leaves room for the zero that `rt_copy_memory` writes behind.
`BootThread::SetName` copies a word for each character, the zero with the rest, and nothing of an empty name
(`name_fields_iff`).
-/

namespace OpenNE

/-! ### The calls -/

/-- A name copied to the beginning of `room`, behind its length. -/
def copyNameAt (acc : Access) (room : Span) (fuel name : Nat) (mem : Store) : Exec Store := do
  let len ← rtStringLen fuel name mem
  let (_, mem) ← rtCopyMemoryAt acc room name room.start len mem
  .ok mem

/-- `UserProcessScheduler::Spawn`, where it copies the name to the `Name` of the process. -/
def spawnName (acc : Access) (fuel name processName : Nat) (mem : Store) : Exec Store :=
  copyNameAt acc ⟨processName, kProcessNameLen⟩ fuel name mem

/-- `User::User`, of a ring. -/
def userOfRing (acc : Access) (fuel : Nat) (ringKind : UserRingKind) (userName mUserName : Nat) (mem : Store) :
    Exec (UserRingKind × Store) := do
  let mem ← copyNameAt acc ⟨mUserName, kMaxUserNameLen⟩ fuel userName mem
  .ok (ringKind, mem)

/-- `User::User`, of a number. -/
def userOfNumber (debug : Bool) (acc : Access) (fuel : Nat) (sel : Int32) (userName mUserName : Nat) (mem : Store) :
    Exec (UserRingKind × Store) := do
  mustPass debug (0 ≤ sel)
  let mem ← copyNameAt acc ⟨mUserName, kMaxUserNameLen⟩ fuel userName mem
  .ok (sel, mem)

def cNetworkNameLen : Nat := 512

/-- `NetworkDevice::Name`, of a name. -/
def networkDeviceName (acc : Access) (fuel strView fNetworkName : Nat) (mem : Store) : Exec (Bool × Store) :=
  if strView = 0 then .ok (false, mem)
  else do
    let c ← fetch acc Codec.u8 strView mem
    if c = 0 then .ok (false, mem)
    else do
      let len ← rtStringLen fuel strView mem
      if len > cNetworkNameLen then .ok (false, mem)
      else do
        let mem ← copyNameAt acc ⟨fNetworkName, cNetworkNameLen⟩ fuel strView mem
        .ok (true, mem)

/-- `strlen` of the boot loader. -/
def strlen (fuel whatToCheck : Nat) (mem : Store) : Exec Nat := loop (lenRound mem whatToCheck) fuel 0

/-- How many characters `fBlobName` has. -/
def blobNameLen : Nat := 255

/-- `BootThread::SetName`. -/
def bootThreadSetName (acc : Access) (fuel name fBlobName : Nat) (mem : Store) : Exec Store := do
  let len ← strlen fuel name mem
  copyMem acc ⟨fBlobName, blobNameLen⟩ fBlobName name len mem

/-! ### What they are for -/

/-- The name `s`, or a prefix of it, stands in the field with its zero. -/
def NameHeld (mem : Store) (field : Span) (s : CString) : Prop :=
  ∃ t : CString, t.1 <+: s.1 ∧ t.length < field.len ∧ StringAt mem field.start t

/-- The copy ends, with the name in its field and nothing written outside of it. -/
def SpawnNameRight (mem : Store) (a field : Nat) (s : CString) : Prop :=
  ∃ fuel mem', spawnName (stringOnly a s) fuel a field mem = .ok mem' ∧ NameHeld mem' ⟨field, kProcessNameLen⟩ s

def UserOfRingRight (ringKind : UserRingKind) (mem : Store) (a field : Nat) (s : CString) : Prop :=
  ∃ fuel user mem', userOfRing (stringOnly a s) fuel ringKind a field mem = .ok (user, mem') ∧
    NameHeld mem' ⟨field, kMaxUserNameLen⟩ s

/-- A failed check refuses the user, before anything is written. -/
def UserOfNumberRight (debug : Bool) (sel : Int32) (mem : Store) (a field : Nat) (s : CString) : Prop :=
  (∀ fuel, userOfNumber debug (stringOnly a s) fuel sel a field mem = .error .panic) ∨
    ∃ fuel user mem', userOfNumber debug (stringOnly a s) fuel sel a field mem = .ok (user, mem') ∧
      NameHeld mem' ⟨field, kMaxUserNameLen⟩ s

/-- A name that is refused leaves the memory as it was. -/
def NetworkNameRight (mem : Store) (a field : Nat) (s : CString) : Prop :=
  ∃ fuel taken mem', networkDeviceName (stringOnly a s) fuel a field mem = .ok (taken, mem') ∧
    if taken then NameHeld mem' ⟨field, cNetworkNameLen⟩ s else mem' = mem

/-- What is read does not matter here, as long as it is a word for each character. -/
def SetNameRight (mem : Store) (a field : Nat) (s : CString) : Prop :=
  ∃ fuel mem', bootThreadSetName (.within ⟨a, 4 * s.length⟩) fuel a field mem = .ok mem' ∧
    NameHeld mem' ⟨field, blobNameLen⟩ s

/-- Byte `i` of what lies at `a` lies where a copy to `field`, of `word` bytes at a time, has been before it. -/
def CopiedOver (word field a i : Nat) : Prop := field ≤ a + i ∧ a + i < field + word * (i / word)

/-- Of the first `n` bytes of the name at `a` none is changed by the copy before it is copied itself. -/
def Undisturbed (word field a : Nat) (s : CString) (n : Nat) : Prop :=
  ∀ i < n, CopiedOver word field a i → s.1.getD i 0 = s.1.getD (a + i - field) 0

/-- The name leaves room for its zero among `n` bytes, and is not changed while it is copied. -/
def Fits (n field a : Nat) (s : CString) : Prop := s.length < n ∧ Undisturbed 1 field a s s.length

section Names

variable {mem mem' : Store} {acc : Access} {room : Span} {src dst len a field n : Nat} {s : CString}

theorem undisturbed_of_apart {word : Nat} (h : field ≤ a ∨ a + n ≤ field) : Undisturbed word field a s n := by
  rintro i hi ⟨hlow, hhigh⟩
  have hword : word * (i / word) ≤ i := Nat.mul_div_le i word
  omega

/-! ### Copying -/

theorem copyBytes_outside (h : copyBytes acc room src dst len mem = .ok mem') {x : Nat}
    (hx : x < dst ∨ dst + len ≤ x) : mem' x = mem x := by
  induction len generalizing mem' with
  | zero =>
    cases h
    rfl
  | succ index ih =>
    obtain ⟨before, hbefore, h⟩ := Exec.bind_eq_ok.mp h
    split_ifs at h
    cases h
    rw [Function.update_of_ne (by omega), ih hbefore (by omega)]

theorem copyBytes_forward (h : copyBytes acc room src dst len mem = .ok mem') :
    ForwardCopy mem' (fun i => mem (src + i)) src dst len (CopiedOver 1 dst src) := by
  have hall : ∀ i < len,
      mem' (dst + i) = if dst ≤ src + i ∧ src + i < dst + i then mem' (src + i) else mem (src + i) := by
    induction len generalizing mem' with
    | zero => exact fun i hi => absurd hi (Nat.not_lt_zero i)
    | succ index ih =>
      obtain ⟨before, hbefore, h⟩ := Exec.bind_eq_ok.mp h
      split_ifs at h
      cases h
      intro i hi
      by_cases hlast : i = index
      · subst hlast
        rw [Function.update_self]
        split_ifs with hover
        · rw [Function.update_of_ne (by omega)]
        · exact copyBytes_outside hbefore (by omega)
      · rw [Function.update_of_ne (by omega), ih hbefore i (by omega)]
        split_ifs with hover
        · rw [Function.update_of_ne (by omega)]
        · rfl
  have hover : ∀ i, CopiedOver 1 dst src i ↔ dst ≤ src + i ∧ src + i < dst + i := by
    intro i
    rw [CopiedOver, Nat.div_one, Nat.one_mul]
  refine ⟨fun i hi hc => ?_, fun i hi hc => ?_, fun i _ hc => (hover i).mp hc⟩
  · rw [hall i hi, if_pos ((hover i).mp hc)]
  · rw [hall i hi, if_neg fun h => hc ((hover i).mpr h)]

theorem memcpy_forwardCopy (hn : n ≤ 4 * len) :
    ForwardCopy (memcpy dst src len mem) (fun i => mem (src + i)) src dst n (CopiedOver 4 dst src) := by
  refine ⟨fun i hi hc => ?_, fun i hi hc => ?_, fun i _ hc => ⟨hc.1, ?_⟩⟩
  · exact (memcpy_forward (Nat.lt_of_lt_of_le hi hn)).trans (if_pos hc)
  · exact (memcpy_forward (Nat.lt_of_lt_of_le hi hn)).trans (if_neg hc)
  · exact Nat.lt_of_lt_of_le hc.2 (Nat.add_le_add_left (Nat.mul_div_le i 4) dst)

/-! ### What stands in the field -/

theorem stringAt_iff_forall : StringAt mem a s ↔ ∀ i ≤ s.length, mem (a + i) = s.1.getD i 0 := by
  refine ⟨fun h i hi => h.apply hi, fun h => ?_⟩
  have hlen : (mem.read a (s.length + 1)).length = (s.1 ++ [0]).length := by
    rw [Store.read_length, List.length_append]
    rfl
  apply List.ext_getElem hlen
  intro i hi _
  have hle : i ≤ s.length := by
    rw [Store.read_length] at hi
    omega
  have hbyte : (mem.read a (s.length + 1))[i] = mem (a + i) := by
    simp [Store.read]
  rw [hbyte, h i hle, List.getD_eq_getElem?_getD]
  by_cases hin : i < s.1.length
  · rw [List.getElem_append_left hin, List.getElem?_eq_getElem hin]
    rfl
  · rw [List.getElem_append_right (Nat.le_of_not_lt hin), List.getElem?_eq_none (Nat.le_of_not_lt hin),
      List.getElem_singleton]
    rfl

theorem nameHeld_iff (hne : ∀ i < s.length, mem (field + i) ≠ 0) (hroom : s.length < n) :
    NameHeld mem ⟨field, n⟩ s ↔ StringAt mem field s := by
  constructor
  · rintro ⟨t, hstart, -, hat⟩
    have hle : t.length ≤ s.length := hstart.length_le
    have hlen : ¬ t.length < s.length := by
      intro hshort
      exact hne _ hshort hat.apply_length
    have hsame : t = s := Subtype.ext (hstart.eq_of_length (Nat.le_antisymm hle (Nat.le_of_not_lt hlen)))
    rwa [hsame] at hat
  · exact fun hat => ⟨s, List.prefix_rfl, hroom, hat⟩

theorem ForwardCopy.ne_zero {reread : Nat → Prop} (hcopy : ForwardCopy mem' (fun i => mem (a + i)) a field n reread)
    (h : StringAt mem a s) (hn : s.length ≤ n) : ∀ i < s.length, mem' (field + i) ≠ 0 := by
  intro i hi
  obtain ⟨k, hk, hfrom⟩ := hcopy.from_source (Nat.lt_of_lt_of_le hi hn)
  have hchar : k < s.length := Nat.lt_of_le_of_lt hk hi
  rw [hfrom, h.apply (Nat.le_of_lt hchar)]
  exact getD_pos_ne_zero hchar

theorem ForwardCopy.name_iff {word : Nat}
    (hcopy : ForwardCopy mem' (fun i => mem (a + i)) a field n (CopiedOver word field a)) (h : StringAt mem a s)
    (hn : n ≤ s.length + 1) :
    (∀ i < n, mem' (field + i) = s.1.getD i 0) ↔ Undisturbed word field a s n := by
  have hbyte : ∀ i < n, mem (a + i) = s.1.getD i 0 := fun i hi => h.apply (by omega)
  have hover : ∀ i < n, CopiedOver word field a i → mem (a + (a + i - field)) = s.1.getD (a + i - field) 0 := by
    intro i hi hc
    have hback := hcopy.behind i hi hc
    exact hbyte _ (by omega)
  have hexact := hcopy.exact_iff
  constructor
  · intro hname i hi hc
    have := hexact.mp (fun j hj => (hname j hj).trans (hbyte j hj).symm) i hi hc
    rwa [hbyte i hi, hover i hi hc] at this
  · intro hstays i hi
    rw [hexact.mpr (fun j hj hc => ?_) i hi, hbyte i hi]
    rw [hbyte j hj, hover j hj hc]
    exact hstays j hj hc

/-! ### The copy -/

theorem mayWrite_last_iff : (stringOnly a s).mayWrite ⟨field, n⟩ (field + s.length) 1 = true ↔ s.length < n :=
  decide_eq_true_iff.trans holds_byte_iff

theorem copyNameAt_exists (h : StringAt mem a s) (hroom : s.length < n) :
    ∃ fuel mem', copyNameAt (stringOnly a s) ⟨field, n⟩ fuel a mem = .ok mem' := by
  obtain ⟨before, hbefore⟩ :=
    @copyBytes_within a field s.length mem (s.length + 1) n (Nat.le_succ _) (Nat.le_of_lt hroom)
  refine ⟨s.length + 1, Function.update before (field + s.length) 0, ?_⟩
  rw [copyNameAt, rtStringLen_eq h (Nat.lt_succ_self _), Exec.ok_bind, rtCopyMemoryAt]
  show ((copyBytes (.within ⟨a, s.length + 1⟩) ⟨field, n⟩ a field s.length mem >>= _) >>= _) = _
  rw [hbefore, Exec.ok_bind]
  exact congrArg (· >>= _) (if_pos (mayWrite_last_iff.mpr hroom))

theorem copyNameAt_eq_ok {fuel : Nat} (h : StringAt mem a s)
    (hcall : copyNameAt (stringOnly a s) ⟨field, n⟩ fuel a mem = .ok mem') : s.length < n ∧
      ∃ before, copyBytes (stringOnly a s) ⟨field, n⟩ a field s.length mem = .ok before ∧
        mem' = Function.update before (field + s.length) 0 := by
  obtain ⟨len, hlen, hcall⟩ := Exec.bind_eq_ok.mp hcall
  obtain rfl : len = s.length := rtStringLen_unique h hlen
  obtain ⟨⟨ret, copy⟩, hcopy, hcall⟩ := Exec.bind_eq_ok.mp hcall
  cases hcall
  obtain ⟨before, hbefore, hlast⟩ := Exec.bind_eq_ok.mp hcopy
  split_ifs at hlast with hroom
  exact ⟨mayWrite_last_iff.mp hroom, before, hbefore, (Prod.mk.inj (Except.ok.inj hlast)).2.symm⟩

theorem copyNameAt_ok {fuel : Nat} (h : StringAt mem a s)
    (hcall : copyNameAt (stringOnly a s) ⟨field, n⟩ fuel a mem = .ok mem') :
    s.length < n ∧ ForwardCopy mem' (fun i => mem (a + i)) a field s.length (CopiedOver 1 field a) ∧
      mem' (field + s.length) = 0 := by
  obtain ⟨hroom, before, hbefore, rfl⟩ := copyNameAt_eq_ok h hcall
  have hforward := copyBytes_forward hbefore
  refine ⟨hroom, ⟨fun i hi hc => ?_, fun i hi hc => ?_, hforward.behind⟩, Function.update_self _ _ _⟩
  · have hback := hforward.behind i hi hc
    rw [Function.update_of_ne (by omega), Function.update_of_ne (by omega), hforward.moved i hi hc]
  · rw [Function.update_of_ne (by omega), hforward.kept i hi hc]

theorem stringAt_copy_iff {fuel : Nat} (h : StringAt mem a s)
    (hcall : copyNameAt (stringOnly a s) ⟨field, n⟩ fuel a mem = .ok mem') :
    StringAt mem' field s ↔ Undisturbed 1 field a s s.length := by
  obtain ⟨-, hforward, hzero⟩ := copyNameAt_ok h hcall
  rw [stringAt_iff_forall, ← hforward.name_iff h (Nat.le_succ _)]
  constructor
  · exact fun hat i hi => hat i (Nat.le_of_lt hi)
  · intro hname i hi
    rcases Nat.lt_or_eq_of_le hi with hlt | heq
    · exact hname i hlt
    · rw [heq, hzero]
      exact (List.getD_eq_default _ _ (Nat.le_refl _)).symm

theorem nameHeld_copy_iff {fuel : Nat} (h : StringAt mem a s)
    (hcall : copyNameAt (stringOnly a s) ⟨field, n⟩ fuel a mem = .ok mem') :
    NameHeld mem' ⟨field, n⟩ s ↔ Fits n field a s := by
  obtain ⟨hroom, hforward, -⟩ := copyNameAt_ok h hcall
  rw [nameHeld_iff (hforward.ne_zero h (Nat.le_refl _)) hroom, stringAt_copy_iff h hcall, Fits]
  exact (and_iff_right hroom).symm

theorem copyNameAt_right_iff (h : StringAt mem a s) :
    (∃ fuel mem', copyNameAt (stringOnly a s) ⟨field, n⟩ fuel a mem = .ok mem' ∧ NameHeld mem' ⟨field, n⟩ s) ↔
      Fits n field a s := by
  constructor
  · rintro ⟨fuel, mem', hcall, hheld⟩
    exact (nameHeld_copy_iff h hcall).mp hheld
  · intro hfits
    obtain ⟨fuel, mem', hcall⟩ := copyNameAt_exists h hfits.1
    exact ⟨fuel, mem', hcall, (nameHeld_copy_iff h hcall).mpr hfits⟩

/-! ### The four fields -/

theorem userOfRingRight_iff {ringKind : UserRingKind} (h : StringAt mem a s) :
    UserOfRingRight ringKind mem a field s ↔ Fits kMaxUserNameLen field a s := by
  rw [← copyNameAt_right_iff h]
  constructor
  · rintro ⟨fuel, user, mem', hcall, hheld⟩
    obtain ⟨copy, hcopy, hcall⟩ := Exec.bind_eq_ok.mp hcall
    cases hcall
    exact ⟨fuel, mem', hcopy, hheld⟩
  · rintro ⟨fuel, mem', hcopy, hheld⟩
    exact ⟨fuel, ringKind, mem', by rw [userOfRing, hcopy]; rfl, hheld⟩

theorem userOfNumberRight_iff {debug : Bool} {sel : Int32} (h : StringAt mem a s) :
    UserOfNumberRight debug sel mem a field s ↔ debug = true ∧ sel < 0 ∨ Fits kMaxUserNameLen field a s := by
  have hcheck : mustPass debug (0 ≤ sel) = if debug = true ∧ sel < 0 then .error .panic else .ok () := by
    rw [mustPass_eq]
    simp only [decide_eq_false_iff_not, Int32.not_le]
  by_cases hfails : debug = true ∧ sel < 0
  · refine iff_of_true (.inl fun fuel => ?_) (.inl hfails)
    rw [userOfNumber, hcheck, if_pos hfails]
    rfl
  · have hsame : ∀ fuel, userOfNumber debug (stringOnly a s) fuel sel a field mem =
        userOfRing (stringOnly a s) fuel sel a field mem := by
      intro fuel
      rw [userOfNumber, hcheck, if_neg hfails, Exec.ok_bind, userOfRing]
    rw [← @userOfRingRight_iff mem a field s sel h, or_iff_right hfails]
    constructor
    · rintro (hpanic | ⟨fuel, user, mem', hcall, hheld⟩)
      · have hunfinished := (hsame 0).symm.trans (hpanic 0)
        cases hunfinished
      · exact ⟨fuel, user, mem', (hsame fuel).symm.trans hcall, hheld⟩
    · rintro ⟨fuel, user, mem', hcall, hheld⟩
      exact .inr ⟨fuel, user, mem', (hsame fuel).trans hcall, hheld⟩

theorem networkNameRight_iff (h : StringAt mem a s) : NetworkNameRight mem a field s ↔
    a = 0 ∨ s.1 = [] ∨ cNetworkNameLen < s.length ∨ Fits cNetworkNameLen field a s := by
  by_cases hnull : a = 0
  · exact iff_of_true ⟨0, false, mem, if_pos hnull, rfl⟩ (.inl hnull)
  have hfirst : fetch (stringOnly a s) Codec.u8 a mem = .ok (s.1.getD 0 0) := h.fetch (Nat.zero_le _)
  by_cases hempty : s.1 = []
  · have hzero : s.1.getD 0 0 = 0 := by
      rw [hempty]
      rfl
    refine iff_of_true ⟨0, false, mem, ?_, rfl⟩ (.inr (.inl hempty))
    rw [networkDeviceName, if_neg hnull, hfirst, Exec.ok_bind, if_pos hzero]
  have hchar : s.1.getD 0 0 ≠ 0 := getD_pos_ne_zero (List.length_pos_iff.mpr hempty)
  rw [or_iff_right hnull, or_iff_right hempty]
  by_cases hlong : cNetworkNameLen < s.length
  · refine iff_of_true ⟨s.length + 1, false, mem, ?_, rfl⟩ (.inl hlong)
    rw [networkDeviceName, if_neg hnull, hfirst, Exec.ok_bind, if_neg hchar, rtStringLen_eq h (Nat.lt_succ_self _),
      Exec.ok_bind, if_pos hlong]
  rw [or_iff_right hlong, ← copyNameAt_right_iff h]
  constructor
  · rintro ⟨fuel, taken, mem', hcall, hright⟩
    rw [networkDeviceName, if_neg hnull, hfirst, Exec.ok_bind, if_neg hchar] at hcall
    obtain ⟨len, hlen, hcall⟩ := Exec.bind_eq_ok.mp hcall
    obtain rfl : len = s.length := rtStringLen_unique h hlen
    rw [if_neg hlong] at hcall
    obtain ⟨copy, hcopy, hcall⟩ := Exec.bind_eq_ok.mp hcall
    cases hcall
    exact ⟨fuel, mem', hcopy, hright⟩
  · rintro ⟨fuel, mem', hcopy, hheld⟩
    refine ⟨fuel, true, mem', ?_, hheld⟩
    obtain ⟨len, hlen, -⟩ := Exec.bind_eq_ok.mp hcopy
    obtain rfl : len = s.length := rtStringLen_unique h hlen
    rw [networkDeviceName, if_neg hnull, hfirst, Exec.ok_bind, if_neg hchar, hlen, Exec.ok_bind, if_neg hlong, hcopy]
    rfl

theorem nameHeld_words_iff (h : StringAt mem a s) (hroom : 4 * s.length ≤ blobNameLen) :
    NameHeld (memcpy field a s.length mem) ⟨field, blobNameLen⟩ s ↔
      if s.1 = [] then mem field = 0 else Undisturbed 4 field a s (s.length + 1) := by
  by_cases hempty : s.1 = []
  · have hlen : s.length = 0 := List.length_eq_zero_iff.mpr hempty
    rw [if_pos hempty, nameHeld_iff (by simp [hlen]) (by rw [hlen]; decide), stringAt_iff_forall, hlen, hempty]
    simp [memcpy]
  · have hpos : 0 < s.length := List.length_pos_iff.mpr hempty
    have hcopy : ForwardCopy (memcpy field a s.length mem) (fun i => mem (a + i)) a field (s.length + 1)
        (CopiedOver 4 field a) := memcpy_forwardCopy (by omega)
    rw [if_neg hempty, nameHeld_iff (hcopy.ne_zero h (Nat.le_succ _)) (by omega), stringAt_iff_forall,
      ← hcopy.name_iff h (Nat.le_refl _)]
    simp only [Nat.lt_succ_iff]

theorem setNameRight_iff (h : StringAt mem a s) : SetNameRight mem a field s ↔
    4 * s.length ≤ blobNameLen ∧ if s.1 = [] then mem field = 0 else Undisturbed 4 field a s (s.length + 1) := by
  have hread : (Access.within ⟨a, 4 * s.length⟩).mayRead a (4 * s.length) = true :=
    decide_eq_true (.inr ⟨Nat.le_refl _, Nat.le_refl _⟩)
  have hwrite : (Access.within ⟨a, 4 * s.length⟩).mayWrite ⟨field, blobNameLen⟩ field (4 * s.length) = true ↔
      4 * s.length ≤ blobNameLen := by
    rw [Access.mayWrite, decide_eq_true_iff, Span.Holds]
    simp only
    omega
  constructor
  · rintro ⟨fuel, mem', hcall, hheld⟩
    obtain ⟨len, hlen, hcall⟩ := Exec.bind_eq_ok.mp hcall
    obtain rfl : len = s.length := rtStringLen_unique h hlen
    rw [copyMem] at hcall
    split_ifs at hcall with hin
    cases hcall
    have hroom := hwrite.mp hin.2
    exact ⟨hroom, (nameHeld_words_iff h hroom).mp hheld⟩
  · rintro ⟨hroom, hname⟩
    refine ⟨s.length + 1, memcpy field a s.length mem, ?_, (nameHeld_words_iff h hroom).mpr hname⟩
    have hlen : strlen (s.length + 1) a mem = .ok s.length := rtStringLen_eq h (Nat.lt_succ_self _)
    rw [bootThreadSetName, hlen, Exec.ok_bind, copyMem, if_pos ⟨hread, hwrite.mpr hroom⟩]

/-! ### The model of `Spawn` -/

end Names

/-! ### All of them -/

/-- `n` times the letter `a`. -/
def lettersA (n : Nat) : CString := ⟨List.replicate n 97, fun h => absurd (List.eq_of_mem_replicate h) (by decide)⟩

/-- When each of the four leaves the name, or a prefix of it, in its field, or refuses it, and writes nowhere else. -/
theorem name_fields_iff (mem : Store) (a field : Nat) (s : CString) (h : StringAt mem a s) :
    (SpawnNameRight mem a field s ↔ Fits kProcessNameLen field a s) ∧
    (∀ ringKind, UserOfRingRight ringKind mem a field s ↔ Fits kMaxUserNameLen field a s) ∧
    (∀ debug sel, UserOfNumberRight debug sel mem a field s ↔
      debug = true ∧ sel < 0 ∨ Fits kMaxUserNameLen field a s) ∧
    (NetworkNameRight mem a field s ↔
      a = 0 ∨ s.1 = [] ∨ cNetworkNameLen < s.length ∨ Fits cNetworkNameLen field a s) ∧
    (SetNameRight mem a field s ↔
      4 * s.length ≤ blobNameLen ∧ if s.1 = [] then mem field = 0 else Undisturbed 4 field a s (s.length + 1)) :=
  ⟨copyNameAt_right_iff h, fun _ => userOfRingRight_iff h, fun _ _ => userOfNumberRight_iff h,
    networkNameRight_iff h, setNameRight_iff h⟩

/-- The letter `a` at 16, for a field at 64. -/
theorem name_fields_a : SpawnNameRight (Store.write (fun _ => 0) 16 [97]) 16 64 letterA ∧
    UserOfRingRight kRingStdUser (Store.write (fun _ => 0) 16 [97]) 16 64 letterA ∧
    UserOfNumberRight true 1 (Store.write (fun _ => 0) 16 [97]) 16 64 letterA ∧
    NetworkNameRight (Store.write (fun _ => 0) 16 [97]) 16 64 letterA ∧
    SetNameRight (Store.write (fun _ => 0) 16 [97]) 16 64 letterA := by
  obtain ⟨hspawn, hring, hnumber, hnetwork, hset⟩ :=
    name_fields_iff (Store.write (fun _ => 0) 16 [97]) 16 64 letterA (by decide)
  have hstays : Undisturbed 1 64 16 letterA letterA.length := undisturbed_of_apart (.inr (by decide))
  refine ⟨hspawn.mpr ⟨by decide, hstays⟩, (hring _).mpr ⟨by decide, hstays⟩,
    (hnumber _ _).mpr (.inr ⟨by decide, hstays⟩), hnetwork.mpr (.inr (.inr (.inr ⟨by decide, hstays⟩))),
    hset.mpr ⟨by decide, ?_⟩⟩
  rw [if_neg (by decide)]
  exact undisturbed_of_apart (.inr (by decide))

/-- Names of as many letters as their fields have bytes, one of 64 letters for the boot thread, and the empty one while
it is called `BootThread`. -/
theorem names_overflow :
    ¬ SpawnNameRight (Store.write (fun _ => 0) 4096 ((lettersA 128).1 ++ [0])) 4096 16 (lettersA 128) ∧
    ¬ UserOfRingRight kRingStdUser (Store.write (fun _ => 0) 4096 ((lettersA 255).1 ++ [0])) 4096 16 (lettersA 255) ∧
    ¬ NetworkNameRight (Store.write (fun _ => 0) 4096 ((lettersA 512).1 ++ [0])) 4096 16 (lettersA 512) ∧
    ¬ SetNameRight (Store.write (fun _ => 0) 4096 ((lettersA 64).1 ++ [0])) 4096 16 (lettersA 64) ∧
    ¬ SetNameRight (Store.write (fun _ => 0) 16 [66, 111, 111, 116, 84, 104, 114, 101, 97, 100]) 4096 16
      (lettersA 0) := by
  have hlen : ∀ n, (lettersA n).length = n := fun n => List.length_replicate
  have hat : ∀ n, StringAt (Store.write (fun _ => 0) 4096 ((lettersA n).1 ++ [0])) 4096 (lettersA n) :=
    fun n => stringAt_write _ _ _
  refine ⟨fun h => ?_, fun h => ?_, fun h => ?_, fun h => ?_, fun h => ?_⟩
  · have hroom := ((copyNameAt_right_iff (hat 128)).mp h).1
    rw [hlen] at hroom
    exact absurd hroom (by decide)
  · have hroom := ((userOfRingRight_iff (hat 255)).mp h).1
    rw [hlen] at hroom
    exact absurd hroom (by decide)
  · rcases (networkNameRight_iff (hat 512)).mp h with hnull | hempty | hlong | hroom
    · exact absurd hnull (by decide)
    · exact absurd hempty (List.cons_ne_nil _ _)
    · rw [hlen] at hlong
      exact absurd hlong (by decide)
    · have hroom := hroom.1
      rw [hlen] at hroom
      exact absurd hroom (by decide)
  · have hroom := ((setNameRight_iff (hat 64)).mp h).1
    rw [hlen] at hroom
    exact absurd hroom (by decide)
  · have hname := ((setNameRight_iff (by decide)).mp h).2
    rw [if_pos (show (lettersA 0).1 = [] from rfl)] at hname
    exact absurd hname (by decide)

end OpenNE

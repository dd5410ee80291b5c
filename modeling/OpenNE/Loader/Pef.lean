import OpenNE.Base.Codec
import OpenNE.Base.KString

/-!
# Symbols of an executable (`KernelKit/PEF.h`, `src/PEFCodeMgr.cc`)

`FindSymbol` builds the name to look for, the prefix of the kind with the mangled name behind it, and goes through
the command headers of the blob. The pointer to the header never moves: as often as the container has headers, the
first one is looked at (`searchHeaders_header`). The buffer of the name is as long as the prefix alone, and already
its zeroing goes past its end (`findSymbol_overruns`).
-/

namespace OpenNE

def kPefNameLen : Nat := 255

def kPefArchAMD64 : UInt32 := 1

def kPefCode : Int32 := 0xC
def kPefData : Int32 := 0xD
def kPefZero : Int32 := 0xE

/-- `PEFCommandHeader`. -/
structure PEFCommandHeader where
  Name : Bytes kPefNameLen
  Cpu : UInt32
  SubCpu : UInt32
  Flags : UInt32
  Kind : UInt16
  Offset : UInt64
  Size : UInt64

/-- The packed image. -/
def PEFCommandHeader.codec : Codec PEFCommandHeader :=
  ((Codec.bytes kPefNameLen).pair <| Codec.u32.pair <| Codec.u32.pair <| Codec.u32.pair <| Codec.u16.pair <|
      Codec.u64.pair Codec.u64).map
    (fun ⟨name, cpu, subCpu, flags, kind, offset, size⟩ => ⟨name, cpu, subCpu, flags, kind, offset, size⟩)
    (fun h => (h.Name, h.Cpu, h.SubCpu, h.Flags, h.Kind, h.Offset, h.Size))
    (fun _ => rfl) (fun _ => rfl)

/-- `sizeof(PEFCommandHeader)`. -/
def pefHeaderSize : Nat := PEFCommandHeader.codec.size

/-- What `FindSymbol` reads of the loader; `Count` is that of the container of the cached blob, if there is one. -/
structure PEFLoader where
  Count : Option UInt64
  fBad : Bool
  fFatBinary : Bool

/-- What is left to the rest of the kernel. -/
structure PefEnv where
  debug : Bool
  /-- `ldr_get_platform()` -/
  platform : UInt32
  /-- `fFile->Read(name, mib_cast(16))` -/
  read : CString → Option (List UInt8)
  /-- what stands where `new` puts the buffer of the name -/
  fresh : Option (List UInt8)
  /-- whether `new Char[Size]` gives a buffer -/
  allocates : UInt64 → Bool
  /-- what a string object reads as once it is gone -/
  leaked : KString → KString

/-- `cContainerKinds`, by the kind. -/
def containerKind (kind : Int32) : Option CString :=
  if kind = kPefCode then some ⟨[46, 99, 111, 100, 101, 54, 52], by decide⟩ -- .code64
  else if kind = kPefData then some ⟨[46, 100, 97, 116, 97, 54, 52], by decide⟩ -- .data64
  else if kind = kPefZero then some ⟨[46, 122, 101, 114, 111, 54, 52], by decide⟩ -- .zero64
  else none

/-- A blank becomes `cMangleCharacter`. -/
def mangleChar (c : UInt8) : UInt8 := if c = 32 then 36 else c

theorem mangleChar_ne_zero {c : UInt8} (h : c ≠ 0) : mangleChar c ≠ 0 := by
  unfold mangleChar
  split_ifs
  · decide
  · exact h

/-- The mangled name: blanks are replaced in the first `rt_string_len(name, kPefNameLen)` characters, which are all
of them up to one more than `kPefNameLen`. -/
def mangle (name : CString) : CString :=
  let len := if name.length ≤ kPefNameLen + 1 then name.length else kPefNameLen
  ⟨(name.1.take len).map mangleChar ++ name.1.drop len, by
    intro hmem
    rcases List.mem_append.mp hmem with hmem | hmem
    · obtain ⟨c, hc, hzero⟩ := List.mem_map.mp hmem
      refine mangleChar_ne_zero ?_ hzero
      rintro rfl
      exact name.2 (List.mem_of_mem_take hc)
    · exact name.2 (List.mem_of_mem_drop hmem)⟩

/-- The header that stands at the start of `bytes`. -/
def commandHeader (bytes : List UInt8) : Exec PEFCommandHeader :=
  if bytes.length < pefHeaderSize then .error .fault
  else .ok (PEFCommandHeader.codec.dec (bytes.take pefHeaderSize))

/-- The `Cpu` of a header is accepted. -/
def acceptsCpu (env : PefEnv) (loader : PEFLoader) (header : PEFCommandHeader) : Bool :=
  header.Cpu = env.platform || loader.fFatBinary

/-- The content copied behind the header: one more byte is written than the buffer has. -/
def copyContent (env : PefEnv) (blob : List UInt8) (size : UInt64) : Writing (List UInt8) :=
  if env.allocates size = false then Call.stop .fault
  else do
    Writing.log ⟨max size.toNat 1, size.toNat + 1⟩
    if blob.length < pefHeaderSize + size.toNat then Call.stop .fault
    else return (blob.drop pefHeaderSize).take size.toNat

/-- One round of the loop over the headers: with what it returns, or nothing to go on with. -/
def headerRound (env : PefEnv) (loader : PEFLoader) (blob : Option (List UInt8)) (symbol : KString) (kind : Int32) :
    Writing (Option (Option (List UInt8))) := do
  let blob ← Call.lift (deref blob)
  let header ← Call.lift (commandHeader blob)
  let name ← Call.lift (cString blob)
  let wanted ← Call.lift symbol.cData
  if name = wanted ∧ header.Kind.toUInt32.toInt32 = kind then
    if acceptsCpu env loader header = false then return some none
    else
      let value ← copyContent env blob header.Size
      return some (some value)
  else return none

/-- The loop over the headers. -/
def searchHeaders (env : PefEnv) (loader : PEFLoader) (blob : Option (List UInt8)) (symbol : KString) (kind : Int32) :
    Nat → Writing (Option (List UInt8))
  | 0 => pure none
  | rounds + 1 => do
    -- `container_header` is not advanced
    match ← headerRound env loader blob symbol kind with
    | some value => return value
    | none => searchHeaders env loader blob symbol kind rounds

/-- `FindSymbol`. -/
def findSymbol (env : PefEnv) (loader : PEFLoader) (name : Option CString) (kind : Int32) :
    Writing (Option (List UInt8)) :=
  match loader.Count, name with
  | some count, some name =>
    if loader.fBad = true then pure none
    else
      let blob := env.read name
      match containerKind kind with
      | none => pure none
      | some containerKind => do
        let symbol ← StringBuilder.construct env.debug env.fresh (some containerKind)
        -- the reference in the `ErrorOr` is to a parameter of a call that is over
        let symbol ← Call.lift (deref (symbol.map env.leaked))
        let symbol ← symbol.append (mangle name)
        searchHeaders env loader blob symbol kind count.toNat
  | _, _ => pure none

/-! ### Only the first header is looked at -/

section Search

variable {env : PefEnv} {loader : PEFLoader} {blob : Option (List UInt8)} {symbol : KString} {kind : Int32}
  {log : List BufferWrite} {value : List UInt8}

/-- The first header of `blob` is one of the kind for an accepted CPU, and `value` stands behind it. -/
def FromFirstHeader (env : PefEnv) (loader : PEFLoader) (kind : Int32) (blob : Option (List UInt8))
    (value : List UInt8) : Prop :=
  ∃ bytes header, blob = some bytes ∧ commandHeader bytes = .ok header ∧ header.Kind.toUInt32.toInt32 = kind ∧
    acceptsCpu env loader header = true ∧ value = (bytes.drop pefHeaderSize).take header.Size.toNat

theorem copyContent_eq_ok {bytes : List UInt8} {size : UInt64} (h : (copyContent env bytes size log).1 = .ok value) :
    value = (bytes.drop pefHeaderSize).take size.toNat := by
  unfold copyContent at h
  by_cases hnew : env.allocates size = false
  · rw [if_pos hnew] at h
    cases h
  rw [if_neg hnew] at h
  obtain ⟨_, log', -, hcopy⟩ := Call.bind_eq_ok.mp h
  by_cases hshort : bytes.length < pefHeaderSize + size.toNat
  · rw [if_pos hshort] at hcopy
    cases hcopy
  · rw [if_neg hshort] at hcopy
    cases hcopy
    rfl

theorem headerRound_value (h : (headerRound env loader blob symbol kind log).1 = .ok (some (some value))) :
    FromFirstHeader env loader kind blob value := by
  rcases blob with _ | bytes
  · obtain ⟨_, hnull, -⟩ := Call.lift_bind_eq_ok.mp h
    cases hnull
  obtain ⟨_, hblob, hround⟩ := Call.lift_bind_eq_ok.mp h
  cases hblob
  obtain ⟨header, hheader, hround⟩ := Call.lift_bind_eq_ok.mp hround
  obtain ⟨name, -, hround⟩ := Call.lift_bind_eq_ok.mp hround
  obtain ⟨wanted, -, hround⟩ := Call.lift_bind_eq_ok.mp hround
  by_cases hmatch : name = wanted ∧ header.Kind.toUInt32.toInt32 = kind
  · rw [if_pos hmatch] at hround
    by_cases hcpu : acceptsCpu env loader header = false
    · rw [if_pos hcpu] at hround
      cases hround
    · rw [if_neg hcpu] at hround
      obtain ⟨content, log', hcopy, hret⟩ := Call.bind_eq_ok.mp hround
      cases hret
      have hcontent := copyContent_eq_ok (congrArg Prod.fst hcopy)
      exact ⟨_, header, rfl, hheader, hmatch.2, Bool.eq_true_of_not_eq_false hcpu, hcontent⟩
  · rw [if_neg hmatch] at hround
    cases hround

theorem searchHeaders_header {rounds : Nat}
    (h : (searchHeaders env loader blob symbol kind rounds log).1 = .ok (some value)) :
    FromFirstHeader env loader kind blob value := by
  induction rounds generalizing log with
  | zero => cases h
  | succ rounds ih =>
    obtain ⟨found, log', hround, h⟩ := Call.bind_eq_ok.mp h
    rcases found with _ | found
    · exact ih h
    · cases h
      exact headerRound_value (congrArg Prod.fst hround)

theorem keeps_copyContent {bytes : List UInt8} {size : UInt64} :
    Call.Keeps Overran (fun _ => True) (copyContent env bytes size) := by
  unfold copyContent
  split_ifs
  · exact .stop _
  · apply Call.Keeps.seq (Writing.keeps_log _)
    intro _
    exact .stop _
  · apply Call.Keeps.seq (Writing.keeps_log _)
    intro _
    exact .pure trivial

theorem keeps_searchHeaders (rounds : Nat) :
    Call.Keeps Overran (fun _ => True) (searchHeaders env loader blob symbol kind rounds) := by
  induction rounds with
  | zero => exact .pure trivial
  | succ rounds ih =>
    apply Call.Keeps.seq
    · apply Call.Keeps.seq (.lift _)
      intro bytes
      apply Call.Keeps.seq (.lift _)
      intro header
      apply Call.Keeps.seq (.lift _)
      intro name
      apply Call.Keeps.seq (.lift _)
      intro wanted
      split_ifs
      · exact .pure trivial
      · apply Call.Keeps.seq keeps_copyContent
        intro content
        exact .pure trivial
      · exact .pure trivial
    · intro found
      cases found with
      | none => exact ih
      | some value => exact .pure trivial

end Search

/-! ### `FindSymbol` -/

/-- The header at index `i` is the one to find: its name is the prefix with the name behind it, blanks replaced. -/
def Wanted (env : PefEnv) (loader : PEFLoader) (name : CString) (kind : Int32) (blob : List UInt8) (i : Nat) : Prop :=
  ∃ kindName headerName header, containerKind kind = some kindName ∧
    cString (blob.drop (i * pefHeaderSize)) = .ok headerName ∧ headerName.1 = kindName.1 ++ name.1.map mangleChar ∧
    commandHeader (blob.drop (i * pefHeaderSize)) = .ok header ∧ header.Kind.toUInt32.toInt32 = kind ∧
    acceptsCpu env loader header = true

/-- The contract, what the value holds aside: the call returns, with a value exactly when one of the headers is the
one to find, and writes inside of its buffers only. -/
structure FindsSymbol (env : PefEnv) (loader : PEFLoader) (name : CString) (kind : Int32) (count : UInt64) :
    Prop where
  returns : ∃ value, (findSymbol env loader (some name) kind []).1 = .ok value ∧
    (value.isSome = true ↔ ∃ blob, env.read name = some blob ∧ ∃ i < count.toNat, Wanted env loader name kind blob i)
  inBounds : ∀ w ∈ (findSymbol env loader (some name) kind []).2, w.InBounds

theorem containerKind_some {kind : Int32} (h : kind ∈ [kPefCode, kPefData, kPefZero]) :
    ∃ kindName, containerKind kind = some kindName ∧ 1 < kindName.length := by
  simp only [List.mem_cons, List.not_mem_nil, or_false] at h
  rcases h with rfl | rfl | rfl
  · exact ⟨_, rfl, by decide⟩
  · exact ⟨_, rfl, by decide⟩
  · exact ⟨_, rfl, by decide⟩

section FindSymbol

variable {env : PefEnv} {loader : PEFLoader} {name kindName : CString} {kind : Int32} {count : UInt64}
  {log : List BufferWrite}

theorem findSymbol_loaded (hcount : loader.Count = some count) (hgood : loader.fBad = false)
    (hkind : containerKind kind = some kindName) :
    findSymbol env loader (some name) kind =
      StringBuilder.construct env.debug env.fresh (some kindName) >>= fun symbol =>
        Call.lift (deref (symbol.map env.leaked)) >>= fun symbol => symbol.append (mangle name) >>= fun symbol =>
          searchHeaders env loader (env.read name) symbol kind count.toNat := by
  unfold findSymbol
  rw [hcount]
  dsimp only
  rw [hgood, if_neg (by decide), hkind]

theorem findSymbol_search (hcount : loader.Count = some count) (hgood : loader.fBad = false)
    (hkind : containerKind kind = some kindName) {view symbol : KString} {log' : List BufferWrite}
    (hview : StringBuilder.construct env.debug env.fresh (some kindName) [] = (.ok (some view), log))
    (happend : (env.leaked view).append (mangle name) log = (.ok symbol, log')) :
    findSymbol env loader (some name) kind [] =
      searchHeaders env loader (env.read name) symbol kind count.toNat log' := by
  have hleaked : deref ((some view).map env.leaked) = .ok (env.leaked view) := rfl
  rw [findSymbol_loaded hcount hgood hkind, Call.bind_of_ok hview, Call.lift_bind_of_ok hleaked,
    Call.bind_of_ok happend]

theorem findSymbol_overruns (hcount : loader.Count = some count) (hgood : loader.fBad = false)
    (hkind : containerKind kind = some kindName) (hlength : 1 < kindName.length) {bytes : List UInt8}
    (hfresh : env.fresh = some bytes) (log : List BufferWrite) :
    Overran (findSymbol env loader (some name) kind log).2 := by
  rw [findSymbol_loaded hcount hgood hkind, hfresh]
  apply Call.Keeps.after (StringBuilder.construct_overruns hlength log)
  intro symbol
  apply Call.Keeps.seq (.lift _)
  intro symbol
  apply Call.Keeps.seq (KString.keeps_append _ symbol)
  intro symbol
  exact keeps_searchHeaders _

theorem findSymbol_header (hcount : loader.Count = some count) (hgood : loader.fBad = false)
    (hkind : containerKind kind = some kindName) {value : List UInt8}
    (h : (findSymbol env loader (some name) kind log).1 = .ok (some value)) :
    FromFirstHeader env loader kind (env.read name) value := by
  rw [findSymbol_loaded hcount hgood hkind] at h
  obtain ⟨_, _, -, h⟩ := Call.bind_eq_ok.mp h
  obtain ⟨_, -, h⟩ := Call.lift_bind_eq_ok.mp h
  obtain ⟨_, _, -, h⟩ := Call.bind_eq_ok.mp h
  exact searchHeaders_header h

/-- A loaded executable, any name and one of the three kinds: the contract is never kept, since the buffer of the
name is overrun whenever there is one; and a value that is returned comes from the first header. -/
theorem findSymbol_never (env : PefEnv) (name : CString) (hcount : loader.Count = some count)
    (hgood : loader.fBad = false) (hkind : kind ∈ [kPefCode, kPefData, kPefZero]) :
    ¬ FindsSymbol env loader name kind count ∧
      ∀ value, (findSymbol env loader (some name) kind []).1 = .ok (some value) →
        FromFirstHeader env loader kind (env.read name) value := by
  obtain ⟨kindName, hkindName, hlength⟩ := containerKind_some hkind
  constructor
  · rintro ⟨⟨value, hret, -⟩, hin⟩
    rcases hfresh : env.fresh with _ | bytes
    · rw [findSymbol_loaded hcount hgood hkindName, hfresh] at hret
      obtain ⟨view, log', hview, -⟩ := Call.bind_eq_ok.mp hret
      have hne : kindName.1 ≠ [] := List.ne_nil_of_length_pos (Nat.lt_trans Nat.one_pos hlength)
      exact StringBuilder.construct_null hne [] view (congrArg Prod.fst hview)
    · have hoverran : Overran (findSymbol env loader (some name) kind []).2 :=
        findSymbol_overruns hcount hgood hkindName hlength hfresh []
      obtain ⟨w, hw, hover⟩ := hoverran
      exact hover (hin w hw)
  · intro value hret
    exact findSymbol_header hcount hgood hkindName hret

end FindSymbol

/-! ### A symbol behind the first header -/

/-- A header for code of the machine, without content. -/
def codeHeader (name : CString) : PEFCommandHeader :=
  ⟨⟨(name.1 ++ List.replicate kPefNameLen 0).take kPefNameLen, by simp⟩, kPefArchAMD64, 0, 0, 0xC, 0, 0⟩

def symbolA : CString := letterA
def headerNameA : CString := ⟨[46, 99, 111, 100, 101, 54, 52, 97], by decide⟩
def headerNameB : CString := ⟨[46, 99, 111, 100, 101, 54, 52, 98], by decide⟩

/-- The symbol `b` and behind it the symbol `a`. -/
def twoSymbols : List UInt8 :=
  PEFCommandHeader.codec.enc (codeHeader headerNameB) ++ PEFCommandHeader.codec.enc (codeHeader headerNameA)

def twoSymbolsEnv : PefEnv where
  debug := true
  platform := kPefArchAMD64
  read _ := some twoSymbols
  fresh := some (List.replicate 32 0)
  allocates _ := true
  leaked := id

def twoSymbolsLoader : PEFLoader := ⟨some 2, false, false⟩

theorem findSymbol_never_two :
    ¬ FindsSymbol twoSymbolsEnv twoSymbolsLoader symbolA kPefCode 2 ∧
      ∀ value, (findSymbol twoSymbolsEnv twoSymbolsLoader (some symbolA) kPefCode []).1 = .ok (some value) →
        FromFirstHeader twoSymbolsEnv twoSymbolsLoader kPefCode (some twoSymbols) value :=
  findSymbol_never twoSymbolsEnv symbolA rfl rfl (by decide)

section TwoSymbols

variable {env : PefEnv} {loader : PEFLoader} {symbol : KString} {kind : Int32} {header : PEFCommandHeader}
  {bytes : List UInt8} {name wanted : CString}

theorem commandHeader_enc : commandHeader (PEFCommandHeader.codec.enc header ++ bytes) = .ok header := by
  have hlen : (PEFCommandHeader.codec.enc header).length = pefHeaderSize := PEFCommandHeader.codec.enc_length header
  rw [commandHeader, if_neg (by simp [hlen]), List.take_left' hlen, PEFCommandHeader.codec.dec_enc]

theorem cString_header (hname : header.Name.1 = (name.1 ++ List.replicate kPefNameLen 0).take kPefNameLen)
    (h : name.length < kPefNameLen) : cString (PEFCommandHeader.codec.enc header ++ bytes) = .ok name := by
  have hfield : header.Name.1 = name.1 ++ 0 :: List.replicate (kPefNameLen - name.length - 1) 0 := by
    have hrest : kPefNameLen - name.length = kPefNameLen - name.length - 1 + 1 := by omega
    rw [hname, List.take_append, List.take_of_length_le (Nat.le_of_lt h), List.take_replicate,
      Nat.min_eq_left (Nat.sub_le _ _), ← List.replicate_succ]
    exact congrArg (fun n => name.1 ++ List.replicate n 0) hrest
  have henc : ∃ tail, PEFCommandHeader.codec.enc header = header.Name.1 ++ tail := ⟨_, rfl⟩
  obtain ⟨tail, henc⟩ := henc
  rw [henc, hfield, List.append_assoc, List.append_assoc, List.cons_append]
  exact cString_terminated

theorem cString_codeHeader (h : name.length < kPefNameLen) :
    cString (PEFCommandHeader.codec.enc (codeHeader name) ++ bytes) = .ok name :=
  cString_header rfl h

theorem searchHeaders_first (hheader : commandHeader bytes = .ok header) (hname : cString bytes = .ok name)
    (hwanted : symbol.cData = .ok name) (hkind : header.Kind.toUInt32.toInt32 = kind)
    (hcpu : acceptsCpu env loader header = true) (hnew : env.allocates header.Size = true)
    (hlong : pefHeaderSize + header.Size.toNat ≤ bytes.length) (rounds : Nat) (log : List BufferWrite) :
    (searchHeaders env loader (some bytes) symbol kind (rounds + 1) log).1 =
      .ok (some ((bytes.drop pefHeaderSize).take header.Size.toNat)) := by
  have hround : headerRound env loader (some bytes) symbol kind log =
      (.ok (some (some ((bytes.drop pefHeaderSize).take header.Size.toNat))),
        log ++ [⟨max header.Size.toNat 1, header.Size.toNat + 1⟩]) := by
    have hblob : deref (some bytes) = .ok bytes := rfl
    unfold headerRound copyContent
    rw [Call.lift_bind_of_ok hblob, Call.lift_bind_of_ok hheader, Call.lift_bind_of_ok hname,
      Call.lift_bind_of_ok hwanted, if_pos ⟨rfl, hkind⟩, if_neg (by simp [hcpu]), if_neg (by simp [hnew]),
      if_neg (Nat.not_lt.mpr hlong)]
    rfl
  unfold searchHeaders
  rw [Call.bind_of_ok hround]
  rfl

theorem searchHeaders_none (hheader : commandHeader bytes = .ok header) (hname : cString bytes = .ok name)
    (hwanted : symbol.cData = .ok wanted) (hne : name ≠ wanted) (rounds : Nat) (log : List BufferWrite) :
    searchHeaders env loader (some bytes) symbol kind rounds log = (.ok none, log) := by
  have hround : headerRound env loader (some bytes) symbol kind log = (.ok none, log) := by
    have hblob : deref (some bytes) = .ok bytes := rfl
    unfold headerRound
    rw [Call.lift_bind_of_ok hblob, Call.lift_bind_of_ok hheader, Call.lift_bind_of_ok hname,
      Call.lift_bind_of_ok hwanted, if_neg (fun h => hne h.1)]
    rfl
  induction rounds with
  | zero => rfl
  | succ rounds ih =>
    unfold searchHeaders
    rw [Call.bind_of_ok hround]
    exact ih

end TwoSymbols

/-- `.code64`, in a buffer of its length. -/
def kindView : KString := ⟨[46, 99, 111, 100, 101, 54, 52] ++ List.replicate 25 0, 7, 7⟩

/-- `.code64a`, in the same buffer. -/
def symbolView : KString := ⟨headerNameA.1 ++ 0 :: List.replicate 23 0, 7, 8⟩

theorem construct_kindView :
    StringBuilder.construct true (some (List.replicate 32 0)) (containerKind kPefCode) [] =
      (.ok (some kindView), [⟨7, 28⟩, ⟨7, 7⟩]) :=
  rfl

theorem append_symbolView :
    kindView.append (mangle symbolA) [⟨7, 28⟩, ⟨7, 7⟩] = (.ok symbolView, [⟨7, 28⟩, ⟨7, 7⟩, ⟨7, 8⟩]) := by
  have hmangle : mangle symbolA = symbolA := Subtype.ext (by decide)
  rw [hmangle]
  rfl

/-- The symbol `a` is there and is not found. -/
theorem second_symbol_not_found :
    Wanted twoSymbolsEnv twoSymbolsLoader symbolA kPefCode twoSymbols 1 ∧
      (findSymbol twoSymbolsEnv twoSymbolsLoader (some symbolA) kPefCode []).1 = .ok none := by
  constructor
  · have hbehind : twoSymbols.drop (1 * pefHeaderSize) =
        PEFCommandHeader.codec.enc (codeHeader headerNameA) ++ [] := by
      rw [Nat.one_mul, List.append_nil]
      exact List.drop_left' (PEFCommandHeader.codec.enc_length _)
    refine ⟨_, headerNameA, codeHeader headerNameA, rfl, ?_, rfl, ?_, rfl, rfl⟩
    · rw [hbehind]
      exact cString_codeHeader (by decide)
    · rw [hbehind]
      exact commandHeader_enc
  · have hwanted : symbolView.cData = .ok headerNameA := cString_terminated
    have hne : headerNameB ≠ headerNameA := fun h => absurd (congrArg Subtype.val h) (by decide)
    have hsearch : findSymbol twoSymbolsEnv twoSymbolsLoader (some symbolA) kPefCode [] = _ :=
      findSymbol_search rfl rfl rfl construct_kindView append_symbolView
    rw [hsearch]
    exact congrArg Prod.fst
      (searchHeaders_none commandHeader_enc (cString_codeHeader (by decide)) hwanted hne _ _)

end OpenNE

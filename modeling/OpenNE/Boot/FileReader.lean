import OpenNE.Base.Exec
import OpenNE.Base.Store
import Mathlib.Algebra.BigOperators.Fin
import Mathlib.Algebra.Order.BigOperators.Group.Finset

/-!
# Reading the boot file (`src/BootFileReader.cc`)

`ReadAll` offers the device the size it reported last and not what is left of the buffer, and counts that size
whatever the status. So a file is read as it should be where the device happens to report what adds up to it, and
never more than is left (`readsFile_iff`).
-/

namespace OpenNE

/-! ### The device -/

/-- The statuses the reader knows. -/
def kEfiOk : UInt64 := 0

def kBufferTooSmall : UInt64 := 5

/-- What a call of `Read` comes to: the status, and the size as it stands afterwards. -/
structure ReadAnswer where
  status : UInt64
  size : UInt64

/-- How many bytes it placed. -/
def ReadAnswer.placed (answer : ReadAnswer) : Nat := if answer.status = kEfiOk then answer.size.toNat else 0

/-- A file, and what the calls come to, one after the other. -/
structure EfiFile where
  bytes : List UInt8
  answers : Nat → ReadAnswer

/-- The memory, the position in the file and what was offered so far, each an address and a size. -/
structure EfiFileState where
  mem : Store
  position : Nat
  offered : List (Nat × Nat)

/-- `Read`. -/
def EfiFile.read (file : EfiFile) (size : UInt64) (out : Nat) (dev : EfiFileState) : ReadAnswer × EfiFileState :=
  let answer := file.answers dev.offered.length
  (answer,
    { mem := dev.mem.write out ((file.bytes.drop dev.position).take answer.placed)
      position := dev.position + answer.placed
      offered := dev.offered ++ [(out, size.toNat)] })

/-! ### The code -/

/-- What `Error` returns. -/
inductive BFileReaderError where
  | kOperationOkay
  | kNotSupported
  | kEmptyDirectory
  | kNoSuchEntry
  | kIsDirectory
  | kTooSmall
  deriving DecidableEq

/-- `BFileReader`, of an open file. -/
structure BFileReader where
  mErrorCode : BFileReaderError
  mBlob : Nat
  mSizeFile : UInt64
  deriving DecidableEq

/-- As the constructor leaves it. -/
def BFileReader.opened : BFileReader := ⟨.kOperationOkay, 0, 0⟩

/-- The loop. -/
structure ReadState where
  szCnt : UInt64
  bufSize : UInt64
  dev : EfiFileState

section Round

variable (file : EfiFile) (chunkToRead : UInt64) (mBlob : Nat)

/-- What it does as long as there is room. -/
def ReadState.read (s : ReadState) : ReadState :=
  let (answer, dev) := file.read s.bufSize (mBlob + s.szCnt.toNat) s.dev
  ⟨s.szCnt + answer.size, if answer.status = kBufferTooSmall then chunkToRead else answer.size, dev⟩

/-- A round. -/
def ReadState.round (readUntil : UInt64) (s : ReadState) : Exec (ReadState ⊕ ReadState) :=
  .ok (if s.szCnt < readUntil then .inl (s.read file chunkToRead mBlob) else .inr s)

end Round

namespace BFileReader

/-- The buffer: the one there is, the one at hand or one from the pool, which has one unless `pool` is `none`. -/
def blobFor (pool : Option Nat) (outAddress : Nat) (self : BFileReader) : Exec Nat :=
  if self.mBlob ≠ 0 then .ok self.mBlob
  else if outAddress ≠ 0 then .ok outAddress
  else
    match pool with
    | some blob => .ok blob
    | none => .error .panic

/-- `ReadAll`, when `info` is the size `GetInfo` reports, if it succeeds; at most `fuel` rounds of the loop. -/
def readAll (file : EfiFile) (info : Option UInt64) (pool : Option Nat) (fuel : Nat) (self : BFileReader)
    (dev : EfiFileState) (readUntil chunkToRead : UInt64) (outAddress : Nat) : Exec (BFileReader × EfiFileState) := do
  let readUntil := info.getD readUntil
  if readUntil = 0 then .ok ({ self with mErrorCode := .kNotSupported }, dev)
  else
    let mBlob ← self.blobFor pool outAddress
    let s ← loop (ReadState.round file chunkToRead mBlob readUntil) fuel ⟨0, chunkToRead, dev⟩
    .ok (⟨.kOperationOkay, mBlob, s.szCnt⟩, s.dev)

end BFileReader

/-! ### What it is for -/

/-- The bytes the first `n` calls placed. -/
def placedBefore (answers : Nat → ReadAnswer) (n : Nat) : Nat := ∑ i ∈ Finset.range n, (answers i).placed

/-- What the loop offers in its rounds. -/
def requested (chunkToRead : UInt64) (answers : Nat → ReadAnswer) : Nat → UInt64
  | 0 => chunkToRead
  | i + 1 => if (answers i).status = kBufferTooSmall then chunkToRead else (answers i).size

/-- An answer as it may be: no more bytes than asked for and than there are left, none only at the end of the file;
or an error that speaks of no size that no memory has. -/
def ReadAnswer.Conforms (asked left : Nat) (answer : ReadAnswer) : Prop :=
  if answer.status = kEfiOk then
    answer.size.toNat ≤ asked ∧ answer.size.toNat ≤ left ∧ (answer.size = 0 → left = 0)
  else answer.size.toNat ≤ 2 ^ 63

instance (asked left : Nat) (answer : ReadAnswer) : Decidable (answer.Conforms asked left) :=
  inferInstanceAs (Decidable (if answer.status = kEfiOk then
    answer.size.toNat ≤ asked ∧ answer.size.toNat ≤ left ∧ (answer.size = 0 → left = 0)
  else answer.size.toNat ≤ 2 ^ 63))

/-- All of them. -/
def EfiFile.Conforms (file : EfiFile) (chunkToRead : UInt64) : Prop :=
  ∀ i, (file.answers i).Conforms (requested chunkToRead file.answers i).toNat
    (file.bytes.length - placedBefore file.answers i)

/-- A reading as it should be. -/
structure WholeRead (file : EfiFile) (readUntil : UInt64) (reader : BFileReader) (dev : EfiFileState) : Prop where
  within : ∀ offer ∈ dev.offered, offer.1 + offer.2 ≤ reader.mBlob + readUntil.toNat
  size : reader.mSizeFile.toNat = dev.position
  content : dev.mem.read reader.mBlob reader.mSizeFile.toNat = file.bytes.take reader.mSizeFile.toNat
  whole : reader.mErrorCode = .kOperationOkay → reader.mSizeFile.toNat = file.bytes.length

/-- The call ends, and the reading is as it should be. -/
def ReadsFile (file : EfiFile) (info : Option UInt64) (pool : Option Nat) (mem : Store) (readUntil chunkToRead : UInt64)
    (outAddress : Nat) : Prop :=
  ∃ fuel reader dev, BFileReader.readAll file info pool fuel .opened ⟨mem, 0, []⟩ readUntil chunkToRead outAddress =
      .ok (reader, dev) ∧ WholeRead file (info.getD readUntil) reader dev

/-- Where it is: there is nothing to read, or the room is that of the file, some calls place all of it, the errors
among them speak of no bytes, and before each of them no more is offered than is left. -/
def ReadFits (file : EfiFile) (readUntil chunkToRead : UInt64) : Prop :=
  readUntil = 0 ∨
    (readUntil.toNat = file.bytes.length ∧ ∃ n, placedBefore file.answers n = file.bytes.length ∧
      ∀ i < n, ((file.answers i).status ≠ kEfiOk → (file.answers i).size = 0) ∧
        placedBefore file.answers i + (requested chunkToRead file.answers i).toNat ≤ file.bytes.length)

/-! ### The bytes -/

section Bytes

variable {answers : Nat → ReadAnswer}

theorem ReadAnswer.placed_le (answer : ReadAnswer) : answer.placed ≤ answer.size.toNat := by
  rw [ReadAnswer.placed]
  split
  · exact Nat.le_refl _
  · exact Nat.zero_le _

theorem ReadAnswer.placed_eq_iff {answer : ReadAnswer} :
    answer.placed = answer.size.toNat ↔ (answer.status ≠ kEfiOk → answer.size = 0) := by
  rw [ReadAnswer.placed]
  by_cases hok : answer.status = kEfiOk
  · rw [if_pos hok]
    exact iff_of_true rfl fun herror => absurd hok herror
  · rw [if_neg hok]
    constructor
    · intro hzero _
      exact UInt64.toNat_inj.mp hzero.symm
    · intro hzero
      rw [hzero hok]
      rfl

theorem placedBefore_succ (n : Nat) : placedBefore answers (n + 1) = placedBefore answers n + (answers n).placed :=
  Finset.sum_range_succ _ n

theorem placedBefore_mono {m n : Nat} (h : m ≤ n) : placedBefore answers m ≤ placedBefore answers n :=
  Finset.sum_le_sum_of_subset (Finset.range_mono h)

/-- The sizes the first `n` calls reported. -/
def sizesBefore (answers : Nat → ReadAnswer) (n : Nat) : Nat := ∑ i ∈ Finset.range n, (answers i).size.toNat

theorem sizesBefore_succ (n : Nat) :
    sizesBefore answers (n + 1) = sizesBefore answers n + (answers n).size.toNat :=
  Finset.sum_range_succ _ n

theorem placedBefore_eq_sizesBefore_iff {n : Nat} :
    placedBefore answers n = sizesBefore answers n ↔
      ∀ i < n, (answers i).status ≠ kEfiOk → (answers i).size = 0 := by
  rw [placedBefore, sizesBefore, Finset.sum_eq_sum_iff_of_le fun i _ => (answers i).placed_le]
  simp only [Finset.mem_range, ReadAnswer.placed_eq_iff]

end Bytes

/-! ### The rounds -/

section Rounds

variable (file : EfiFile) (chunkToRead : UInt64) (mBlob : Nat) (mem : Store)

/-- The state after `n` rounds, as long as there is room. -/
def readsAfter : Nat → ReadState
  | 0 => ⟨0, chunkToRead, ⟨mem, 0, []⟩⟩
  | n + 1 => (readsAfter n).read file chunkToRead mBlob

/-- What a round offers: where, and how much. -/
def offerOf (n : Nat) : Nat × Nat :=
  (mBlob + (readsAfter file chunkToRead mBlob mem n).szCnt.toNat, (requested chunkToRead file.answers n).toNat)

variable {file chunkToRead mBlob mem}

theorem readsAfter_calls (n : Nat) : (readsAfter file chunkToRead mBlob mem n).dev.offered.length = n := by
  induction n with
  | zero => rfl
  | succ n ih =>
    simp only [readsAfter, ReadState.read, EfiFile.read, List.length_append, ih]
    rfl

theorem readsAfter_succ (n : Nat) :
    readsAfter file chunkToRead mBlob mem (n + 1) =
      ⟨(readsAfter file chunkToRead mBlob mem n).szCnt + (file.answers n).size,
        requested chunkToRead file.answers (n + 1),
        { mem := (readsAfter file chunkToRead mBlob mem n).dev.mem.write
            (mBlob + (readsAfter file chunkToRead mBlob mem n).szCnt.toNat)
            ((file.bytes.drop (readsAfter file chunkToRead mBlob mem n).dev.position).take (file.answers n).placed)
          position := (readsAfter file chunkToRead mBlob mem n).dev.position + (file.answers n).placed
          offered := (readsAfter file chunkToRead mBlob mem n).dev.offered ++
            [(mBlob + (readsAfter file chunkToRead mBlob mem n).szCnt.toNat,
              (readsAfter file chunkToRead mBlob mem n).bufSize.toNat)] }⟩ := by
  rw [readsAfter, ReadState.read, EfiFile.read]
  simp only [readsAfter_calls]
  rfl

theorem readsAfter_bufSize (n : Nat) :
    (readsAfter file chunkToRead mBlob mem n).bufSize = requested chunkToRead file.answers n := by
  cases n with
  | zero => rfl
  | succ n => rw [readsAfter_succ]

theorem readsAfter_position (n : Nat) :
    (readsAfter file chunkToRead mBlob mem n).dev.position = placedBefore file.answers n := by
  induction n with
  | zero => rfl
  | succ n ih => rw [readsAfter_succ, placedBefore_succ, ih]

theorem readsAfter_offered (n : Nat) :
    (readsAfter file chunkToRead mBlob mem n).dev.offered =
      (List.range n).map (offerOf file chunkToRead mBlob mem) := by
  induction n with
  | zero => rfl
  | succ n ih =>
    rw [readsAfter_succ, List.range_succ, List.map_append, ih, readsAfter_bufSize]
    rfl

theorem readsAfter_szCnt {n : Nat} (hfits : ∀ i < n,
      (readsAfter file chunkToRead mBlob mem i).szCnt.toNat + (file.answers i).size.toNat < 2 ^ 64) :
    (readsAfter file chunkToRead mBlob mem n).szCnt.toNat = sizesBefore file.answers n := by
  induction n with
  | zero => rfl
  | succ n ih =>
    have hlast := hfits n (Nat.lt_succ_self n)
    rw [readsAfter_succ, sizesBefore_succ, ← ih fun i hi => hfits i (by omega)]
    simp only [UInt64.toNat_add]
    exact Nat.mod_eq_of_lt hlast

theorem readsAfter_content {n : Nat}
    (hplace : ∀ i < n, (readsAfter file chunkToRead mBlob mem i).szCnt.toNat = placedBefore file.answers i)
    (hleft : placedBefore file.answers n ≤ file.bytes.length) :
    (readsAfter file chunkToRead mBlob mem n).dev.mem.read mBlob (placedBefore file.answers n) =
      file.bytes.take (placedBefore file.answers n) := by
  induction n with
  | zero => rfl
  | succ n ih =>
    have hbefore : placedBefore file.answers n ≤ file.bytes.length :=
      Nat.le_trans (placedBefore_mono (Nat.le_succ n)) hleft
    have hkept := ih (fun i hi => hplace i (by omega)) hbefore
    rw [placedBefore_succ] at hleft ⊢
    have hlength : ((file.bytes.drop (placedBefore file.answers n)).take (file.answers n).placed).length =
        (file.answers n).placed := by
      rw [List.length_take, List.length_drop]
      omega
    rw [readsAfter_succ, hplace n (Nat.lt_succ_self n), readsAfter_position, Store.read_add, List.take_add]
    congr 1
    · rw [Store.read_write_disjoint (.inl (Nat.le_refl _)), hkept]
    · have hsame := @Store.read_write_same (readsAfter file chunkToRead mBlob mem n).dev.mem
        (mBlob + placedBefore file.answers n)
        ((file.bytes.drop (placedBefore file.answers n)).take (file.answers n).placed)
      rw [hlength] at hsame
      exact hsame

theorem round_next {readUntil : UInt64} {n : Nat}
    (h : (readsAfter file chunkToRead mBlob mem n).szCnt < readUntil) :
    ReadState.round file chunkToRead mBlob readUntil (readsAfter file chunkToRead mBlob mem n) =
      .ok (.inl (readsAfter file chunkToRead mBlob mem (n + 1))) := by
  rw [ReadState.round, if_pos h]
  rfl

theorem round_leave {readUntil : UInt64} {n : Nat}
    (h : ¬ (readsAfter file chunkToRead mBlob mem n).szCnt < readUntil) :
    ReadState.round file chunkToRead mBlob readUntil (readsAfter file chunkToRead mBlob mem n) =
      .ok (.inr (readsAfter file chunkToRead mBlob mem n)) := by
  rw [ReadState.round, if_neg h]

theorem readLoop_rounds {readUntil : UInt64} {fuel : Nat} {s : ReadState}
    (h : loop (ReadState.round file chunkToRead mBlob readUntil) fuel (readsAfter file chunkToRead mBlob mem 0) =
      .ok s) :
    ∃ n, s = readsAfter file chunkToRead mBlob mem n ∧
      ¬ (readsAfter file chunkToRead mBlob mem n).szCnt < readUntil ∧
      ∀ i < n, (readsAfter file chunkToRead mBlob mem i).szCnt < readUntil := by
  obtain ⟨n, hrounds, hlast⟩ := rounds_of_loop (s := readsAfter file chunkToRead mBlob mem) (fun k => by
    by_cases hroom : (readsAfter file chunkToRead mBlob mem k).szCnt < readUntil
    · exact .inl (round_next hroom)
    · exact .inr ⟨_, round_leave hroom⟩) h
  refine ⟨n, ?_, fun hroom => ?_, fun i hi => ?_⟩
  · by_cases hroom : (readsAfter file chunkToRead mBlob mem n).szCnt < readUntil
    · rw [round_next hroom] at hlast
      cases hlast
    · rw [round_leave hroom] at hlast
      cases hlast
      rfl
  · rw [round_next hroom] at hlast
    cases hlast
  · by_contra hroom
    have hnext := hrounds i hi
    rw [round_leave hroom] at hnext
    cases hnext

theorem readLoop_of_rounds {readUntil : UInt64} {n : Nat}
    (hrounds : ∀ i < n, (readsAfter file chunkToRead mBlob mem i).szCnt < readUntil)
    (hend : ¬ (readsAfter file chunkToRead mBlob mem n).szCnt < readUntil) :
    loop (ReadState.round file chunkToRead mBlob readUntil) (n + 1) (readsAfter file chunkToRead mBlob mem 0) =
      .ok (readsAfter file chunkToRead mBlob mem n) :=
  loop_of_rounds (s := readsAfter file chunkToRead mBlob mem) (fun i hi => round_next (hrounds i hi))
    (round_leave hend)

end Rounds

/-! ### The call -/

section Call

variable {file : EfiFile} {info : Option UInt64} {pool : Option Nat} {mem : Store} {readUntil chunkToRead : UInt64}
  {outAddress mBlob fuel : Nat}

theorem readAll_nothing (hnone : info.getD readUntil = 0) :
    BFileReader.readAll file info pool fuel .opened ⟨mem, 0, []⟩ readUntil chunkToRead outAddress =
      .ok ({ BFileReader.opened with mErrorCode := .kNotSupported }, ⟨mem, 0, []⟩) := by
  simp only [BFileReader.readAll, if_pos hnone]

theorem readAll_loop (hsome : info.getD readUntil ≠ 0)
    (hblob : BFileReader.opened.blobFor pool outAddress = .ok mBlob) :
    BFileReader.readAll file info pool fuel .opened ⟨mem, 0, []⟩ readUntil chunkToRead outAddress =
      loop (ReadState.round file chunkToRead mBlob (info.getD readUntil)) fuel
        (readsAfter file chunkToRead mBlob mem 0) >>= fun s => .ok (⟨.kOperationOkay, mBlob, s.szCnt⟩, s.dev) := by
  simp only [BFileReader.readAll, if_neg hsome, hblob, Exec.ok_bind]
  rfl

theorem readsFile_nothing (hnone : info.getD readUntil = 0) :
    ReadsFile file info pool mem readUntil chunkToRead outAddress := by
  refine ⟨0, _, _, readAll_nothing hnone, ?_⟩
  exact {
    within := fun offer hoffer => absurd hoffer List.not_mem_nil
    size := rfl
    content := rfl
    whole := fun hokay => nomatch hokay }

theorem szCnt_of_rounds {n : Nat} (hlow : readUntil.toNat ≤ 2 ^ 63) (hconforms : file.Conforms chunkToRead)
    (hrounds : ∀ i < n, (readsAfter file chunkToRead mBlob mem i).szCnt < readUntil)
    (hoffer : ∀ i < n, (readsAfter file chunkToRead mBlob mem i).szCnt.toNat +
      (requested chunkToRead file.answers i).toNat ≤ readUntil.toNat) {i : Nat} (hi : i ≤ n) :
    (readsAfter file chunkToRead mBlob mem i).szCnt.toNat = sizesBefore file.answers i := by
  apply readsAfter_szCnt
  intro j hj
  have hroom := UInt64.lt_iff_toNat_lt.mp (hrounds j (Nat.lt_of_lt_of_le hj hi))
  have hlast := hoffer j (Nat.lt_of_lt_of_le hj hi)
  have hanswer := hconforms j
  rw [ReadAnswer.Conforms] at hanswer
  split at hanswer
  · omega
  · omega

theorem sizesBefore_le {n room : Nat} (hconforms : file.Conforms chunkToRead)
    (herrors : ∀ i < n, (file.answers i).status ≠ kEfiOk → (file.answers i).size = 0)
    (hoffer : ∀ i < n, sizesBefore file.answers i + (requested chunkToRead file.answers i).toNat ≤ room) :
    sizesBefore file.answers n ≤ room := by
  cases n with
  | zero => exact Nat.zero_le _
  | succ last =>
    have hlast := hoffer last (Nat.lt_succ_self last)
    have hanswer := hconforms last
    rw [ReadAnswer.Conforms] at hanswer
    rw [sizesBefore_succ]
    split at hanswer
    · omega
    · have hzero := herrors last (Nat.lt_succ_self last) (by assumption)
      rw [hzero]
      exact Nat.le_trans (Nat.le_add_right _ _) hlast

theorem fits_of_whole {n : Nat} (hlow : readUntil.toNat ≤ 2 ^ 63) (hconforms : file.Conforms chunkToRead)
    (hend : ¬ (readsAfter file chunkToRead mBlob mem n).szCnt < readUntil)
    (hrounds : ∀ i < n, (readsAfter file chunkToRead mBlob mem i).szCnt < readUntil)
    (hwhole : WholeRead file readUntil ⟨.kOperationOkay, mBlob, (readsAfter file chunkToRead mBlob mem n).szCnt⟩
      (readsAfter file chunkToRead mBlob mem n).dev) :
    readUntil.toNat = file.bytes.length ∧ placedBefore file.answers n = file.bytes.length ∧
      ∀ i < n, ((file.answers i).status ≠ kEfiOk → (file.answers i).size = 0) ∧
        placedBefore file.answers i + (requested chunkToRead file.answers i).toNat ≤ file.bytes.length := by
  have hoffer : ∀ i < n, (readsAfter file chunkToRead mBlob mem i).szCnt.toNat +
      (requested chunkToRead file.answers i).toNat ≤ readUntil.toNat := by
    intro i hi
    have hmem : offerOf file chunkToRead mBlob mem i ∈ (readsAfter file chunkToRead mBlob mem n).dev.offered := by
      rw [readsAfter_offered]
      exact List.mem_map_of_mem (List.mem_range.mpr hi)
    have hwithin := hwhole.within _ hmem
    simp only [offerOf] at hwithin
    omega
  have hcount : ∀ i ≤ n, (readsAfter file chunkToRead mBlob mem i).szCnt.toNat = sizesBefore file.answers i :=
    fun i hi => szCnt_of_rounds hlow hconforms hrounds hoffer hi
  have hposition : (readsAfter file chunkToRead mBlob mem n).dev.position = placedBefore file.answers n :=
    readsAfter_position n
  have hall : placedBefore file.answers n = sizesBefore file.answers n := by
    rw [← hposition, ← hwhole.size, ← hcount n (Nat.le_refl n)]
  have herrors := placedBefore_eq_sizesBefore_iff.mp hall
  have hlength : placedBefore file.answers n = file.bytes.length := by
    rw [hall, ← hcount n (Nat.le_refl n)]
    exact hwhole.whole rfl
  have hroom : ∀ i < n,
      sizesBefore file.answers i + (requested chunkToRead file.answers i).toNat ≤ readUntil.toNat := by
    intro i hi
    rw [← hcount i (Nat.le_of_lt hi)]
    exact hoffer i hi
  have huntil : readUntil.toNat = file.bytes.length := by
    rw [← hlength, hall]
    refine Nat.le_antisymm ?_ (sizesBefore_le hconforms herrors hroom)
    rw [← hcount n (Nat.le_refl n)]
    exact UInt64.le_iff_toNat_le.mp (UInt64.not_lt.mp hend)
  refine ⟨huntil, hlength, fun i hi => ⟨herrors i hi, ?_⟩⟩
  have hbefore : placedBefore file.answers i = sizesBefore file.answers i :=
    placedBefore_eq_sizesBefore_iff.mpr fun j hj => herrors j (Nat.lt_trans hj hi)
  rw [hbefore, ← huntil]
  exact hroom i hi

theorem readsAfter_place {n : Nat} (huntil : readUntil.toNat = file.bytes.length)
    (hall : placedBefore file.answers n = file.bytes.length)
    (herrors : ∀ i < n, (file.answers i).status ≠ kEfiOk → (file.answers i).size = 0) {i : Nat} (hi : i ≤ n) :
    (readsAfter file chunkToRead mBlob mem i).szCnt.toNat = placedBefore file.answers i := by
  induction i with
  | zero => rfl
  | succ i ih =>
    have hsize := ReadAnswer.placed_eq_iff.mpr (herrors i (by omega))
    have hleft : placedBefore file.answers (i + 1) ≤ file.bytes.length := by
      rw [← hall]
      exact placedBefore_mono hi
    rw [placedBefore_succ, hsize] at hleft ⊢
    rw [readsAfter_succ]
    simp only [UInt64.toNat_add, ih (by omega)]
    refine Nat.mod_eq_of_lt ?_
    have hlt := readUntil.toNat_lt
    omega

theorem whole_of_fits {n : Nat} (huntil : readUntil.toNat = file.bytes.length)
    (hall : placedBefore file.answers n = file.bytes.length)
    (hfits : ∀ i < n, ((file.answers i).status ≠ kEfiOk → (file.answers i).size = 0) ∧
      placedBefore file.answers i + (requested chunkToRead file.answers i).toNat ≤ file.bytes.length) :
    WholeRead file readUntil ⟨.kOperationOkay, mBlob, (readsAfter file chunkToRead mBlob mem n).szCnt⟩
      (readsAfter file chunkToRead mBlob mem n).dev := by
  have hplace : ∀ i ≤ n, (readsAfter file chunkToRead mBlob mem i).szCnt.toNat = placedBefore file.answers i :=
    fun i hi => readsAfter_place huntil hall (fun j hj => (hfits j hj).1) hi
  refine ⟨?_, ?_, ?_, ?_⟩
  · intro offer hoffer
    rw [readsAfter_offered] at hoffer
    obtain ⟨i, hi, rfl⟩ := List.mem_map.mp hoffer
    have hi := List.mem_range.mp hi
    have hroom := (hfits i hi).2
    simp only [offerOf, hplace i (Nat.le_of_lt hi)]
    omega
  · rw [readsAfter_position]
    exact hplace n (Nat.le_refl n)
  · simp only [hplace n (Nat.le_refl n)]
    exact readsAfter_content (fun i hi => hplace i (Nat.le_of_lt hi)) (Nat.le_of_eq hall)
  · intro _
    rw [← hall]
    exact hplace n (Nat.le_refl n)

theorem readsFile_of_fits {n : Nat} (hsome : info.getD readUntil ≠ 0)
    (hblob : BFileReader.opened.blobFor pool outAddress = .ok mBlob)
    (huntil : (info.getD readUntil).toNat = file.bytes.length)
    (hall : placedBefore file.answers n = file.bytes.length)
    (hfirst : ∀ i < n, placedBefore file.answers i ≠ file.bytes.length)
    (hfits : ∀ i < n, ((file.answers i).status ≠ kEfiOk → (file.answers i).size = 0) ∧
      placedBefore file.answers i + (requested chunkToRead file.answers i).toNat ≤ file.bytes.length) :
    ReadsFile file info pool mem readUntil chunkToRead outAddress := by
  have hplace : ∀ i ≤ n, (readsAfter file chunkToRead mBlob mem i).szCnt.toNat = placedBefore file.answers i :=
    fun i hi => readsAfter_place huntil hall (fun j hj => (hfits j hj).1) hi
  have hrounds : ∀ i < n, (readsAfter file chunkToRead mBlob mem i).szCnt < info.getD readUntil := by
    intro i hi
    rw [UInt64.lt_iff_toNat_lt, hplace i (Nat.le_of_lt hi), huntil]
    refine Nat.lt_of_le_of_ne ?_ (hfirst i hi)
    rw [← hall]
    exact placedBefore_mono (Nat.le_of_lt hi)
  have hend : ¬ (readsAfter file chunkToRead mBlob mem n).szCnt < info.getD readUntil := by
    rw [UInt64.lt_iff_toNat_lt, hplace n (Nat.le_refl n), huntil, hall]
    exact Nat.lt_irrefl _
  have hwhole : WholeRead file (info.getD readUntil)
      ⟨.kOperationOkay, mBlob, (readsAfter file chunkToRead mBlob mem n).szCnt⟩
      (readsAfter file chunkToRead mBlob mem n).dev := whole_of_fits huntil hall hfits
  refine ⟨n + 1, _, _, ?_, hwhole⟩
  rw [readAll_loop hsome hblob, readLoop_of_rounds hrounds hend, Exec.ok_bind]

end Call

/-- A file is read as it should be exactly where the room is that of the file, errors report no size, and no answer
so far, nor the chunk, is more than what is left of the file. -/
theorem readsFile_iff (file : EfiFile) (info : Option UInt64) (pool : Option Nat) (mem : Store)
    (readUntil chunkToRead : UInt64) (outAddress mBlob : Nat)
    (hblob : BFileReader.opened.blobFor pool outAddress = .ok mBlob)
    (hlow : (info.getD readUntil).toNat ≤ 2 ^ 63) (hconforms : file.Conforms chunkToRead) :
    ReadsFile file info pool mem readUntil chunkToRead outAddress ↔
      ReadFits file (info.getD readUntil) chunkToRead := by
  by_cases hnone : info.getD readUntil = 0
  · exact iff_of_true (readsFile_nothing hnone) (.inl hnone)
  constructor
  · rintro ⟨fuel, reader, dev, hcall, hwhole⟩
    rw [readAll_loop hnone hblob] at hcall
    obtain ⟨s, hloop, hcall⟩ := Exec.bind_eq_ok.mp hcall
    obtain ⟨n, rfl, hend, hrounds⟩ := readLoop_rounds hloop
    cases hcall
    obtain ⟨huntil, hall⟩ := fits_of_whole hlow hconforms hend hrounds hwhole
    exact .inr ⟨huntil, n, hall⟩
  · rintro (hzero | ⟨huntil, hplaced⟩)
    · exact absurd hzero hnone
    · have hexists : ∃ n, placedBefore file.answers n = file.bytes.length := by
        obtain ⟨n, hall, -⟩ := hplaced
        exact ⟨n, hall⟩
      obtain ⟨n, hn, hfits⟩ := hplaced
      -- the loop ends with the first of the calls that have placed the file
      refine readsFile_of_fits hnone hblob huntil (Nat.find_spec hexists) (fun i hi => Nat.find_min hexists hi) ?_
      exact fun i hi => hfits i (Nat.lt_of_lt_of_le hi (Nat.find_min' hexists hn))

/-! ### A file of four bytes -/

/-- Read in two calls. -/
def evenFile : EfiFile := ⟨[7, 8, 9, 10], fun i => if i < 2 then ⟨kEfiOk, 2⟩ else ⟨7, 0⟩⟩

theorem readsFile_even : ReadsFile evenFile (some 4) (some 4096) (fun _ => 0) 0 2 0 := by
  have hconforms : evenFile.Conforms 2 := by
    intro i
    rcases i with - | - | i
    · decide
    · decide
    · exact Nat.zero_le _
  have hfits : ReadFits evenFile 4 2 := .inr ⟨rfl, 2, by decide, by decide⟩
  exact (readsFile_iff evenFile (some 4) (some 4096) (fun _ => 0) 0 2 0 4096 rfl (by decide) hconforms).mpr hfits

/-- Read in two calls, the first of which is an error that leaves the size as it was. -/
def failingFile : EfiFile := ⟨[7, 8, 9, 10], fun i => if i = 0 then ⟨7, 2⟩ else if i = 1 then ⟨kEfiOk, 2⟩ else ⟨7, 0⟩⟩

/-- The bytes of the error are counted: four are reported, and two were placed. -/
theorem readAll_counts_error :
    failingFile.Conforms 2 ∧
    (∃ dev, BFileReader.readAll failingFile (some 4) (some 4096) 3 .opened ⟨fun _ => 0, 0, []⟩ 0 2 0 =
      .ok (⟨.kOperationOkay, 4096, 4⟩, dev) ∧ dev.position = 2) ∧
    ¬ ReadsFile failingFile (some 4) (some 4096) (fun _ => 0) 0 2 0 := by
  have hcall : ∀ fuel, ∃ dev, BFileReader.readAll failingFile (some 4) (some 4096) (fuel + 3) .opened
      ⟨fun _ => 0, 0, []⟩ 0 2 0 = .ok (⟨.kOperationOkay, 4096, 4⟩, dev) ∧ dev.position = 2 := fun _ => ⟨_, rfl, rfl⟩
  refine ⟨?_, hcall 0, ?_⟩
  · intro i
    rcases i with - | - | i
    · decide
    · decide
    · exact Nat.zero_le _
  · rintro ⟨fuel, reader, dev, hread, hwhole⟩
    rcases fuel with - | - | - | fuel
    · cases hread
    · cases hread
    · cases hread
    · obtain ⟨dev', hcall, hposition⟩ := hcall fuel
      cases hcall.symm.trans hread
      have hsize := hwhole.size
      rw [hposition] at hsize
      cases hsize

end OpenNE

import OpenNE.Base.Access
import OpenNE.Base.CString
import Mathlib.Data.List.Range

/-!
# Finding a table (`src/ACPIFactoryInterface.cc`, `Mod/ACPI/ACPI.h`)

`Find` goes through the entries of the root table, which are words of 32 bits, but counts them as words of 64: it
looks at the first half of them, and the half of no entry or one is a panic. The count is taken without a sign, so
that a length below that of the header is no refusal but a count of nearly `2 ^ 61` (`find_iff`).
-/

namespace OpenNE

/-! ### The call -/

/-- `sizeof(SDT)`. -/
def sdtSizeof : Nat := 36

/-- `RSDP::Revision` and `RSDP::RsdtAddress`, behind the pointer to it. -/
def rsdpRevision (rsdp : Nat) (mem : Store) : UInt8 := mem.get Codec.u8 (rsdp + 8)

def rsdpRsdtAddress (rsdp : Nat) (mem : Store) : Nat := (mem.get Codec.u32 (rsdp + sdtSizeof)).toNat

/-- `RSDT::Length`. -/
def rsdtLength (xsdt : Nat) (mem : Store) : UInt32 := mem.get Codec.u32 (xsdt + 4)

/-- Where `AddressArr[index]` lies. -/
def addressArr (xsdt index : Nat) : Nat := xsdt + sdtSizeof + 4 * index

/-- `ACPIFactoryInterface`. -/
structure ACPIFactoryInterface where
  fRsdp : Nat
  fEntries : Int64
  deriving DecidableEq

/-- The inner loop: whether the characters of the signature are those of the table, one after the other. -/
def signatureFrom (mem : Store) : Nat → List UInt8 → Bool
  | _, [] => true
  | sdt, c :: cs => if mem sdt ≠ c then false else signatureFrom mem (sdt + 1) cs

/-- The table at `sdt` carries the signature. -/
def carries (mem : Store) (signature : CString) (sdt : UInt32) : Bool :=
  signatureFrom mem sdt.toNat ((List.range 4).map fun i => signature.1.getD i 0)

/-- The loop over the entries, with `left` of them to go. -/
def findFrom (acc : Access) (mem : Store) (signature : CString) (xsdt : Nat) : Nat → Nat → Exec (Option UInt32)
  | 0, _ => .ok none
  | left + 1, index => do
    let sdt ← fetch acc Codec.u32 (addressArr xsdt index) mem
    if carries mem signature sdt then .ok (some sdt) else findFrom acc mem signature xsdt left (index + 1)

/-- `num`. -/
def entriesNum (xsdt : Nat) (mem : Store) : Int64 :=
  (((rsdtLength xsdt mem).toUInt64 - UInt64.ofNat sdtSizeof) / 8).toInt64

/-- `Find`, when `acc` is what may be read as entries; an error is `none`. -/
def ACPIFactoryInterface.find (debug : Bool) (acc : Access) (mem : Store) (self : ACPIFactoryInterface)
    (signature : Option CString) : Exec (ACPIFactoryInterface × Option UInt32) := do
  mustPass debug (self.fRsdp ≠ 0)
  match signature with
  | none => .ok (self, none)
  | some signature =>
    if signature.1.headD 0 = 0 then .ok (self, none)
    else if rsdpRevision self.fRsdp mem ≤ 1 then .ok (self, none)
    else
      let xsdt := rsdpRsdtAddress self.fRsdp mem
      let num := entriesNum xsdt mem
      if num < 1 then .error .panic
      else do
        let found ← findFrom acc mem signature xsdt num.toNatClampNeg 0
        .ok ({ self with fEntries := num }, found)

/-! ### What it is for -/

/-- How many words of 32 bits there are behind the header, none if there is not even a header. -/
def entryCount (xsdt : Nat) (mem : Store) : Nat := ((rsdtLength xsdt mem).toNat - sdtSizeof) / 4

/-- The entries. -/
def entry (xsdt : Nat) (mem : Store) (index : Nat) : UInt32 := mem.get Codec.u32 (addressArr xsdt index)

/-- The first table with the signature among the first `n` entries. -/
def firstOf (n : Nat) (signature : CString) (xsdt : Nat) (mem : Store) : Option UInt32 :=
  ((List.range n).map (entry xsdt mem)).find? (carries mem signature)

/-- The call reads no entry behind the length and returns the first with the signature, an error if there is none. -/
def FindsFirst (debug : Bool) (mem : Store) (self : ACPIFactoryInterface) (signature : CString) : Prop :=
  ∃ self', self.find debug
      (.within ⟨rsdpRsdtAddress self.fRsdp mem, (rsdtLength (rsdpRsdtAddress self.fRsdp mem) mem).toNat⟩) mem
      (some signature) =
    .ok (self', firstOf (entryCount (rsdpRsdtAddress self.fRsdp mem) mem) signature
      (rsdpRsdtAddress self.fRsdp mem) mem)

/-- Where it does: the revision refuses a search that finds nothing, or there are two entries at least, and the
signature is among the first half of them or not at all. -/
def FindFits (mem : Store) (self : ACPIFactoryInterface) (signature : CString) : Prop :=
  let xsdt := rsdpRsdtAddress self.fRsdp mem
  let length := (rsdtLength xsdt mem).toNat
  (rsdpRevision self.fRsdp mem ≤ 1 ∧ firstOf (entryCount xsdt mem) signature xsdt mem = none) ∨
    (1 < rsdpRevision self.fRsdp mem ∧ sdtSizeof + 8 ≤ length ∧
      (firstOf ((length - sdtSizeof) / 8) signature xsdt mem ≠ none ∨
        firstOf (entryCount xsdt mem) signature xsdt mem = none))

/-! ### The loop -/

section Loop

variable {acc : Access} {mem : Store} {signature : CString} {xsdt : Nat}

theorem findFrom_eq (left : Nat) : ∀ {index : Nat},
    (∀ k, index ≤ k → k < index + left → acc.mayRead (addressArr xsdt k) 4 = true) →
      findFrom acc mem signature xsdt left index =
        .ok (((List.range' index left).map (entry xsdt mem)).find? (carries mem signature)) := by
  induction left with
  | zero => intros; rfl
  | succ left ih =>
    intro index hin
    have hread : fetch acc Codec.u32 (addressArr xsdt index) mem = .ok (entry xsdt mem index) :=
      if_pos (hin index (Nat.le_refl _) (by omega))
    rw [findFrom, hread, Exec.ok_bind, List.range'_succ, List.map_cons, List.find?_cons]
    by_cases hcarries : carries mem signature (entry xsdt mem index) = true
    · rw [if_pos hcarries, hcarries]
    · rw [if_neg hcarries, ih fun k hlow hhigh => hin k (by omega) (by omega), Bool.eq_false_of_not_eq_true hcarries]

theorem firstOf_mono {m n : Nat} (hmn : m ≤ n) (h : firstOf m signature xsdt mem ≠ none) :
    firstOf n signature xsdt mem = firstOf m signature xsdt mem := by
  obtain ⟨k, rfl⟩ := Nat.exists_eq_add_of_le hmn
  obtain ⟨sdt, hsdt⟩ := Option.ne_none_iff_exists'.mp h
  rw [firstOf] at hsdt ⊢
  rw [List.range_add, List.map_append, List.find?_append, hsdt, firstOf, hsdt]
  rfl

theorem firstOf_none {m n : Nat} (hmn : m ≤ n) (h : firstOf n signature xsdt mem = none) :
    firstOf m signature xsdt mem = none := by
  by_contra hsome
  exact hsome ((firstOf_mono hmn hsome).symm.trans h)

theorem firstOf_eq_iff {m n : Nat} (hmn : m ≤ n) :
    firstOf m signature xsdt mem = firstOf n signature xsdt mem ↔
      firstOf m signature xsdt mem ≠ none ∨ firstOf n signature xsdt mem = none := by
  constructor
  · intro hsame
    by_cases hnone : firstOf n signature xsdt mem = none
    · exact .inr hnone
    · exact .inl fun h => hnone (hsame.symm.trans h)
  · rintro (hsome | hnone)
    · exact (firstOf_mono hmn hsome).symm
    · rw [hnone, firstOf_none hmn hnone]

/-! ### The count -/

theorem entriesNum_eq : entriesNum xsdt mem = Int64.ofNat
    (if sdtSizeof ≤ (rsdtLength xsdt mem).toNat then ((rsdtLength xsdt mem).toNat - sdtSizeof) / 8
      else (2 ^ 64 + (rsdtLength xsdt mem).toNat - sdtSizeof) / 8) := by
  have hlength := (rsdtLength xsdt mem).toNat_lt
  have hvalue : (((rsdtLength xsdt mem).toUInt64 - UInt64.ofNat sdtSizeof) / 8).toNat =
      if sdtSizeof ≤ (rsdtLength xsdt mem).toNat then ((rsdtLength xsdt mem).toNat - sdtSizeof) / 8
      else (2 ^ 64 + (rsdtLength xsdt mem).toNat - sdtSizeof) / 8 := by
    have hheader : (UInt64.ofNat sdtSizeof).toNat = 36 := rfl
    have hword : (8 : UInt64).toNat = 8 := rfl
    rw [UInt64.toNat_div, UInt64.toNat_sub, UInt32.toNat_toUInt64, hheader, hword, sdtSizeof]
    split <;> omega
  rw [entriesNum, ← hvalue, ← UInt64.toInt64_ofNat', UInt64.ofNat_toNat]

theorem ofNat_lt_one_iff {n : Nat} (hn : n < 2 ^ 63) : Int64.ofNat n < 1 ↔ n = 0 := by
  rw [Int64.lt_iff_toInt_lt, Int64.toInt_ofNat_of_lt hn]
  have hone : (1 : Int64).toInt = 1 := rfl
  rw [hone]
  omega

end Loop

/-! ### The call -/

section Find

variable {debug : Bool} {acc : Access} {mem : Store} {self : ACPIFactoryInterface} {signature : CString}

theorem find_refused (hrsdp : self.fRsdp ≠ 0) (hrevision : rsdpRevision self.fRsdp mem ≤ 1) :
    self.find debug acc mem (some signature) = .ok (self, none) := by
  rw [ACPIFactoryInterface.find, decide_eq_true hrsdp]
  simp only [mustPass, Bool.not_true, Bool.and_false, Bool.false_eq_true, if_false, Exec.ok_bind, if_pos hrevision,
    ite_self]

theorem find_counted (hrsdp : self.fRsdp ≠ 0) (hsignature : signature.1.headD 0 ≠ 0)
    (hrevision : ¬ rsdpRevision self.fRsdp mem ≤ 1) :
    self.find debug acc mem (some signature) =
      if entriesNum (rsdpRsdtAddress self.fRsdp mem) mem < 1 then .error .panic
      else
        findFrom acc mem signature (rsdpRsdtAddress self.fRsdp mem)
          (entriesNum (rsdpRsdtAddress self.fRsdp mem) mem).toNatClampNeg 0 >>= fun found =>
            .ok ({ self with fEntries := entriesNum (rsdpRsdtAddress self.fRsdp mem) mem }, found) := by
  rw [ACPIFactoryInterface.find, decide_eq_true hrsdp]
  simp only [mustPass, Bool.not_true, Bool.and_false, Bool.false_eq_true, if_false, Exec.ok_bind, if_neg hrevision,
    if_neg hsignature]

theorem find_short (hrsdp : self.fRsdp ≠ 0) (hsignature : signature.1.headD 0 ≠ 0)
    (hrevision : ¬ rsdpRevision self.fRsdp mem ≤ 1)
    (hshort : (rsdtLength (rsdpRsdtAddress self.fRsdp mem) mem).toNat < sdtSizeof) :
    self.find debug
      (.within ⟨rsdpRsdtAddress self.fRsdp mem, (rsdtLength (rsdpRsdtAddress self.fRsdp mem) mem).toNat⟩) mem
      (some signature) = .error .fault := by
  have hcount : ¬ sdtSizeof ≤ (rsdtLength (rsdpRsdtAddress self.fRsdp mem) mem).toNat := Nat.not_le.mpr hshort
  rw [find_counted hrsdp hsignature hrevision, entriesNum_eq, if_neg hcount]
  rw [sdtSizeof] at hshort ⊢
  have hmany : ¬ Int64.ofNat ((2 ^ 64 + (rsdtLength (rsdpRsdtAddress self.fRsdp mem) mem).toNat - 36) / 8) < 1 := by
    rw [ofNat_lt_one_iff (by omega)]
    omega
  rw [if_neg hmany, Int64.toNatClampNeg_ofNat_of_lt (by omega)]
  obtain ⟨left, hleft⟩ : ∃ left,
      (2 ^ 64 + (rsdtLength (rsdpRsdtAddress self.fRsdp mem) mem).toNat - 36) / 8 = left + 1 :=
    ⟨(2 ^ 64 + (rsdtLength (rsdpRsdtAddress self.fRsdp mem) mem).toNat - 36) / 8 - 1, by omega⟩
  rw [hleft, findFrom, fetch, Access.mayRead, if_neg]
  · rfl
  · simp only [decide_eq_true_eq, Span.Holds, addressArr, sdtSizeof, show Codec.u32.size = 4 from rfl]
    omega

theorem find_panics (hrsdp : self.fRsdp ≠ 0) (hsignature : signature.1.headD 0 ≠ 0)
    (hrevision : ¬ rsdpRevision self.fRsdp mem ≤ 1)
    (hlow : sdtSizeof ≤ (rsdtLength (rsdpRsdtAddress self.fRsdp mem) mem).toNat)
    (hhigh : (rsdtLength (rsdpRsdtAddress self.fRsdp mem) mem).toNat < sdtSizeof + 8) :
    self.find debug acc mem (some signature) = .error .panic := by
  have hnone : Int64.ofNat (((rsdtLength (rsdpRsdtAddress self.fRsdp mem) mem).toNat - sdtSizeof) / 8) < 1 := by
    rw [ofNat_lt_one_iff (by omega)]
    omega
  rw [find_counted hrsdp hsignature hrevision, entriesNum_eq, if_pos hlow, if_pos hnone]

theorem find_half (hrsdp : self.fRsdp ≠ 0) (hsignature : signature.1.headD 0 ≠ 0)
    (hrevision : ¬ rsdpRevision self.fRsdp mem ≤ 1)
    (hlow : sdtSizeof + 8 ≤ (rsdtLength (rsdpRsdtAddress self.fRsdp mem) mem).toNat) :
    ∃ self', self.find debug
        (.within ⟨rsdpRsdtAddress self.fRsdp mem, (rsdtLength (rsdpRsdtAddress self.fRsdp mem) mem).toNat⟩) mem
        (some signature) =
      .ok (self', firstOf (((rsdtLength (rsdpRsdtAddress self.fRsdp mem) mem).toNat - sdtSizeof) / 8) signature
        (rsdpRsdtAddress self.fRsdp mem) mem) := by
  have hlength := (rsdtLength (rsdpRsdtAddress self.fRsdp mem) mem).toNat_lt
  have hheader : sdtSizeof ≤ (rsdtLength (rsdpRsdtAddress self.fRsdp mem) mem).toNat := by omega
  have hsome : ¬ Int64.ofNat (((rsdtLength (rsdpRsdtAddress self.fRsdp mem) mem).toNat - sdtSizeof) / 8) < 1 := by
    rw [ofNat_lt_one_iff (by omega)]
    omega
  rw [find_counted hrsdp hsignature hrevision, entriesNum_eq, if_pos hheader, if_neg hsome,
    Int64.toNatClampNeg_ofNat_of_lt (by omega), findFrom_eq, Exec.ok_bind, ← List.range_eq_range']
  · exact ⟨_, rfl⟩
  · intro k _ hk
    refine decide_eq_true (.inr ?_)
    simp only [addressArr]
    omega

end Find

/-- A signature is found as it should be exactly where the refusal of an old revision is right, or the half of the
entries that is looked at is enough. -/
theorem find_iff (debug : Bool) (mem : Store) (self : ACPIFactoryInterface) (hrsdp : self.fRsdp ≠ 0)
    (signature : CString) (hsignature : signature.length = 4) :
    FindsFirst debug mem self signature ↔ FindFits mem self signature := by
  have hfirst : signature.1.headD 0 ≠ 0 := by
    have hpos : 0 < signature.1.length := by
      rw [CString.length] at hsignature
      omega
    obtain ⟨c, cs, hcs⟩ := List.exists_cons_of_length_pos hpos
    rw [hcs]
    exact fun hzero => signature.2 (by rw [hcs]; exact List.mem_cons.mpr (.inl hzero.symm))
  rw [FindsFirst, FindFits]
  by_cases hrevision : rsdpRevision self.fRsdp mem ≤ 1
  · rw [find_refused hrsdp hrevision]
    constructor
    · rintro ⟨self', hsame⟩
      exact .inl ⟨hrevision, (congrArg Prod.snd (Except.ok.inj hsame)).symm⟩
    · rintro (⟨-, hnone⟩ | ⟨hnew, -⟩)
      · exact ⟨self, by rw [hnone]⟩
      · exact absurd hrevision (UInt8.not_le.mpr hnew)
  · have hnew : 1 < rsdpRevision self.fRsdp mem := UInt8.not_le.mp hrevision
    by_cases hheader : (rsdtLength (rsdpRsdtAddress self.fRsdp mem) mem).toNat < sdtSizeof
    · rw [find_short hrsdp hfirst hrevision hheader]
      refine iff_of_false (fun h => by obtain ⟨self', hsame⟩ := h; cases hsame) ?_
      rintro (⟨hold, -⟩ | ⟨-, hlong, -⟩)
      · exact hrevision hold
      · omega
    · by_cases hone : (rsdtLength (rsdpRsdtAddress self.fRsdp mem) mem).toNat < sdtSizeof + 8
      · rw [find_panics hrsdp hfirst hrevision (Nat.le_of_not_lt hheader) hone]
        refine iff_of_false (fun h => by obtain ⟨self', hsame⟩ := h; cases hsame) ?_
        rintro (⟨hold, -⟩ | ⟨-, hlong, -⟩)
        · exact hrevision hold
        · omega
      · obtain ⟨self', hfind⟩ := @find_half debug mem self signature hrsdp hfirst hrevision (Nat.le_of_not_lt hone)
        have hhalf : ((rsdtLength (rsdpRsdtAddress self.fRsdp mem) mem).toNat - sdtSizeof) / 8 ≤
            entryCount (rsdpRsdtAddress self.fRsdp mem) mem := by
          rw [entryCount]
          omega
        rw [hfind]
        constructor
        · rintro ⟨self'', hsame⟩
          have hfound := congrArg Prod.snd (Except.ok.inj hsame)
          exact .inr ⟨hnew, Nat.le_of_not_lt hone, (firstOf_eq_iff hhalf).mp hfound⟩
        · rintro (⟨hold, -⟩ | ⟨-, -, hfound⟩)
          · exact absurd hold hrevision
          · exact ⟨self', by rw [(firstOf_eq_iff hhalf).mpr hfound]⟩

/-! ### A machine with two tables -/

/-- The characters `APIC`. -/
def apicSignature : CString := ⟨[65, 80, 73, 67], by decide⟩

/-- A root pointer at 16, a root table at 256 with as many entries of `entries` as `length` says, and a table `APIC`
at 1024. -/
def acpiMemory (length : UInt32) (entries : List UInt8) : Store :=
  Store.write (Store.put Codec.u32 (Store.write (Store.put Codec.u32 (Store.put Codec.u8 (fun _ => 0) 24 2) 52 256) 1024
    apicSignature.1) 260 length) 292 entries

/-- Two entries, the first of them the table. -/
theorem find_first_of_two : FindsFirst true (acpiMemory 44 [0, 4, 0, 0, 0, 8, 0, 0]) ⟨16, 0⟩ apicSignature :=
  (find_iff true (acpiMemory 44 [0, 4, 0, 0, 0, 8, 0, 0]) ⟨16, 0⟩ (by decide) apicSignature (by decide)).mpr
    (.inr ⟨by decide, by decide, .inl (by decide)⟩)

/-- Two entries, the second of them the table: there is an error. -/
theorem find_misses_second :
    firstOf (entryCount 256 (acpiMemory 44 [0, 8, 0, 0, 0, 4, 0, 0])) apicSignature 256
      (acpiMemory 44 [0, 8, 0, 0, 0, 4, 0, 0]) = some 1024 ∧
    (∃ self', ACPIFactoryInterface.find true .anywhere (acpiMemory 44 [0, 8, 0, 0, 0, 4, 0, 0]) ⟨16, 0⟩
      (some apicSignature) = .ok (self', none)) ∧
    ¬ FindsFirst true (acpiMemory 44 [0, 8, 0, 0, 0, 4, 0, 0]) ⟨16, 0⟩ apicSignature := by
  have hthere : firstOf (entryCount 256 (acpiMemory 44 [0, 8, 0, 0, 0, 4, 0, 0])) apicSignature 256
      (acpiMemory 44 [0, 8, 0, 0, 0, 4, 0, 0]) = some 1024 := by decide
  refine ⟨hthere, ⟨_, rfl⟩, ?_⟩
  rintro ⟨self', hfind⟩
  have hcode : ACPIFactoryInterface.find true (.within ⟨256, 44⟩) (acpiMemory 44 [0, 8, 0, 0, 0, 4, 0, 0]) ⟨16, 0⟩
      (some apicSignature) = .ok (⟨16, 1⟩, none) := rfl
  have hfound := congrArg Prod.snd (Except.ok.inj (hcode.symm.trans hfind))
  exact absurd (hfound.trans hthere) (by decide)

end OpenNE

import OpenNE.Base.ReflectedCrc
import OpenNE.Memory.HeapCheck

/-!
# `ke_calculate_crc32` is CRC-32C

The table is that of the reflected polynomial `0x82F63B78` (`kCrcTbl_eq`), so a round of the loop is a byte step
(`crcRound_eq`) as long as the byte is below 128. The index is formed from a signed character: a byte of 128 and
above makes it negative, whatever the CRC was (`crcIndex_neg`), and a word in front of the table is read.
-/

namespace OpenNE

/-- The polynomial of CRC-32C, reflected. -/
def kCrc32cPoly : BitVec 32 := 0x82F63B78

/-- The indices `ke_calculate_crc32` takes into its table, in order. -/
def crcIndices (before : Nat → UInt32) : UInt32 → List UInt8 → List Int
  | _, [] => []
  | crc, c :: bytes => crcIndex crc c :: crcIndices before (crcRound before crc c) bytes

/-- What is expected of the check of the `len` bytes at `p`. -/
structure IsCrc32c (before : Nat → UInt32) (mem : Store) (p : UInt64) (len : UInt32) : Prop where
  indexed : ∀ index ∈ crcIndices before 0xffffffff (mem.read p.toNat len.toNat), 0 ≤ index ∧ index < 256
  checked : (keCalculateCrc32 before mem p len).toBitVec =
    ReflectedCrc.check kCrc32cPoly 0xffffffff 0xffffffff ((mem.read p.toNat len.toNat).map UInt8.toBitVec)

/-! ### The table and the index -/

section Round

variable {before : Nat → UInt32} {crc : UInt32} {c : UInt8} {bytes : List UInt8}

theorem kCrcTbl_eq (b : BitVec 8) :
    (kCrcTbl.getD b.toNat 0).toBitVec = ReflectedCrc.bitSteps kCrc32cPoly 8 (b.setWidth 32) := by
  have hall : ∀ i : Fin 256, (kCrcTbl.getD i 0).toBitVec =
      ReflectedCrc.bitSteps kCrc32cPoly 8 ((BitVec.ofFin i : BitVec 8).setWidth 32) := by decide +kernel
  exact hall b.toFin

theorem crcIndex_ascii (hc : c < 128) : crcIndex crc c = ((crc.toUInt8 ^^^ c).toNat : Int) := by
  have hpromote : ∀ b : Fin 128, (UInt8.ofNat b).toInt8.toInt32.toBitVec.toNat = b := by decide +kernel
  have hfirst : ∀ i : Fin 256, (Int32.ofNat i).toBitVec.toNat = i := by decide +kernel
  have hc' : c.toInt8.toInt32.toBitVec.toNat = c.toNat := by
    have hlt : c.toNat < 128 := hc
    simpa using hpromote ⟨c.toNat, hlt⟩
  have hxor : ((Int32.ofNat crc.toUInt8.toNat).toBitVec ^^^ c.toInt8.toInt32.toBitVec).toNat =
      (crc.toUInt8 ^^^ c).toNat := by
    rw [BitVec.toNat_xor, hfirst ⟨_, crc.toUInt8.toNat_lt⟩, hc', UInt8.toNat_xor]
  unfold crcIndex
  rw [← Int32.toInt_toBitVec, Int32.toBitVec_xor, BitVec.toInt_eq_toNat_of_lt, hxor]
  have hbyte := (crc.toUInt8 ^^^ c).toNat_lt
  rw [hxor]
  omega

theorem crcIndex_neg (hc : ¬ c < 128) : crcIndex crc c < 0 := by
  have hpromote : ∀ b : Fin 256, 128 ≤ b.val → (UInt8.ofNat b).toInt8.toInt32.toBitVec.msb = true := by
    decide +kernel
  have hfirst : ∀ i : Fin 256, (Int32.ofNat i).toBitVec.msb = false := by decide +kernel
  have hc' : c.toInt8.toInt32.toBitVec.msb = true := by
    have hle : 128 ≤ c.toNat := Nat.not_lt.mp hc
    simpa using hpromote ⟨c.toNat, c.toNat_lt⟩ hle
  unfold crcIndex
  rw [← Int32.toInt_toBitVec, Int32.toBitVec_xor]
  apply BitVec.toInt_neg_of_msb_true
  rw [BitVec.msb_xor, hfirst ⟨_, crc.toUInt8.toNat_lt⟩, hc']
  rfl

theorem crcIndex_mem_iff : (0 ≤ crcIndex crc c ∧ crcIndex crc c < 256) ↔ c < 128 := by
  constructor
  · rintro ⟨hindex, -⟩
    by_contra hc
    exact absurd (crcIndex_neg hc) (not_lt.mpr hindex)
  · intro hc
    rw [crcIndex_ascii hc]
    have hbyte := (crc.toUInt8 ^^^ c).toNat_lt
    omega

theorem crcRound_eq (hc : c < 128) :
    (crcRound before crc c).toBitVec = ReflectedCrc.byteStep kCrc32cPoly crc.toBitVec c.toBitVec := by
  have hentry : crcEntry before (crcIndex crc c) = kCrcTbl.getD (crc.toUInt8 ^^^ c).toBitVec.toNat 0 := by
    rw [crcIndex_ascii hc]
    rfl
  have hlow : (crc.toUInt8 ^^^ c).toBitVec = crc.toBitVec.setWidth 8 ^^^ c.toBitVec := by
    rw [UInt8.toBitVec_xor, UInt32.toBitVec_toUInt8]
  rw [ReflectedCrc.byteStep_eq (by decide), crcRound, hentry, UInt32.toBitVec_xor, kCrcTbl_eq, hlow]
  rfl

/-! ### The loop -/

theorem crcRounds_eq (hbytes : ∀ c ∈ bytes, c < 128) :
    (bytes.foldl (crcRound before) crc).toBitVec =
      (bytes.map UInt8.toBitVec).foldl (ReflectedCrc.byteStep kCrc32cPoly) crc.toBitVec := by
  induction bytes generalizing crc with
  | nil => rfl
  | cons c bytes ih =>
    rw [List.foldl_cons, List.map_cons, List.foldl_cons, ih fun d hd => hbytes d (List.mem_cons_of_mem c hd),
      crcRound_eq (hbytes c List.mem_cons_self)]

theorem crcIndices_mem_iff :
    (∀ index ∈ crcIndices before crc bytes, 0 ≤ index ∧ index < 256) ↔ ∀ c ∈ bytes, c < 128 := by
  induction bytes generalizing crc with
  | nil => simp [crcIndices]
  | cons c bytes ih => simp only [crcIndices, List.forall_mem_cons, crcIndex_mem_iff, ih]

end Round

/-- The check is CRC-32C, of table words alone, for the strings of bytes below 128 and for no others. -/
theorem crc32c_iff (before : Nat → UInt32) (mem : Store) (p : UInt64) (len : UInt32) :
    IsCrc32c before mem p len ↔ ∀ c ∈ mem.read p.toNat len.toNat, c < 128 := by
  constructor
  · intro h
    exact crcIndices_mem_iff.mp h.indexed
  · intro hbytes
    refine ⟨crcIndices_mem_iff.mpr hbytes, ?_⟩
    rw [keCalculateCrc32, UInt32.toBitVec_xor, crcRounds_eq hbytes]
    rfl

/-- The byte `0x80` is promoted to -128, and `0xff ^ -128` is -129. -/
theorem crc32c_high_byte :
    crcIndices (fun _ => 0) 0xffffffff (Store.read (fun _ => 0x80) 0x1000 1) = [-129] ∧
      ¬ IsCrc32c (fun _ => 0) (fun _ => 0x80) 0x1000 1 := by
  have hindices : crcIndices (fun _ => 0) 0xffffffff (Store.read (fun _ => 0x80) 0x1000 1) = [-129] := by decide
  refine ⟨hindices, fun h => ?_⟩
  have hindexed := h.indexed (-129) (by
    show -129 ∈ crcIndices (fun _ => 0) 0xffffffff (Store.read (fun _ => 0x80) 0x1000 1)
    rw [hindices]
    exact List.mem_singleton_self _)
  exact absurd hindexed.1 (by decide)

/-- The check value of CRC-32C, for the digits from one to nine. -/
example : ReflectedCrc.check kCrc32cPoly 0xffffffff 0xffffffff
    ([0x31, 0x32, 0x33, 0x34, 0x35, 0x36, 0x37, 0x38, 0x39] : List (BitVec 8)) = 0xE3069283 := by decide +kernel

end OpenNE

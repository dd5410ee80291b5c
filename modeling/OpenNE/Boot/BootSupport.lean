import OpenNE.Base.Access

/-!
# The C library of the boot loader (`src/BootSupport.cc`, `src/BootTextWriter.cc`)

Its `memset` and `memcpy` count 32-bit words where the callers count bytes, so four times the length is written and
read. Its `strcmp` returns the place of the first difference, so a name that differs in its first character compares
equal (`strcmpAt_eq_zero_iff`).
-/

namespace OpenNE

/-- `memset`, of `len` words from `dst` on. -/
def memset (byte : UInt32) (dst : Nat) : Nat → Store → Store
  | 0, mem => mem
  | len + 1, mem => memset byte (dst + 4) len (mem.put Codec.u32 dst byte)

/-- `memcpy`, of `len` words from `src` on. -/
def memcpy (dst src : Nat) : Nat → Store → Store
  | 0, mem => mem
  | len + 1, mem => memcpy (dst + 4) (src + 4) len (mem.put Codec.u32 dst (mem.get Codec.u32 src))

/-- `SetMem(dst, 0, len)`, when `pages` are what was allocated. -/
def setMem (acc : Access) (pages : Span) (dst len : Nat) (mem : Store) : Exec Store :=
  if acc.mayWrite pages dst (4 * len) then .ok (memset 0 dst len mem) else .error .fault

/-- `CopyMem(dst, src, len)`. -/
def copyMem (acc : Access) (pages : Span) (dst src len : Nat) (mem : Store) : Exec Store :=
  if acc.mayRead src (4 * len) ∧ acc.mayWrite pages dst (4 * len) then .ok (memcpy dst src len mem)
  else .error .fault

/-- The loop of `strcmp`, `len` characters in: `left` is what is left of the first string, without its zero. -/
def strcmpFrom (acc : Access) (mem : Store) : List UInt8 → Nat → Nat → Exec Nat
  | [], a, len => do
    let c ← fetch acc Codec.u8 a mem
    if c = 0 then .ok 0 else .ok len
  | l :: left, a, len => do
    let c ← fetch acc Codec.u8 a mem
    if c = l then strcmpFrom acc mem left (a + 1) (len + 1) else .ok len

/-- `strcmp`, of `left` and the string at `a`. -/
def strcmp (acc : Access) (left : List UInt8) (a : Nat) (mem : Store) : Exec Nat :=
  if left = [] then .ok 0 else strcmpFrom acc mem left a 0

/-- Whether the characters at `a` are `cs`, compared one after the other. -/
def startsWith (acc : Access) (mem : Store) : List UInt8 → Nat → Exec Bool
  | [], _ => .ok true
  | c :: cs, a => do
    let b ← fetch acc Codec.u8 a mem
    if b = c then startsWith acc mem cs (a + 1) else .ok false

/-- The string at `a` may be read, its zero included. -/
def Access.mayReadString (mem : Store) : Access → Nat → Bool
  | anywhere, _ => true
  | within source, a => source.start ≤ a ∧ ∃ x < source.start + source.len, a ≤ x ∧ mem x = 0

/-- `BTextWriter::Write`, of the string at `a`: nothing is written unless `__DEBUG__` is defined. -/
def writeString (acc : Access) (debug : Bool) (a : Nat) (mem : Store) : Exec Unit :=
  if debug && !acc.mayReadString mem a then .error .fault else .ok ()

/-! ### What is left as it was -/

theorem memset_outside {byte : UInt32} {len : Nat} : ∀ {dst : Nat} {mem : Store} {a : Nat},
    (a < dst ∨ dst + 4 * len ≤ a) → memset byte dst len mem a = mem a := by
  induction len with
  | zero => intros; rfl
  | succ len ih =>
    intro dst mem a h
    rw [memset, ih (by omega)]
    exact Store.put_apply_outside (by simp only [Codec.u32, Codec.map, Codec.word]; omega)

theorem memcpy_outside {len : Nat} : ∀ {dst src : Nat} {mem : Store} {a : Nat},
    (a < dst ∨ dst + 4 * len ≤ a) → memcpy dst src len mem a = mem a := by
  induction len with
  | zero => intros; rfl
  | succ len ih =>
    intro dst src mem a h
    rw [memcpy, ih (by omega)]
    exact Store.put_apply_outside (by simp only [Codec.u32, Codec.map, Codec.word]; omega)

theorem agree_of_outside {source pages : Span} {dst n : Nat} {mem mem' : Store} (hin : pages.Holds dst n)
    (hapart : n ≠ 0 → pages.Disjoint source) (hsame : ∀ a, (a < dst ∨ dst + n ≤ a) → mem' a = mem a) :
    Agree source mem' mem := by
  intro a ha
  apply hsame
  rcases hin with hnil | ⟨hlow, hhigh⟩
  · omega
  · by_contra hinside
    have hn : n ≠ 0 := by omega
    refine hapart hn a ?_ ha
    rw [Span.mem_def]
    omega

/-! ### What the calls return -/

/-- What the loop of `strcmp` returns. -/
def strcmpAt (mem : Store) : List UInt8 → Nat → Nat → Nat
  | [], a, len => if mem.get Codec.u8 a = 0 then 0 else len
  | l :: left, a, len => if mem.get Codec.u8 a = l then strcmpAt mem left (a + 1) (len + 1) else len

theorem strcmpFrom_eq {acc : Access} {mem : Store} {left : List UInt8} : ∀ {a len : Nat},
    (∀ k ≤ left.length, acc.mayRead (a + k) 1 = true) →
      strcmpFrom acc mem left a len = .ok (strcmpAt mem left a len) := by
  induction left with
  | nil =>
    intro a len h
    have hread : fetch acc Codec.u8 a mem = .ok (mem.get Codec.u8 a) := if_pos (h 0 (Nat.le_refl 0))
    rw [strcmpFrom, hread, strcmpAt]
    simp only [Exec.ok_bind]
    split <;> rfl
  | cons l left ih =>
    intro a len h
    have hread : fetch acc Codec.u8 a mem = .ok (mem.get Codec.u8 a) := if_pos (h 0 (Nat.zero_le _))
    rw [strcmpFrom, hread, strcmpAt]
    simp only [Exec.ok_bind]
    split
    · apply ih
      intro k hk
      rw [Nat.add_assoc, Nat.add_comm 1 k]
      exact h (k + 1) (Nat.succ_le_succ hk)
    · rfl

theorem strcmp_eq {acc : Access} {mem : Store} {left : List UInt8} {a : Nat} (hne : left ≠ [])
    (h : ∀ k ≤ left.length, acc.mayRead (a + k) 1 = true) :
    strcmp acc left a mem = .ok (strcmpAt mem left a 0) := by
  rw [strcmp, if_neg hne]
  exact strcmpFrom_eq h

theorem get_u8 (mem : Store) (a : Nat) : mem.get Codec.u8 a = mem a := by
  have hbyte : leNat [mem a] % 256 ^ 1 = (mem a).toNat := by
    have hlt := (mem a).toNat_lt
    simp only [leNat]
    omega
  have hread : mem.read a 1 = [mem a] := rfl
  show UInt8.ofNat (leNat (mem.read a 1) % 256 ^ 1) = mem a
  rw [hread, hbyte]
  exact UInt8.ofNat_toNat

theorem read_succ (mem : Store) (a n : Nat) : mem.read a (n + 1) = mem a :: mem.read (a + 1) n := by
  rw [Nat.add_comm, Store.read_add]
  rfl

theorem strcmpAt_pos {mem : Store} {left : List UInt8} : ∀ {a len : Nat}, 0 < len →
    (strcmpAt mem left a len = 0 ↔ mem.read a (left.length + 1) = left ++ [0]) := by
  induction left with
  | nil =>
    intro a len hlen
    rw [strcmpAt, get_u8]
    by_cases hzero : mem a = 0
    · simp [hzero, Store.read]
    · simp [hzero, Store.read, Nat.ne_of_gt hlen]
  | cons l left ih =>
    intro a len hlen
    rw [strcmpAt, get_u8, List.length_cons, read_succ]
    by_cases hsame : mem a = l
    · rw [if_pos hsame, ih (Nat.succ_pos len)]
      simp [hsame]
    · rw [if_neg hsame]
      simp [hsame, Nat.ne_of_gt hlen]

theorem strcmpAt_eq_zero_iff {mem : Store} {l : UInt8} {left : List UInt8} {a : Nat} :
    strcmpAt mem (l :: left) a 0 = 0 ↔ mem a ≠ l ∨ mem.read a (left.length + 2) = l :: (left ++ [0]) := by
  rw [strcmpAt, get_u8, read_succ]
  by_cases hsame : mem a = l
  · rw [if_pos hsame, strcmpAt_pos Nat.one_pos]
    simp [hsame]
  · simp [hsame]

end OpenNE

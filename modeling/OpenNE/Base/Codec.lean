import OpenNE.Base.Store
import Mathlib.Data.Nat.Basic
import Mathlib.Tactic.Ring

/-!
# Packed records

A `Codec` is the byte image of a packed type: a size and two maps that undo each other. Byte fields,
little-endian words and pairs have one, and a structure gets its own from the codec of its fields
(`Codec.map`). `Store.get` and `Store.put` move a record between a store and its type.
-/

namespace OpenNE

/-- A byte image of fixed size. -/
structure Codec (α : Type) where
  size : Nat
  enc : α → List UInt8
  dec : List UInt8 → α
  enc_length : ∀ a, (enc a).length = size
  dec_enc : ∀ a, dec (enc a) = a
  enc_dec : ∀ bs, bs.length = size → enc (dec bs) = bs

attribute [simp] Codec.enc_length Codec.dec_enc

/-! ### Little-endian numbers -/

/-- The `n` low bytes of `v`, low byte first. -/
def leBytes : Nat → Nat → List UInt8
  | 0, _ => []
  | n + 1, v => UInt8.ofNat v :: leBytes n (v / 256)

/-- The number whose bytes are `bs`, low byte first. -/
def leNat : List UInt8 → Nat
  | [] => 0
  | b :: bs => b.toNat + 256 * leNat bs

@[simp] theorem leBytes_length (n v : Nat) : (leBytes n v).length = n := by
  induction n generalizing v with
  | zero => rfl
  | succ n ih => simp [leBytes, ih]

theorem leNat_leBytes (n v : Nat) : leNat (leBytes n v) = v % 256 ^ n := by
  induction n generalizing v with
  | zero => simp [leBytes, leNat, Nat.mod_one]
  | succ n ih =>
    have hlow : (UInt8.ofNat v).toNat = v % 256 := UInt8.toNat_ofNat'
    rw [leBytes, leNat, ih, hlow, Nat.pow_succ', Nat.mod_mul]

theorem leNat_lt (bs : List UInt8) : leNat bs < 256 ^ bs.length := by
  induction bs with
  | nil => simp [leNat]
  | cons b bs ih =>
    have hb := b.toNat_lt
    simp only [leNat, List.length_cons, Nat.pow_succ]
    omega

theorem leBytes_leNat (bs : List UInt8) : leBytes bs.length (leNat bs) = bs := by
  induction bs with
  | nil => rfl
  | cons b bs ih =>
    have hb := b.toNat_lt
    have hlow : UInt8.ofNat (b.toNat + 256 * leNat bs) = b := by
      apply UInt8.toNat_inj.mp
      rw [UInt8.toNat_ofNat']
      omega
    have hhigh : (b.toNat + 256 * leNat bs) / 256 = leNat bs := by omega
    simp only [leNat, List.length_cons, leBytes, hlow, hhigh, ih]

theorem leBytes_zero (n : Nat) : leBytes n 0 = List.replicate n 0 := by
  induction n with
  | zero => rfl
  | succ n ih => simp [leBytes, ih, List.replicate_succ]

/-! ### The codecs -/

/-- A field of `n` bytes. -/
abbrev Bytes (n : Nat) := { bs : List UInt8 // bs.length = n }

def Bytes.zeros (n : Nat) : Bytes n := ⟨List.replicate n 0, List.length_replicate⟩

namespace Codec

def bytes (n : Nat) : Codec (Bytes n) where
  size := n
  enc := Subtype.val
  dec bs := ⟨(bs ++ List.replicate n 0).take n, by simp⟩
  enc_length := Subtype.property
  dec_enc := by
    rintro ⟨bs, rfl⟩
    exact Subtype.ext (by simp)
  enc_dec bs h := by
    subst h
    simp

/-- A number of `n` bytes. -/
def word (n : Nat) : Codec { v : Nat // v < 256 ^ n } where
  size := n
  enc v := leBytes n v
  dec bs := ⟨leNat bs % 256 ^ n, Nat.mod_lt _ (Nat.pow_pos (by decide))⟩
  enc_length v := leBytes_length n v
  dec_enc := by
    rintro ⟨v, hv⟩
    simp only [leNat_leBytes, Nat.mod_eq_of_lt hv]
  enc_dec bs h := by
    have hlt := leNat_lt bs
    subst h
    simp only [Nat.mod_eq_of_lt hlt, leBytes_leNat]

/-- One record after the other. -/
def pair {α β : Type} (a : Codec α) (b : Codec β) : Codec (α × β) where
  size := a.size + b.size
  enc v := a.enc v.1 ++ b.enc v.2
  dec bs := (a.dec (bs.take a.size), b.dec (bs.drop a.size))
  enc_length := by simp
  dec_enc := by
    rintro ⟨x, y⟩
    simp [List.take_left' (a.enc_length x), List.drop_left' (a.enc_length x)]
  enc_dec bs h := by
    rw [a.enc_dec _ (by simp; omega), b.enc_dec _ (by simp; omega), List.take_append_drop]

/-- The image of a type in one-to-one correspondence with a coded one. -/
def map {α β : Type} (c : Codec α) (f : α → β) (g : β → α) (hfg : ∀ b, f (g b) = b)
    (hgf : ∀ a, g (f a) = a) : Codec β where
  size := c.size
  enc b := c.enc (g b)
  dec bs := f (c.dec bs)
  enc_length := by simp
  dec_enc b := by rw [c.dec_enc, hfg]
  enc_dec bs h := by rw [hgf, c.enc_dec bs h]

def u8 : Codec UInt8 :=
  (word 1).map (fun v => UInt8.ofNat v) (fun v => ⟨v.toNat, v.toNat_lt⟩) (fun _ => by simp)
    (fun ⟨v, hv⟩ => Subtype.ext (by simpa using hv))

def u16 : Codec UInt16 :=
  (word 2).map (fun v => UInt16.ofNat v) (fun v => ⟨v.toNat, v.toNat_lt⟩) (fun _ => by simp)
    (fun ⟨v, hv⟩ => Subtype.ext (by simpa using hv))

def u32 : Codec UInt32 :=
  (word 4).map (fun v => UInt32.ofNat v) (fun v => ⟨v.toNat, v.toNat_lt⟩) (fun _ => by simp)
    (fun ⟨v, hv⟩ => Subtype.ext (by simpa using hv))

def u64 : Codec UInt64 :=
  (word 8).map (fun v => UInt64.ofNat v) (fun v => ⟨v.toNat, v.toNat_lt⟩) (fun _ => by simp)
    (fun ⟨v, hv⟩ => Subtype.ext (by simpa using hv))

def i32 : Codec Int32 :=
  u32.map UInt32.toInt32 Int32.toUInt32 (fun _ => by simp) (fun _ => by simp)

def i64 : Codec Int64 :=
  u64.map UInt64.toInt64 Int64.toUInt64 (fun _ => by simp) (fun _ => by simp)

end Codec

/-! ### Records in a store -/

namespace Store

variable {α β : Type} {c : Codec α} {d : Codec β} {s t : Store} {a b : Nat} {v : α}

/-- The record at `a`. -/
def get (c : Codec α) (s : Store) (a : Nat) : α := c.dec (s.read a c.size)

/-- The store with the record `v` at `a`. -/
def put (c : Codec α) (s : Store) (a : Nat) (v : α) : Store := s.write a (c.enc v)

theorem get_put_same : (s.put c a v).get c a = v := by
  have h : (s.write a (c.enc v)).read a c.size = c.enc v := by
    rw [← c.enc_length v]
    exact read_write_same
  rw [get, put, h, c.dec_enc]

theorem get_put_disjoint (h : b + d.size ≤ a ∨ a + c.size ≤ b) :
    (s.put c a v).get d b = s.get d b := by
  rw [get, put, read_write_disjoint (by simpa using h), get]

theorem put_apply_outside {x : Nat} (h : x < a ∨ a + c.size ≤ x) : s.put c a v x = s x :=
  write_apply_outside (by simpa using h)

theorem put_apply_inside {i : Nat} (h : i < c.size) : s.put c a v (a + i) = (c.enc v).getD i 0 := by
  rw [put, write, if_pos (by rw [c.enc_length]; omega), Nat.add_sub_cancel_left]

theorem get_congr (h : ∀ x, a ≤ x → x < a + c.size → s x = t x) : s.get c a = t.get c a := by
  rw [get, get, read_congr h]

theorem eq_of_get_eq {x : Nat} (h : s.get c a = t.get c a) (hlow : a ≤ x) (hhigh : x < a + c.size) : s x = t x := by
  have hread := congrArg c.enc h
  rw [get, get, c.enc_dec _ (read_length _ _ _), c.enc_dec _ (read_length _ _ _)] at hread
  exact eq_of_read_eq hread hlow hhigh

theorem get_pair : s.get (c.pair d) a = (s.get c a, s.get d (a + c.size)) := by
  simp only [get, Codec.pair, read_add]
  rw [List.take_left' (by simp), List.drop_left' (by simp)]

theorem get_zeroed (h : ∀ x, a ≤ x → x < a + c.size → s x = 0) :
    s.get c a = c.dec (List.replicate c.size 0) := by
  rw [get, read_zeroed h]

end Store

end OpenNE

import OpenNE.Base.CString
import Mathlib.Data.List.Infix

/-!
# The syntax of an address (`src/Network/IPAddr.cc`)

`IpCheckVersion4` counts the characters between dots and refuses four in a row. Nothing else is looked at, so that it
takes every other string for an address (`ipCheckVersion4_iff`).
-/

namespace OpenNE

/-! ### The call -/

/-- The loop of `IpCheckVersion4`, `cnter` characters behind the last dot. -/
def checkFrom (cnter : Nat) : List UInt8 → Bool
  | [] => true
  | c :: cs =>
    if c = 46 then checkFrom 0 cs
    else if cnter = 3 then false
    else checkFrom (cnter + 1) cs

/-- `IPFactory::IpCheckVersion4`. -/
def ipCheckVersion4 : Option CString → Bool
  | none => false
  | some ip => checkFrom 0 ip.1

/-! ### What it is for -/

/-- What a decimal numeral stands for. -/
def decimalValue (g : List UInt8) : Nat := g.foldl (fun n c => n * 10 + (c.toNat - 48)) 0

/-- One to three digits, of a number up to 255. -/
structure Octet (g : List UInt8) : Prop where
  nonempty : g ≠ []
  short : g.length ≤ 3
  digits : ∀ c ∈ g, 48 ≤ c ∧ c ≤ 57
  value : decimalValue g ≤ 255

/-- Four of them, with dots between. -/
def DottedQuad (s : List UInt8) : Prop :=
  ∃ a b c d, Octet a ∧ Octet b ∧ Octet c ∧ Octet d ∧ s = a ++ 46 :: (b ++ 46 :: (c ++ 46 :: d))

/-- Four characters in a row, none of them a dot. -/
def LongGroup (s : List UInt8) : Prop := ∃ g, g <:+: s ∧ g.length = 4 ∧ (46 : UInt8) ∉ g

/-! ### What is refused -/

section Check

variable {s cs g : List UInt8} {c : UInt8} {cnter k : Nat}

/-- `k` characters at the beginning, none of them a dot. -/
def Dotless (k : Nat) (s : List UInt8) : Prop := ∃ g, g <+: s ∧ g.length = k ∧ (46 : UInt8) ∉ g

theorem Dotless.mono {l : Nat} (h : Dotless k s) (hl : l ≤ k) : Dotless l s := by
  obtain ⟨g, hprefix, hlen, hdot⟩ := h
  refine ⟨g.take l, (List.take_prefix l g).trans hprefix, ?_, fun hmem => hdot (List.mem_of_mem_take hmem)⟩
  rw [List.length_take]
  omega

theorem dotless_cons (hc : c ≠ 46) : Dotless (k + 1) (c :: cs) ↔ Dotless k cs := by
  constructor
  · rintro ⟨g, hprefix, hlen, hdot⟩
    rcases List.prefix_cons_iff.mp hprefix with rfl | ⟨g', rfl, hprefix'⟩
    · cases hlen
    · exact ⟨g', hprefix', Nat.succ.inj hlen, fun hmem => hdot (List.mem_cons_of_mem _ hmem)⟩
  · rintro ⟨g, hprefix, hlen, hdot⟩
    refine ⟨c :: g, List.cons_prefix_cons.mpr ⟨rfl, hprefix⟩, by rw [List.length_cons, hlen], ?_⟩
    rw [List.mem_cons, not_or]
    exact ⟨fun h => hc h.symm, hdot⟩

theorem not_dotless_dot : ¬ Dotless (k + 1) (46 :: cs) := by
  rintro ⟨g, hprefix, hlen, hdot⟩
  rcases List.prefix_cons_iff.mp hprefix with rfl | ⟨g', rfl, -⟩
  · cases hlen
  · exact hdot (List.mem_cons_self)

theorem Dotless.longGroup (h : Dotless 4 s) : LongGroup s := by
  obtain ⟨g, hprefix, hg⟩ := h
  exact ⟨g, hprefix.isInfix, hg⟩

theorem longGroup_cons : LongGroup (c :: cs) ↔ Dotless 4 (c :: cs) ∨ LongGroup cs := by
  constructor
  · rintro ⟨g, hinfix, hg⟩
    rcases List.infix_cons_iff.mp hinfix with hprefix | hinfix'
    · exact .inl ⟨g, hprefix, hg⟩
    · exact .inr ⟨g, hinfix', hg⟩
  · rintro (hfirst | ⟨g, hinfix, hg⟩)
    · exact hfirst.longGroup
    · exact ⟨g, List.infix_cons hinfix, hg⟩

theorem not_dotless_nil : ¬ Dotless (k + 1) [] := by
  rintro ⟨g, hprefix, hlen, -⟩
  rw [List.prefix_nil.mp hprefix] at hlen
  cases hlen

theorem not_longGroup_nil : ¬ LongGroup [] := by
  rintro ⟨g, hinfix, hlen, -⟩
  rw [List.eq_nil_of_infix_nil hinfix] at hlen
  cases hlen

theorem checkFrom_eq_false (hcnter : cnter ≤ 3) :
    checkFrom cnter s = false ↔ Dotless (3 - cnter + 1) s ∨ LongGroup s := by
  induction s generalizing cnter with
  | nil =>
    have hnone : ¬ (Dotless (3 - cnter + 1) [] ∨ LongGroup []) := not_or.mpr ⟨not_dotless_nil, not_longGroup_nil⟩
    exact iff_of_false (by rw [checkFrom]; decide) hnone
  | cons c cs ih =>
    rw [checkFrom, longGroup_cons]
    by_cases hdot : c = 46
    · subst hdot
      rw [if_pos rfl, ih (Nat.zero_le 3)]
      constructor
      · rintro (hfirst | hlong)
        · exact .inr (.inr hfirst.longGroup)
        · exact .inr (.inr hlong)
      · rintro (hfirst | hfirst | hlong)
        · exact absurd hfirst not_dotless_dot
        · exact absurd hfirst not_dotless_dot
        · exact .inr hlong
    · rw [if_neg hdot]
      by_cases hfull : cnter = 3
      · have hone : Dotless 1 (c :: cs) := (dotless_cons hdot).mpr ⟨[], List.nil_prefix, rfl, List.not_mem_nil⟩
        rw [if_pos hfull, hfull]
        exact iff_of_true rfl (.inl hone)
      · have hroom : 3 - cnter = 3 - (cnter + 1) + 1 := by omega
        rw [if_neg hfull, ih (by omega), dotless_cons hdot, hroom]
        constructor
        · rintro (hfirst | hlong)
          · exact .inl hfirst
          · exact .inr (.inr hlong)
        · rintro (hfirst | hfirst | hlong)
          · exact .inl hfirst
          · have hshort := (dotless_cons hdot).mp hfirst
            exact .inl (hshort.mono (by omega))
          · exact .inr hlong

theorem ipCheckVersion4_eq_true (ip : CString) : ipCheckVersion4 (some ip) = true ↔ ¬ LongGroup ip.1 := by
  have hfalse := checkFrom_eq_false (s := ip.1) (Nat.zero_le 3)
  rw [ipCheckVersion4, ← Bool.not_eq_false, hfalse]
  exact not_congr ⟨fun h => h.elim Dotless.longGroup id, .inr⟩

/-! ### What is accepted -/

theorem Octet.dotless (h : Octet g) : (46 : UInt8) ∉ g := by
  intro hmem
  exact absurd (h.digits 46 hmem).1 (by decide)

theorem checkFrom_group (hdot : (46 : UInt8) ∉ g) (hlen : cnter + g.length ≤ 3) :
    checkFrom cnter (g ++ s) = checkFrom (cnter + g.length) s := by
  induction g generalizing cnter with
  | nil => rfl
  | cons c cs ih =>
    rw [List.mem_cons, not_or] at hdot
    rw [List.length_cons] at hlen ⊢
    rw [List.cons_append, checkFrom, if_neg (Ne.symm hdot.1), if_neg (by omega), ih hdot.2 (by omega)]
    congr 1
    omega

theorem checkFrom_octet (h : Octet g) : checkFrom 0 (g ++ 46 :: s) = checkFrom 0 s := by
  have hlen := h.short
  rw [checkFrom_group h.dotless (by omega), checkFrom, if_pos rfl]

theorem DottedQuad.not_longGroup (h : DottedQuad s) : ¬ LongGroup s := by
  obtain ⟨a, b, c, d, ha, hb, hc, hd, rfl⟩ := h
  have hlen := hd.short
  have hrun : checkFrom 0 (a ++ 46 :: (b ++ 46 :: (c ++ 46 :: d))) = true := by
    have hlast : checkFrom 0 d = true := by
      have hgroup : checkFrom 0 (d ++ []) = checkFrom (0 + d.length) [] := checkFrom_group hd.dotless (by omega)
      rw [List.append_nil] at hgroup
      rw [hgroup, checkFrom]
    rw [checkFrom_octet ha, checkFrom_octet hb, checkFrom_octet hc, hlast]
  intro hlong
  have hrefused := (checkFrom_eq_false (Nat.zero_le 3)).mpr (.inr hlong)
  rw [hrun] at hrefused
  cases hrefused

end Check

/-- The check tells the addresses exactly among the strings that are one or have four characters in a row without a
dot. -/
theorem ipCheckVersion4_iff (ip : CString) :
    (ipCheckVersion4 (some ip) = true ↔ DottedQuad ip.1) ↔ DottedQuad ip.1 ∨ LongGroup ip.1 := by
  rw [ipCheckVersion4_eq_true]
  constructor
  · intro h
    by_cases hlong : LongGroup ip.1
    · exact .inr hlong
    · exact .inl (h.mp hlong)
  · rintro (hquad | hlong)
    · exact iff_of_true hquad.not_longGroup hquad
    · exact iff_of_false (not_not.mpr hlong) fun hquad => hquad.not_longGroup hlong

/-- The string `a` is taken for an address. -/
theorem letter_accepted : ipCheckVersion4 (some letterA) = true ∧ ¬ DottedQuad letterA.1 := by
  refine ⟨rfl, ?_⟩
  rintro ⟨a, b, c, d, -, -, -, -, hs⟩
  have hdot : (46 : UInt8) ∈ letterA.1 := by
    rw [hs]
    exact List.mem_append_right a List.mem_cons_self
  exact absurd hdot (by decide)

end OpenNE

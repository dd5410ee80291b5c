import OpenNE.Base.Run
import OpenNE.Boot.StringCompare
import OpenNE.Display.Framebuffer

/-!
# Text on the framebuffer (`Mod/CoreGfx/TextMgr.h`)

A character is eight lines high and eight columns wide, and the string goes on in the columns. With every other way of
drawing this makes a run of drawings on the memory one on the picture (`drawings_run`).
-/

namespace OpenNE

def kFontSizeX : UInt64 := 8
def kFontSizeY : UInt64 := 8

def kFontBitmap : List (List UInt8) :=
  [[0x00, 0x00, 0x00, 0x00, 0x00, 0x00, 0x00, 0x00], [0x00, 0x00, 0x00, 0x00, 0x00, 0x00, 0x00, 0x00],
   [0x00, 0x00, 0x00, 0x00, 0x00, 0x00, 0x00, 0x00], [0x00, 0x00, 0x00, 0x00, 0x00, 0x00, 0x00, 0x00],
   [0x00, 0x00, 0x00, 0x00, 0x00, 0x00, 0x00, 0x00], [0x00, 0x00, 0x00, 0x00, 0x00, 0x00, 0x00, 0x00],
   [0x00, 0x00, 0x00, 0x00, 0x00, 0x00, 0x00, 0x00], [0x00, 0x00, 0x00, 0x00, 0x00, 0x00, 0x00, 0x00],
   [0x00, 0x00, 0x00, 0x00, 0x00, 0x00, 0x00, 0x00], [0x00, 0x00, 0x00, 0x00, 0x00, 0x00, 0x00, 0x00],
   [0x00, 0x00, 0x00, 0x00, 0x00, 0x00, 0x00, 0x00], [0x00, 0x00, 0x00, 0x00, 0x00, 0x00, 0x00, 0x00],
   [0x00, 0x00, 0x00, 0x00, 0x00, 0x00, 0x00, 0x00], [0x00, 0x00, 0x00, 0x00, 0x00, 0x00, 0x00, 0x00],
   [0x00, 0x00, 0x00, 0x00, 0x00, 0x00, 0x00, 0x00], [0x00, 0x00, 0x00, 0x00, 0x00, 0x00, 0x00, 0x00],
   [0x00, 0x00, 0x00, 0x00, 0x00, 0x00, 0x00, 0x00], [0x00, 0x00, 0x00, 0x00, 0x00, 0x00, 0x00, 0x00],
   [0x00, 0x00, 0x00, 0x00, 0x00, 0x00, 0x00, 0x00], [0x00, 0x00, 0x00, 0x00, 0x00, 0x00, 0x00, 0x00],
   [0x00, 0x00, 0x00, 0x00, 0x00, 0x00, 0x00, 0x00], [0x00, 0x00, 0x00, 0x00, 0x00, 0x00, 0x00, 0x00],
   [0x00, 0x00, 0x00, 0x00, 0x00, 0x00, 0x00, 0x00], [0x00, 0x00, 0x00, 0x00, 0x00, 0x00, 0x00, 0x00],
   [0x00, 0x00, 0x00, 0x00, 0x00, 0x00, 0x00, 0x00], [0x00, 0x00, 0x00, 0x00, 0x00, 0x00, 0x00, 0x00],
   [0x00, 0x00, 0x00, 0x00, 0x00, 0x00, 0x00, 0x00], [0x00, 0x00, 0x00, 0x00, 0x00, 0x00, 0x00, 0x00],
   [0x00, 0x00, 0x00, 0x00, 0x00, 0x00, 0x00, 0x00], [0x00, 0x00, 0x00, 0x00, 0x00, 0x00, 0x00, 0x00],
   [0x00, 0x00, 0x00, 0x00, 0x00, 0x00, 0x00, 0x00], [0x00, 0x00, 0x00, 0x00, 0x00, 0x00, 0x00, 0x00],
   [0x00, 0x00, 0x00, 0x00, 0x00, 0x00, 0x00, 0x00], [0x18, 0x3C, 0x3C, 0x18, 0x18, 0x00, 0x18, 0x00],
   [0x36, 0x36, 0x00, 0x00, 0x00, 0x00, 0x00, 0x00], [0x36, 0x36, 0x7F, 0x36, 0x7F, 0x36, 0x36, 0x00],
   [0x0C, 0x3E, 0x03, 0x1E, 0x30, 0x1F, 0x0C, 0x00], [0x00, 0x63, 0x33, 0x18, 0x0C, 0x66, 0x63, 0x00],
   [0x1C, 0x36, 0x1C, 0x6E, 0x3B, 0x33, 0x6E, 0x00], [0x06, 0x06, 0x03, 0x00, 0x00, 0x00, 0x00, 0x00],
   [0x18, 0x0C, 0x06, 0x06, 0x06, 0x0C, 0x18, 0x00], [0x06, 0x0C, 0x18, 0x18, 0x18, 0x0C, 0x06, 0x00],
   [0x00, 0x66, 0x3C, 0xFF, 0x3C, 0x66, 0x00, 0x00], [0x00, 0x0C, 0x0C, 0x3F, 0x0C, 0x0C, 0x00, 0x00],
   [0x00, 0x00, 0x00, 0x00, 0x00, 0x0C, 0x0C, 0x06], [0x00, 0x00, 0x00, 0x3F, 0x00, 0x00, 0x00, 0x00],
   [0x00, 0x00, 0x00, 0x00, 0x00, 0x0C, 0x0C, 0x00], [0x60, 0x30, 0x18, 0x0C, 0x06, 0x03, 0x01, 0x00],
   [0x3E, 0x63, 0x73, 0x7B, 0x6F, 0x67, 0x3E, 0x00], [0x0C, 0x0E, 0x0C, 0x0C, 0x0C, 0x0C, 0x3F, 0x00],
   [0x1E, 0x33, 0x30, 0x1C, 0x06, 0x33, 0x3F, 0x00], [0x1E, 0x33, 0x30, 0x1C, 0x30, 0x33, 0x1E, 0x00],
   [0x38, 0x3C, 0x36, 0x33, 0x7F, 0x30, 0x78, 0x00], [0x3F, 0x03, 0x1F, 0x30, 0x30, 0x33, 0x1E, 0x00],
   [0x1C, 0x06, 0x03, 0x1F, 0x33, 0x33, 0x1E, 0x00], [0x3F, 0x33, 0x30, 0x18, 0x0C, 0x0C, 0x0C, 0x00],
   [0x1E, 0x33, 0x33, 0x1E, 0x33, 0x33, 0x1E, 0x00], [0x1E, 0x33, 0x33, 0x3E, 0x30, 0x18, 0x0E, 0x00],
   [0x00, 0x0C, 0x0C, 0x00, 0x00, 0x0C, 0x0C, 0x00], [0x00, 0x0C, 0x0C, 0x00, 0x00, 0x0C, 0x0C, 0x06],
   [0x18, 0x0C, 0x06, 0x03, 0x06, 0x0C, 0x18, 0x00], [0x00, 0x00, 0x3F, 0x00, 0x00, 0x3F, 0x00, 0x00],
   [0x06, 0x0C, 0x18, 0x30, 0x18, 0x0C, 0x06, 0x00], [0x1E, 0x33, 0x30, 0x18, 0x0C, 0x00, 0x0C, 0x00],
   [0x3E, 0x63, 0x7B, 0x7B, 0x7B, 0x03, 0x1E, 0x00], [0x0C, 0x1E, 0x33, 0x33, 0x3F, 0x33, 0x33, 0x00],
   [0x3F, 0x66, 0x66, 0x3E, 0x66, 0x66, 0x3F, 0x00], [0x3C, 0x66, 0x03, 0x03, 0x03, 0x66, 0x3C, 0x00],
   [0x1F, 0x36, 0x66, 0x66, 0x66, 0x36, 0x1F, 0x00], [0x7F, 0x46, 0x16, 0x1E, 0x16, 0x46, 0x7F, 0x00],
   [0x7F, 0x46, 0x16, 0x1E, 0x16, 0x06, 0x0F, 0x00], [0x3C, 0x66, 0x03, 0x03, 0x73, 0x66, 0x7C, 0x00],
   [0x33, 0x33, 0x33, 0x3F, 0x33, 0x33, 0x33, 0x00], [0x1E, 0x0C, 0x0C, 0x0C, 0x0C, 0x0C, 0x1E, 0x00],
   [0x78, 0x30, 0x30, 0x30, 0x33, 0x33, 0x1E, 0x00], [0x67, 0x66, 0x36, 0x1E, 0x36, 0x66, 0x67, 0x00],
   [0x0F, 0x06, 0x06, 0x06, 0x46, 0x66, 0x7F, 0x00], [0x63, 0x77, 0x7F, 0x7F, 0x6B, 0x63, 0x63, 0x00],
   [0x63, 0x67, 0x6F, 0x7B, 0x73, 0x63, 0x63, 0x00], [0x1C, 0x36, 0x63, 0x63, 0x63, 0x36, 0x1C, 0x00],
   [0x3F, 0x66, 0x66, 0x3E, 0x06, 0x06, 0x0F, 0x00], [0x1E, 0x33, 0x33, 0x33, 0x3B, 0x1E, 0x38, 0x00],
   [0x3F, 0x66, 0x66, 0x3E, 0x36, 0x66, 0x67, 0x00], [0x1E, 0x33, 0x07, 0x0E, 0x38, 0x33, 0x1E, 0x00],
   [0x3F, 0x2D, 0x0C, 0x0C, 0x0C, 0x0C, 0x1E, 0x00], [0x33, 0x33, 0x33, 0x33, 0x33, 0x33, 0x3F, 0x00],
   [0x33, 0x33, 0x33, 0x33, 0x33, 0x1E, 0x0C, 0x00], [0x63, 0x63, 0x63, 0x6B, 0x7F, 0x77, 0x63, 0x00],
   [0x63, 0x63, 0x36, 0x1C, 0x1C, 0x36, 0x63, 0x00], [0x33, 0x33, 0x33, 0x1E, 0x0C, 0x0C, 0x1E, 0x00],
   [0x7F, 0x63, 0x31, 0x18, 0x4C, 0x66, 0x7F, 0x00], [0x1E, 0x06, 0x06, 0x06, 0x06, 0x06, 0x1E, 0x00],
   [0x03, 0x06, 0x0C, 0x18, 0x30, 0x60, 0x40, 0x00], [0x1E, 0x18, 0x18, 0x18, 0x18, 0x18, 0x1E, 0x00],
   [0x08, 0x1C, 0x36, 0x63, 0x00, 0x00, 0x00, 0x00], [0x00, 0x00, 0x00, 0x00, 0x00, 0x00, 0x00, 0xFF],
   [0x0C, 0x0C, 0x18, 0x00, 0x00, 0x00, 0x00, 0x00], [0x00, 0x00, 0x1E, 0x30, 0x3E, 0x33, 0x6E, 0x00],
   [0x07, 0x06, 0x06, 0x3E, 0x66, 0x66, 0x3B, 0x00], [0x00, 0x00, 0x1E, 0x33, 0x03, 0x33, 0x1E, 0x00],
   [0x38, 0x30, 0x30, 0x3e, 0x33, 0x33, 0x6E, 0x00], [0x00, 0x00, 0x1E, 0x33, 0x3f, 0x03, 0x1E, 0x00],
   [0x1C, 0x36, 0x06, 0x0f, 0x06, 0x06, 0x0F, 0x00], [0x00, 0x00, 0x6E, 0x33, 0x33, 0x3E, 0x30, 0x1F],
   [0x07, 0x06, 0x36, 0x6E, 0x66, 0x66, 0x67, 0x00], [0x0C, 0x00, 0x0E, 0x0C, 0x0C, 0x0C, 0x1E, 0x00],
   [0x30, 0x00, 0x30, 0x30, 0x30, 0x33, 0x33, 0x1E], [0x07, 0x06, 0x66, 0x36, 0x1E, 0x36, 0x67, 0x00],
   [0x0E, 0x0C, 0x0C, 0x0C, 0x0C, 0x0C, 0x1E, 0x00], [0x00, 0x00, 0x33, 0x7F, 0x7F, 0x6B, 0x63, 0x00],
   [0x00, 0x00, 0x1F, 0x33, 0x33, 0x33, 0x33, 0x00], [0x00, 0x00, 0x1E, 0x33, 0x33, 0x33, 0x1E, 0x00],
   [0x00, 0x00, 0x3B, 0x66, 0x66, 0x3E, 0x06, 0x0F], [0x00, 0x00, 0x6E, 0x33, 0x33, 0x3E, 0x30, 0x78],
   [0x00, 0x00, 0x3B, 0x6E, 0x66, 0x06, 0x0F, 0x00], [0x00, 0x00, 0x3E, 0x03, 0x1E, 0x30, 0x1F, 0x00],
   [0x08, 0x0C, 0x3E, 0x0C, 0x0C, 0x2C, 0x18, 0x00], [0x00, 0x00, 0x33, 0x33, 0x33, 0x33, 0x6E, 0x00],
   [0x00, 0x00, 0x33, 0x33, 0x33, 0x1E, 0x0C, 0x00], [0x00, 0x00, 0x63, 0x6B, 0x7F, 0x7F, 0x36, 0x00],
   [0x00, 0x00, 0x63, 0x36, 0x1C, 0x36, 0x63, 0x00], [0x00, 0x00, 0x33, 0x33, 0x33, 0x3E, 0x30, 0x1F],
   [0x00, 0x00, 0x3F, 0x19, 0x0C, 0x26, 0x3F, 0x00], [0x38, 0x0C, 0x0C, 0x07, 0x0C, 0x0C, 0x38, 0x00],
   [0x18, 0x18, 0x18, 0x00, 0x18, 0x18, 0x18, 0x00], [0x07, 0x0C, 0x0C, 0x38, 0x0C, 0x0C, 0x07, 0x00],
   [0x6E, 0x3B, 0x00, 0x00, 0x00, 0x00, 0x00, 0x00], [0x00, 0x00, 0x00, 0x00, 0x00, 0x00, 0x00, 0x00]]

/-- `bitmap[x] & (1 << y)`. -/
def glyphBit (bitmap : List UInt8) (x y : Nat) : Bool := (bitmap.getD x 0).toUInt32 &&& (1 <<< UInt32.ofNat y) != 0

/-- An `int` as a `SizeT`. -/
def sizeOfInt (v : Int32) : UInt64 := v.toInt64.toUInt64

/-- The body of the loops in `fb_render_string_for_bitmap`. -/
def glyphRound (gop : Gop) (bitmap : List UInt8) (xDst yDst color : Int32) (mem : Store) (y x : Nat) : Store :=
  if glyphBit bitmap x y then
    (fbDrawInRegion gop color.toUInt32
      ⟨1, 1, sizeOfInt (xDst + Int32.ofNat x), sizeOfInt (yDst + Int32.ofNat y)⟩ ⟨mem, 0⟩).mem
  else mem

/-- `fb_render_string_for_bitmap`. -/
def fbRenderStringForBitmap (gop : Gop) (bitmap : List UInt8) (xSz ySz : UInt64) (xDst yDst color : Int32)
    (mem : Store) : Store :=
  gridLoop (glyphRound gop bitmap xDst yDst color) 0 ySz.toNat 0 xSz.toNat mem

/-- The variables of the loop in `fb_render_string`. -/
structure Rendering where
  i : Nat
  yDst : Int32
  mem : Store

/-- A round of it. A `Char` above 127 is a negative index. -/
def renderRound (gop : Gop) (text : Nat) (xDst color : Int32) (s : Rendering) : Exec (Rendering ⊕ Store) :=
  let c := s.mem (text + s.i)
  if c = 0 then .ok (.inr s.mem)
  else if 128 ≤ c then .error .fault
  else
    let mem := fbRenderStringForBitmap gop (kFontBitmap.getD c.toNat []) kFontSizeX kFontSizeY xDst s.yDst color s.mem
    .ok (.inl ⟨s.i + 1, s.yDst + 8, mem⟩)

/-- `fb_render_string`. -/
def fbRenderString (gop : Gop) (fuel text : Nat) (xDst yDst color : Int32) (mem : Store) : Exec Store :=
  loop (renderRound gop text xDst color) fuel ⟨0, yDst, mem⟩

/-! ### One character -/

theorem toNat_sizeOfInt {n : Nat} (hn : n < 2 ^ 31) : (sizeOfInt (Int32.ofNat n)).toNat = n := by
  have hpositive : 0 ≤ (Int32.ofNat n).toInt64 := by
    rw [Int64.le_iff_toInt_le, Int32.toInt_toInt64, Int32.toInt_ofNat_of_lt hn]
    exact Int.natCast_nonneg n
  unfold sizeOfInt
  rw [Int64.toNat_toUInt64_of_le hpositive, Int32.toNatClampNeg_toInt64, Int32.toNatClampNeg_ofNat_of_lt hn]

/-- The characters' boxes, `n` of them, with the bits of the glyphs painted. -/
def textPicture (glyph : Nat → List UInt8) (n x y : Nat) (clr : UInt32) (picture : Picture UInt32) : Picture UInt32 :=
  fun p => if InGrid x 8 y (8 * n) p ∧ glyphBit (glyph ((p.2 - y) / 8)) (p.1 - x) ((p.2 - y) % 8) then clr
    else picture p

section Draw

variable {gop : Gop} {lines : Nat} {mem₀ mem : Store} {picture : Picture UInt32} {x y : Nat} {color : Int32}

theorem Shows.drawOne (hs : Screen gop lines) (h : Shows gop lines mem₀ mem picture) {line column : Nat}
    (hline : line < lines) (hcolumn : column < gop.f_PixelPerLine.toNat) (hsmall : line < 2 ^ 31) (clr : UInt32) :
    Shows gop lines mem₀
      (fbDrawInRegion gop clr ⟨1, 1, sizeOfInt (Int32.ofNat line), sizeOfInt (Int32.ofNat column)⟩ ⟨mem, 0⟩).mem
      (Function.update picture (line, column) clr) := by
  have hpixels := hs.small
  have hbaseX : (sizeOfInt (Int32.ofNat line)).toNat = line := toNat_sizeOfInt hsmall
  have hbaseY : (sizeOfInt (Int32.ofNat column)).toNat = column := toNat_sizeOfInt (by omega)
  have hone : (1 : UInt64).toNat = 1 := rfl
  have hfits : Region.Fits ⟨1, 1, sizeOfInt (Int32.ofNat line), sizeOfInt (Int32.ofNat column)⟩ gop lines := by
    unfold Region.Fits
    dsimp only
    rw [hbaseX, hbaseY, hone]
    omega
  refine (congrArg (Shows gop lines mem₀ _) (funext fun p => ?_)).mp (h.drawLoops hs hfits)
  unfold Region.painted paintGrid InGrid
  dsimp only
  rw [hbaseX, hbaseY, hone]
  by_cases hp : p = (line, column)
  · subst hp
    rw [Function.update_self]
    exact if_pos (by omega)
  · rw [Function.update_of_ne hp]
    apply if_neg
    intro hin
    exact hp (Prod.ext (by omega) (by omega))

theorem Shows.renderGlyph (hs : Screen gop lines) (h : Shows gop lines mem₀ mem picture) (bitmap : List UInt8)
    (color : Int32) (hx : x + 8 ≤ lines) (hy : y + 8 ≤ gop.f_PixelPerLine.toNat) (hsmall : x + 8 ≤ 2 ^ 31) :
    Shows gop lines mem₀
      (fbRenderStringForBitmap gop bitmap kFontSizeX kFontSizeY (Int32.ofNat x) (Int32.ofNat y) color mem)
      fun p => if InGrid x 8 y 8 p ∧ glyphBit bitmap (p.1 - x) (p.2 - y) then color.toUInt32 else picture p := by
  have hstep : ∀ i < 8, ∀ j < 8, ∀ mem (swapped : Picture UInt32),
      Shows gop lines mem₀ mem (fun p => swapped (p.2, p.1)) →
      Shows gop lines mem₀
        (glyphRound gop bitmap (Int32.ofNat x) (Int32.ofNat y) color mem (y + i - y) (x + j - x))
        fun p => Function.update swapped (y + i, x + j)
          (if glyphBit bitmap j i then color.toUInt32 else swapped (y + i, x + j)) (p.2, p.1) := by
    intro i hi j hj mem swapped hshows
    unfold glyphRound
    rw [Nat.add_sub_cancel_left, Nat.add_sub_cancel_left]
    by_cases hbit : glyphBit bitmap j i
    · rw [if_pos hbit, if_pos hbit, ← Int32.ofNat_add, ← Int32.ofNat_add]
      refine (congrArg (Shows gop lines mem₀ _) (funext fun p => ?_)).mp
        (hshows.drawOne hs (by omega) (by omega) (by omega) _)
      by_cases hp : p = (x + j, y + i)
      · subst hp
        rw [Function.update_self, Function.update_self]
      · have hp' : (p.2, p.1) ≠ (y + i, x + j) := by
          intro heq
          obtain ⟨hsnd, hfst⟩ := Prod.mk.inj heq
          exact hp (Prod.ext hfst hsnd)
        rw [Function.update_of_ne hp, Function.update_of_ne hp']
    · rw [if_neg hbit, if_neg hbit, Function.update_eq_self]
      exact hshows
  have hpaints : Shows gop lines mem₀
      (gridLoop (fun mem i j => glyphRound gop bitmap (Int32.ofNat x) (Int32.ofNat y) color mem (i - y) (j - x))
        y 8 x 8 mem)
      fun p => paintGrid (fun i j pixel => if glyphBit bitmap j i then color.toUInt32 else pixel) y 8 x 8
        (fun p => picture (p.2, p.1)) (p.2, p.1) :=
    gridLoop_paints _ _ (fun _ mem swapped => Shows gop lines mem₀ mem fun p => swapped (p.2, p.1)) hstep h
  unfold fbRenderStringForBitmap
  rw [gridLoop_shift _ y _ x]
  refine (congrArg (Shows gop lines mem₀ _) (funext fun p => ?_)).mp hpaints
  have hiff : InGrid y 8 x 8 (p.2, p.1) ↔ InGrid x 8 y 8 p := and_comm
  unfold paintGrid
  simp only [hiff]
  by_cases hin : InGrid x 8 y 8 p
  · simp only [hin, true_and, if_true]
  · simp only [hin, false_and, if_false]

theorem textPicture_succ (glyph : Nat → List UInt8) (n x y : Nat) (clr : UInt32) (picture : Picture UInt32) :
    (fun p => if InGrid x 8 (y + 8 * n) 8 p ∧ glyphBit (glyph n) (p.1 - x) (p.2 - (y + 8 * n)) then clr
      else textPicture glyph n x y clr picture p) = textPicture glyph (n + 1) x y clr picture := by
  funext p
  unfold textPicture
  by_cases hlast : InGrid x 8 (y + 8 * n) 8 p
  · have hin : InGrid x 8 y (8 * (n + 1)) p := by
      unfold InGrid at hlast ⊢
      omega
    have hbefore : ¬InGrid x 8 y (8 * n) p := by
      unfold InGrid at hlast ⊢
      omega
    have hcolumn := hlast.2
    have hdiv : (p.2 - y) / 8 = n := by omega
    have hmod : (p.2 - y) % 8 = p.2 - (y + 8 * n) := by omega
    simp only [hlast, hin, hbefore, hdiv, hmod, true_and, false_and, if_false]
  · have hiff : InGrid x 8 y (8 * (n + 1)) p ↔ InGrid x 8 y (8 * n) p := by
      unfold InGrid at hlast ⊢
      omega
    simp only [hlast, hiff, false_and, if_false]

/-- The string lies outside the framebuffer and has a glyph for every character, and there is room for it. -/
structure TextFits (gop : Gop) (lines : Nat) (mem : Store) (text : Nat) (s : CString) (x y : Nat) : Prop where
  string : StringAt mem text s
  outside : ∀ k ≤ s.length, ¬gop.Holds lines (text + k)
  chars : ∀ k < s.length, s.1.getD k 0 < 128
  line : x + 8 ≤ lines
  small : x + 8 ≤ 2 ^ 31
  column : y + 8 * s.length ≤ gop.f_PixelPerLine.toNat

/-- The glyph of a character of the string. -/
def glyphOf (s : CString) (k : Nat) : List UInt8 := kFontBitmap.getD (s.1.getD k 0).toNat []

theorem Shows.renderRounds (hs : Screen gop lines) (h : Shows gop lines mem₀ mem picture) {text : Nat} {s : CString}
    (ht : TextFits gop lines mem text s x y) (k : Nat) (hk : k ≤ s.length) :
    ∃ mem', (∀ rest, loop (renderRound gop text (Int32.ofNat x) color) (k + rest) ⟨0, Int32.ofNat y, mem⟩ =
        loop (renderRound gop text (Int32.ofNat x) color) rest ⟨k, Int32.ofNat (y + 8 * k), mem'⟩) ∧
      Shows gop lines mem₀ mem' (textPicture (glyphOf s) k x y color.toUInt32 picture) := by
  induction k with
  | zero =>
    refine ⟨mem, fun rest => by rw [Nat.zero_add]; rfl, ?_⟩
    refine (congrArg (Shows gop lines mem₀ _) (funext fun p => ?_)).mp h
    symm
    apply if_neg
    unfold InGrid
    omega
  | succ k ih =>
    obtain ⟨mem', hrounds, hshows⟩ := ih (Nat.le_of_succ_le hk)
    have hchar : mem' (text + k) = s.1.getD k 0 := by
      have houtside := ht.outside k (Nat.le_of_succ_le hk)
      rw [hshows.outside _ houtside, ← h.outside _ houtside]
      exact ht.string.apply (Nat.le_of_succ_le hk)
    have hcolumn := ht.column
    have hround : renderRound gop text (Int32.ofNat x) color ⟨k, Int32.ofNat (y + 8 * k), mem'⟩ =
        .ok (.inl ⟨k + 1, Int32.ofNat (y + 8 * (k + 1)), fbRenderStringForBitmap gop (glyphOf s k) kFontSizeX
          kFontSizeY (Int32.ofNat x) (Int32.ofNat (y + 8 * k)) color mem'⟩) := by
      unfold renderRound
      dsimp only
      rw [hchar, if_neg (getD_pos_ne_zero hk), if_neg (UInt8.not_le.mpr (ht.chars k hk)), Nat.mul_succ,
        ← Nat.add_assoc, Int32.ofNat_add (y + 8 * k)]
      rfl
    have hroom : y + 8 * k + 8 ≤ gop.f_PixelPerLine.toNat := by omega
    have hglyph := hshows.renderGlyph hs (glyphOf s k) color ht.line hroom ht.small
    rw [textPicture_succ] at hglyph
    refine ⟨_, fun rest => ?_, hglyph⟩
    rw [Nat.succ_add, ← Nat.add_succ, hrounds]
    exact loop_succ_next hround rest

theorem Shows.renderString (hs : Screen gop lines) (h : Shows gop lines mem₀ mem picture) {text : Nat} {s : CString}
    (ht : TextFits gop lines mem text s x y) (color : Int32) :
    ∃ fuel mem', fbRenderString gop fuel text (Int32.ofNat x) (Int32.ofNat y) color mem = .ok mem' ∧
      Shows gop lines mem₀ mem' (textPicture (glyphOf s) s.length x y color.toUInt32 picture) := by
  obtain ⟨mem', hrounds, hshows⟩ := h.renderRounds hs ht s.length (Nat.le_refl _)
  refine ⟨s.length + 1, mem', (hrounds 1).trans (loop_succ_leave ?_ 0), hshows⟩
  have houtside := ht.outside s.length (Nat.le_refl _)
  have hend : mem' (text + s.length) = 0 := by
    rw [hshows.outside _ houtside, ← h.outside _ houtside]
    exact ht.string.apply_length
  exact if_pos hend

end Draw

/-! ### Runs -/

/-- What is drawn. A bitmap starts with the cursor at zero (`fb_init`). -/
inductive Drawing where
  | drawInRegion (clr : UInt32) (r : Region)
  | drawInRegionA (clr : UInt32) (r : Region)
  | clearRegion (r : Region)
  | drawBitMapInRegion (regPtr : UInt64 → UInt32) (r : Region)
  | drawBitMapInRegionA (regPtr : UInt64 → UInt32) (r : Region)
  | clearVideo
  | renderString (text : Nat) (s : CString) (x y : Nat) (color : Int32)

namespace Drawing

/-- The drawing made on the memory. -/
def call (gop : Gop) (fuel : Nat) (mem : Store) : Drawing → Exec Store
  | .drawInRegion clr r => .ok (fbDrawInRegion gop clr r ⟨mem, 0⟩).mem
  | .drawInRegionA clr r => .ok (fbDrawInRegionA gop clr r ⟨mem, 0⟩).mem
  | .clearRegion r => .ok (cgClearRegion gop r ⟨mem, 0⟩).mem
  | .drawBitMapInRegion regPtr r => .ok (fbDrawBitMapInRegion gop regPtr r ⟨mem, 0⟩).mem
  | .drawBitMapInRegionA regPtr r => .ok (fbDrawBitMapInRegionA gop regPtr r ⟨mem, 0⟩).mem
  | .clearVideo => .ok (fbClearVideo gop mem)
  | .renderString text _ x y color => fbRenderString gop fuel text (Int32.ofNat x) (Int32.ofNat y) color mem

/-- A region of the picture painted over, by the line and the column in it. -/
def paintRegion (r : Region) (paint : Nat → Nat → UInt32 → UInt32) : Picture UInt32 → Picture UInt32 :=
  paintGrid paint r.baseX.toNat r.width.toNat r.baseY.toNat r.height.toNat

/-- The drawing made on the picture. -/
def picture (gop : Gop) (picture : Picture UInt32) : Drawing → Picture UInt32
  | .drawInRegion clr r => paintRegion r (fun _ _ _ => clr) picture
  | .drawInRegionA clr r => paintRegion r (fun _ _ pixel => pixel ||| clr) picture
  | .clearRegion r => paintRegion r (fun _ _ _ => fbGetClearClr) picture
  | .drawBitMapInRegion regPtr r =>
    paintRegion r (fun i j _ => regPtr (UInt64.ofNat (i * r.height.toNat + j))) picture
  | .drawBitMapInRegionA regPtr r =>
    paintRegion r (fun i j pixel => pixel ||| regPtr (UInt64.ofNat (i * r.height.toNat + j))) picture
  | .clearVideo => paintGrid (fun _ _ _ => fbGetClearClr) 0 gop.f_Width.toNat 0 gop.f_Height.toNat picture
  | .renderString _ s x y color => textPicture (glyphOf s) s.length x y color.toUInt32 picture

/-- The drawing keeps to the lines of the screen and to their columns. -/
def Fits (gop : Gop) (lines : Nat) (mem : Store) : Drawing → Prop
  | .drawInRegion _ r => r.Fits gop lines
  | .drawInRegionA _ r => r.Fits gop lines
  | .clearRegion r => r.Fits gop lines
  | .drawBitMapInRegion _ r => r.Fits gop lines
  | .drawBitMapInRegionA _ r => r.Fits gop lines
  | .clearVideo => gop.f_Width.toNat ≤ lines ∧ gop.f_Height.toNat ≤ gop.f_PixelPerLine.toNat
  | .renderString text s x y _ => TextFits gop lines mem text s x y

end Drawing

/-- A drawing on the memory. -/
def DrawStep (gop : Gop) (mem : Store) (op : Drawing) (mem' : Store) : Prop :=
  ∃ fuel, op.call gop fuel mem = .ok mem'

section Runs

variable {gop : Gop} {lines : Nat} {mem₀ mem mem' : Store} {picture : Picture UInt32} {op : Drawing}

theorem Shows.drawBitMap (hs : Screen gop lines) (h : Shows gop lines mem₀ mem picture) {r : Region}
    (hfits : r.Fits gop lines) (paint : UInt64 → UInt32 → UInt32) :
    Shows gop lines mem₀ (OpenNE.drawLoops gop paint 1 r ⟨mem, 0⟩).mem
      (Drawing.paintRegion r (fun i j => paint (UInt64.ofNat (i * r.height.toNat + j))) picture) := by
  have hshows : Shows gop lines mem₀ (OpenNE.drawLoops gop paint 1 r ⟨mem, 0⟩).mem _ := h.drawLoops hs hfits
  simp only [Region.painted, UInt64.mul_one, UInt64.zero_add] at hshows
  exact hshows

theorem Shows.clearVideo (hs : Screen gop lines) (h : Shows gop lines mem₀ mem picture)
    (hfits : Drawing.clearVideo.Fits gop lines mem) :
    Shows gop lines mem₀ (fbClearVideo gop mem) (Drawing.clearVideo.picture gop picture) := by
  have hzero : (0 : UInt64).toNat = 0 := rfl
  have hfits' : Region.Fits ⟨gop.f_Height.toUInt64, gop.f_Width.toUInt64, 0, 0⟩ gop lines := by
    unfold Region.Fits
    dsimp only
    rw [hzero, Nat.zero_add, Nat.zero_add]
    exact hfits
  exact h.drawLoops hs hfits'

theorem Shows.call (hs : Screen gop lines) (h : Shows gop lines mem₀ mem picture) (hfits : op.Fits gop lines mem) :
    ∃ fuel mem', op.call gop fuel mem = .ok mem' ∧ Shows gop lines mem₀ mem' (op.picture gop picture) := by
  cases op with
  | drawInRegion clr r => exact ⟨0, _, rfl, h.drawLoops hs hfits⟩
  | drawInRegionA clr r => exact ⟨0, _, rfl, h.drawLoops hs hfits⟩
  | clearRegion r => exact ⟨0, _, rfl, h.drawLoops hs hfits⟩
  | drawBitMapInRegion regPtr r => exact ⟨0, _, rfl, h.drawBitMap hs hfits _⟩
  | drawBitMapInRegionA regPtr r => exact ⟨0, _, rfl, h.drawBitMap hs hfits _⟩
  | clearVideo => exact ⟨0, _, rfl, h.clearVideo hs hfits⟩
  | renderString text s x y color =>
    obtain ⟨fuel, mem', hcall, hshows⟩ := h.renderString hs hfits color
    exact ⟨fuel, mem', hcall, hshows⟩

theorem Drawing.call_unique {fuel fuel' : Nat} {mem₁ mem₂ : Store} (h₁ : op.call gop fuel mem = .ok mem₁)
    (h₂ : op.call gop fuel' mem = .ok mem₂) : mem₁ = mem₂ := by
  cases op with
  | renderString text s x y color => exact loop_unique h₁ h₂
  | _ => exact Except.ok.inj (h₁.symm.trans h₂)

/-- Drawings that keep to the screen, made on the memory, are drawings made on the picture: behind any run of them each
pixel is that of the picture, nothing else has been written, and the next one returns. -/
theorem drawings_run (hs : Screen gop lines) {ops : List Drawing}
    (hrun : Run (Guarded (DrawStep gop) fun mem op => op.Fits gop lines mem) mem ops mem') :
    (∀ p : Nat × Nat, p.1 < lines → p.2 < gop.f_PixelPerLine.toNat →
      pixels gop mem' p = ops.foldl (Drawing.picture gop) (pixels gop mem) p) ∧
    (∀ a, ¬gop.Holds lines a → mem' a = mem a) ∧
    ∀ op : Drawing, op.Fits gop lines mem' → ∃ mem'', DrawStep gop mem' op mem'' := by
  have hshows : Shows gop lines mem mem' (ops.foldl (Drawing.picture gop) (pixels gop mem)) := by
    induction hrun with
    | nil => exact shows_pixels
    | @snoc mem₁ mem' ops op _ hlast ih =>
      obtain ⟨⟨fuel, hcall⟩, hfits⟩ := hlast
      obtain ⟨fuel', mem'', hcall', hshows⟩ := ih.call hs hfits
      obtain rfl := Drawing.call_unique hcall hcall'
      rw [List.foldl_append]
      exact hshows
  refine ⟨hshows.pixels, hshows.outside, fun op hfits => ?_⟩
  obtain ⟨fuel, mem'', hcall, -⟩ := hshows.call hs hfits
  exact ⟨mem'', fuel, hcall⟩

end Runs

/-- A screen of eight lines and eight columns at `0x1000`. -/
def smallScreen : Gop := ⟨0x1000, 8, 8, 8⟩

/-- The string `a` at `0x100`. -/
def textMemory : Store := Store.write (fun _ => 0) 0x100 (letterA.1 ++ [0])

/-- The screen cleared and the letter written in white: line 2 of the glyph has columns 1 to 4. -/
theorem drawings_run_letter : ∃ mem', Run (Guarded (DrawStep smallScreen) fun mem op => op.Fits smallScreen 8 mem)
      textMemory [.clearVideo, .renderString 0x100 letterA 0 0 0xFFFFFF] mem' ∧
    pixels smallScreen mem' (2, 1) = 0xFFFFFF ∧ pixels smallScreen mem' (2, 5) = 0x202020 := by
  have hs : Screen smallScreen 8 := ⟨by decide, by decide, by decide⟩
  have hclear : Drawing.clearVideo.Fits smallScreen 8 textMemory := ⟨by decide, by decide⟩
  have hcleared := shows_pixels.clearVideo hs hclear
  have houtside : ∀ k ≤ letterA.length, ¬smallScreen.Holds 8 (0x100 + k) := by
    intro k hk hholds
    have hlength : letterA.length = 1 := rfl
    have hbase : smallScreen.f_The.toNat = 0x1000 := rfl
    have hlow := hholds.1
    omega
  have htext : TextFits smallScreen 8 (fbClearVideo smallScreen textMemory) 0x100 letterA 0 0 := by
    refine ⟨?_, houtside, by decide, by decide, by decide, by decide⟩
    have hsame : (fbClearVideo smallScreen textMemory).read 0x100 (letterA.length + 1) =
        textMemory.read 0x100 (letterA.length + 1) := by
      apply Store.read_congr
      intro a ha hlt
      have hout := houtside (a - 0x100) (by omega)
      rw [Nat.add_sub_cancel' ha] at hout
      exact hcleared.outside a hout
    exact hsame.trans (stringAt_write _ _ _)
  obtain ⟨fuel, mem', hcall, -⟩ := hcleared.renderString hs htext 0xFFFFFF
  have hrun : Run (Guarded (DrawStep smallScreen) fun mem op => op.Fits smallScreen 8 mem) textMemory
      [.clearVideo, .renderString 0x100 letterA 0 0 0xFFFFFF] mem' :=
    (Run.one ⟨⟨0, rfl⟩, hclear⟩).snoc ⟨⟨fuel, hcall⟩, htext⟩
  obtain ⟨hpixels, -, -⟩ := drawings_run hs hrun
  refine ⟨mem', hrun, ?_, ?_⟩
  · rw [hpixels (2, 1) (by decide) (by decide)]
    decide
  · rw [hpixels (2, 5) (by decide) (by decide)]
    decide

end OpenNE

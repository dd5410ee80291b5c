import OpenNE.Base.Codec
import OpenNE.Base.Grid
import Mathlib.Algebra.Order.Group.Nat

/-!
# The framebuffer (`Mod/CoreGfx/FBMgr.h`)

The drawing macros are one pair of loops with different bodies. A pixel stands at its line and its column, where
`width` counts lines and `height` counts columns. As long as a region keeps to the columns of a line and to the lines
there are, the memory shows the picture with the region painted (`Shows.drawLoops`).
-/

namespace OpenNE

/-- `f_GOP` of the handover header. -/
structure Gop where
  f_The : UInt64
  f_Width : UInt32
  f_Height : UInt32
  f_PixelPerLine : UInt32

/-- `fb_color`. -/
def fbColor (r g b : UInt32) : UInt32 := r ||| (g <<< 0x8) ||| (b <<< 0x10)

/-- `fb_get_clear_clr`. -/
def fbGetClearClr : UInt32 := fbColor 0x20 0x20 0x20

/-- A region as the macros take it. -/
structure Region where
  height : UInt64
  width : UInt64
  baseX : UInt64
  baseY : UInt64

/-- The address of a pixel. The factor of the line is computed with 32 bits. -/
def pixelAddr (gop : Gop) (line column : UInt64) : UInt64 :=
  gop.f_The + (4 * gop.f_PixelPerLine).toUInt64 * line + 4 * column

/-- The memory, and `kCGCursor`. -/
structure Canvas where
  mem : Store
  kCGCursor : UInt64

/-- The body of the loops: what becomes of the pixel, and how far the cursor goes. -/
def drawPixel (gop : Gop) (paint : UInt64 → UInt32 → UInt32) (advance : UInt64) (s : Canvas) (line column : Nat) :
    Canvas :=
  let addr := (pixelAddr gop (UInt64.ofNat line) (UInt64.ofNat column)).toNat
  ⟨s.mem.put Codec.u32 addr (paint s.kCGCursor (s.mem.get Codec.u32 addr)), s.kCGCursor + advance⟩

/-- The loops, each from the base up to the base and the size together. -/
def drawLoops (gop : Gop) (paint : UInt64 → UInt32 → UInt32) (advance : UInt64) (r : Region) (s : Canvas) : Canvas :=
  gridLoop (drawPixel gop paint advance) r.baseX.toNat ((r.width + r.baseX).toNat - r.baseX.toNat)
    r.baseY.toNat ((r.height + r.baseY).toNat - r.baseY.toNat) s

section Macros

variable (gop : Gop) (clr : UInt32) (regPtr : UInt64 → UInt32)

/-- `FBDrawInRegion`. -/
def fbDrawInRegion : Region → Canvas → Canvas := drawLoops gop (fun _ _ => clr) 0

/-- `FBDrawInRegionA`. -/
def fbDrawInRegionA : Region → Canvas → Canvas := drawLoops gop (fun _ pixel => pixel ||| clr) 0

/-- `CGClearRegion`. -/
def cgClearRegion : Region → Canvas → Canvas := drawLoops gop (fun _ _ => fbGetClearClr) 0

/-- `FBDrawBitMapInRegion`, of a bitmap that is not written. -/
def fbDrawBitMapInRegion : Region → Canvas → Canvas := drawLoops gop (fun kCGCursor _ => regPtr kCGCursor) 1

/-- `FBDrawBitMapInRegionA`. -/
def fbDrawBitMapInRegionA : Region → Canvas → Canvas :=
  drawLoops gop (fun kCGCursor pixel => pixel ||| regPtr kCGCursor) 1

/-- `fb_clear_video`. -/
def fbClearVideo (mem : Store) : Store :=
  (fbDrawInRegion gop fbGetClearClr ⟨gop.f_Height.toUInt64, gop.f_Width.toUInt64, 0, 0⟩ ⟨mem, 0⟩).mem

end Macros

/-! ### Pictures -/

/-- The framebuffer has `lines` lines, which are memory. -/
structure Screen (gop : Gop) (lines : Nat) : Prop where
  nonempty : 0 < gop.f_PixelPerLine
  small : gop.f_PixelPerLine.toNat < 2 ^ 30
  fits : gop.f_The.toNat + 4 * (gop.f_PixelPerLine.toNat * lines) ≤ 2 ^ 64

/-- The region keeps to the lines and to their columns. -/
def Region.Fits (r : Region) (gop : Gop) (lines : Nat) : Prop :=
  r.baseX.toNat + r.width.toNat ≤ lines ∧ r.baseY.toNat + r.height.toNat ≤ gop.f_PixelPerLine.toNat

/-- The pixels the memory holds. -/
def pixels (gop : Gop) (mem : Store) : Picture UInt32 := fun p =>
  mem.get Codec.u32 (gop.f_The.toNat + 4 * (gop.f_PixelPerLine.toNat * p.1 + p.2))

/-- The address is one of the framebuffer's. -/
def Gop.Holds (gop : Gop) (lines : Nat) (a : Nat) : Prop :=
  gop.f_The.toNat ≤ a ∧ a < gop.f_The.toNat + 4 * (gop.f_PixelPerLine.toNat * lines)

/-- The memory shows the picture, and is otherwise the memory `mem₀`. -/
structure Shows (gop : Gop) (lines : Nat) (mem₀ mem : Store) (picture : Picture UInt32) : Prop where
  pixels : ∀ p : Nat × Nat, p.1 < lines → p.2 < gop.f_PixelPerLine.toNat → pixels gop mem p = picture p
  outside : ∀ a, ¬gop.Holds lines a → mem a = mem₀ a

section Pixels

variable {gop : Gop} {lines line column : Nat} {mem₀ mem : Store} {picture : Picture UInt32}

theorem Screen.index_lt (hline : line < lines) (hcolumn : column < gop.f_PixelPerLine.toNat) :
    gop.f_PixelPerLine.toNat * line + column < gop.f_PixelPerLine.toNat * lines := by
  have hmul := Nat.mul_le_mul_left gop.f_PixelPerLine.toNat (Nat.succ_le_of_lt hline)
  rw [Nat.mul_succ] at hmul
  omega

theorem Screen.pixelAddr_toNat (hs : Screen gop lines) (hline : line < lines)
    (hcolumn : column < gop.f_PixelPerLine.toNat) :
    (pixelAddr gop (UInt64.ofNat line) (UInt64.ofNat column)).toNat =
      gop.f_The.toNat + 4 * (gop.f_PixelPerLine.toNat * line + column) := by
  have hfits := hs.fits
  have hindex := Screen.index_lt hline hcolumn
  have hsmall := hs.small
  have hpositive : 0 < gop.f_PixelPerLine.toNat := UInt32.lt_iff_toNat_lt.mp hs.nonempty
  have hle : line ≤ gop.f_PixelPerLine.toNat * line := Nat.le_mul_of_pos_left _ hpositive
  have hfour : (4 : UInt32).toNat = 4 := rfl
  have hfour' : (4 : UInt64).toNat = 4 := rfl
  have hfactor : (4 * gop.f_PixelPerLine).toUInt64.toNat = 4 * gop.f_PixelPerLine.toNat := by
    rw [UInt32.toNat_toUInt64, UInt32.toNat_mul, hfour]
    exact Nat.mod_eq_of_lt (by omega)
  have hsize : UInt64.size = 2 ^ 64 := rfl
  have hproduct : 4 * gop.f_PixelPerLine.toNat * line = 4 * (gop.f_PixelPerLine.toNat * line) := Nat.mul_assoc _ _ _
  unfold pixelAddr
  rw [UInt64.toNat_add, UInt64.toNat_add, UInt64.toNat_mul, UInt64.toNat_mul, hfactor, hfour',
    UInt64.toNat_ofNat_of_lt' (by omega), UInt64.toNat_ofNat_of_lt' (by omega), hproduct]
  omega

theorem index_inj {line' column' : Nat} (hcolumn : column < gop.f_PixelPerLine.toNat)
    (hcolumn' : column' < gop.f_PixelPerLine.toNat)
    (h : gop.f_PixelPerLine.toNat * line + column = gop.f_PixelPerLine.toNat * line' + column') :
    line = line' ∧ column = column' := by
  have hpositive : 0 < gop.f_PixelPerLine.toNat := Nat.lt_of_le_of_lt (Nat.zero_le _) hcolumn
  have hdiv := congrArg (· / gop.f_PixelPerLine.toNat) h
  have hmod := congrArg (· % gop.f_PixelPerLine.toNat) h
  simp only [Nat.mul_add_div hpositive, Nat.div_eq_of_lt hcolumn, Nat.div_eq_of_lt hcolumn', Nat.add_zero] at hdiv
  simp only [Nat.mul_add_mod, Nat.mod_eq_of_lt hcolumn, Nat.mod_eq_of_lt hcolumn'] at hmod
  exact ⟨hdiv, hmod⟩

theorem shows_pixels : Shows gop lines mem mem (pixels gop mem) := ⟨fun _ _ _ => rfl, fun _ _ => rfl⟩

theorem Shows.put (h : Shows gop lines mem₀ mem picture) (hline : line < lines)
    (hcolumn : column < gop.f_PixelPerLine.toNat) (v : UInt32) :
    Shows gop lines mem₀
      (mem.put Codec.u32 (gop.f_The.toNat + 4 * (gop.f_PixelPerLine.toNat * line + column)) v)
      (Function.update picture (line, column) v) := by
  have hsize : Codec.u32.size = 4 := rfl
  have hindex := Screen.index_lt hline hcolumn
  constructor
  · intro p hp hp'
    unfold OpenNE.pixels
    by_cases hsame : p = (line, column)
    · subst hsame
      rw [Store.get_put_same, Function.update_self]
    · have hne : gop.f_PixelPerLine.toNat * p.1 + p.2 ≠ gop.f_PixelPerLine.toNat * line + column := by
        intro heq
        obtain ⟨hfst, hsnd⟩ := index_inj hp' hcolumn heq
        exact hsame (Prod.ext hfst hsnd)
      rw [Store.get_put_disjoint (by omega), Function.update_of_ne hsame]
      exact h.pixels p hp hp'
  · intro a ha
    rw [← h.outside a ha]
    apply Store.put_apply_outside
    unfold Gop.Holds at ha
    omega

end Pixels

section Loops

variable {gop : Gop} {lines : Nat} {mem₀ : Store} {picture : Picture UInt32} {r : Region}

/-- The region painted over, with the cursor of each pixel. -/
def Region.painted (r : Region) (paint : UInt64 → UInt32 → UInt32) (kCGCursor advance : UInt64)
    (picture : Picture UInt32) : Picture UInt32 :=
  paintGrid (fun i j => paint (kCGCursor + UInt64.ofNat (i * r.height.toNat + j) * advance))
    r.baseX.toNat r.width.toNat r.baseY.toNat r.height.toNat picture

theorem Region.toNat_width (hs : Screen gop lines) (hfits : r.Fits gop lines) :
    (r.width + r.baseX).toNat - r.baseX.toNat = r.width.toNat ∧
      (r.height + r.baseY).toNat - r.baseY.toNat = r.height.toNat := by
  have hpositive : 0 < gop.f_PixelPerLine.toNat := UInt32.lt_iff_toNat_lt.mp hs.nonempty
  have hle : lines ≤ gop.f_PixelPerLine.toNat * lines := Nat.le_mul_of_pos_left _ hpositive
  have hspace := hs.fits
  have hsmall := hs.small
  obtain ⟨hlines, hcolumns⟩ := hfits
  rw [UInt64.toNat_add, UInt64.toNat_add]
  omega

theorem Shows.drawLoops (hs : Screen gop lines) (hfits : r.Fits gop lines) {paint : UInt64 → UInt32 → UInt32}
    {advance : UInt64} {s : Canvas} (h : Shows gop lines mem₀ s.mem picture) :
    Shows gop lines mem₀ (OpenNE.drawLoops gop paint advance r s).mem
      (r.painted paint s.kCGCursor advance picture) := by
  obtain ⟨hwidth, hheight⟩ := Region.toNat_width hs hfits
  obtain ⟨hlines, hcolumns⟩ := hfits
  unfold OpenNE.drawLoops Region.painted
  rw [hwidth, hheight]
  refine (gridLoop_paints _ _ (fun n (t : Canvas) picture =>
    t.kCGCursor = s.kCGCursor + UInt64.ofNat n * advance ∧ Shows gop lines mem₀ t.mem picture)
    (fun i hi j hj t picture hrel => ?_) ⟨by simp, h⟩).2
  obtain ⟨hcursor, hshows⟩ := hrel
  have hline : r.baseX.toNat + i < lines := by omega
  have hcolumn : r.baseY.toNat + j < gop.f_PixelPerLine.toNat := by omega
  unfold drawPixel
  dsimp only
  rw [hs.pixelAddr_toNat hline hcolumn, hcursor]
  constructor
  · have hnext : UInt64.ofNat (i * r.height.toNat + j + 1) = UInt64.ofNat (i * r.height.toNat + j) + 1 :=
      UInt64.ofNat_add _ _
    rw [hnext, UInt64.add_mul, UInt64.one_mul, UInt64.add_assoc]
  · rw [← hshows.pixels (r.baseX.toNat + i, r.baseY.toNat + j) hline hcolumn]
    exact hshows.put hline hcolumn _

end Loops

end OpenNE

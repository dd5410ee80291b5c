import OpenNE.Base.LastWrite
import OpenNE.Boot.Containment
import OpenNE.Memory.ByteMoves

/-!
# The image in the memory (`src/BootThread.cc`)

`SetMem` and `CopyMem` count words where a section header counts bytes, so every section takes the place of four. What
is in the memory at the end is the overlay of these ranges, the last one on top (`image_loaded`): an image whose
sections ascend comes out as the file has it all the same.
-/

namespace OpenNE

/-! ### The overlay -/

namespace ImageLayout

/-- The byte at an address, of the last section that covers it. -/
def loadedByte (l : ImageLayout) (fBlob : Nat) (mem : Store) (n x : Nat) : UInt8 :=
  (lastWrite (fun k => x ∈ l.copied mem (l.sect k)) (List.range n)).elim (mem x)
    fun k => mem (rawData fBlob mem (l.sect k) + (x - l.target mem (l.sect k)))

/-- The data of a section at its place is not covered by what is loaded behind it. -/
def Uncovered (l : ImageLayout) (mem : Store) (k : Nat) : Prop :=
  ∀ j, k < j → j < l.numSecs →
    l.target mem (l.sect k) + sizeOfRawData mem (l.sect k) ≤ l.target mem (l.sect j) ∨
      l.target mem (l.sect j) + 4 * sizeOfRawData mem (l.sect j) ≤ l.target mem (l.sect k)

end ImageLayout

section Overlay

variable {s : Span} {mem : Store} {env : BootEnv} {l : ImageLayout} {n : Nat}

theorem apart_of_holds {pages : Span} {a b len : Nat} (ha : pages.Holds a len) (hb : s.Holds b len)
    (hapart : len ≠ 0 → pages.Disjoint s) : a + len ≤ b ∨ b + len ≤ a := by
  by_contra hmeet
  have hlen : len ≠ 0 := by omega
  simp only [Span.Holds] at ha hb
  refine hapart hlen (max a b) ?_ ?_
  · rw [Span.mem_def]
    omega
  · rw [Span.mem_def]
    omega

theorem loadedTo_mem (hapart : l.pages.len ≠ 0 → l.pages.Disjoint s) (hinside : SectionsInside s env l mem n)
    (hnone : NoneStops s l mem n) (hentry : s.Holds (l.optHeader + 16) 4) (x : Nat) :
    (loadedTo s.start l mem n).mem x = l.loadedByte s.start mem n x := by
  induction n with
  | zero => rfl
  | succ n ih =>
    have hbefore : NoneStops s l mem n := fun j hj => hnone j (by omega)
    have hfirst : SectionsInside s env l mem n := fun k hk => hinside k (by omega)
    have hsection := hinside n (Nat.lt_succ_self n) hbefore
    obtain ⟨hname, haddr, hsize, hptr⟩ := hsection.fields
    obtain ⟨hzero, hagree⟩ := zeroSection_agree (loadedTo_agree hapart hfirst hbefore) hapart haddr hsize hsection.place
    have hplace := hsection.place
    have hdata := hsection.data (hnone n (Nat.lt_succ_self n))
    rw [loadedTo_succ, stepSection_eq hagree hname hptr hentry, ImageLayout.loadedByte, List.range_succ,
      lastWrite_snoc]
    by_cases hx : x ∈ l.copied mem (l.sect n)
    · rw [if_pos hx]
      obtain ⟨hlow, hhigh⟩ := hx
      simp only [ImageLayout.copied] at hlow hhigh
      obtain ⟨i, rfl⟩ := Nat.exists_eq_add_of_le hlow
      have hi : i < 4 * sizeOfRawData mem (l.sect n) := by omega
      have hranges := apart_of_holds hplace hdata fun _ => hapart fun hnil => by
        simp only [Span.Holds] at hplace
        omega
      have hblob : rawData s.start mem (l.sect n) + i ∈ s := by
        simp only [Span.Holds] at hdata
        rw [Span.mem_def]
        omega
      dsimp only
      rw [memcpy_forward hi, if_neg (not_alreadyWritten hranges.symm hi), hagree _ hblob]
      show _ = mem (_ + (l.target mem (l.sect n) + i - l.target mem (l.sect n)))
      rw [Nat.add_sub_cancel_left]
    · rw [if_neg hx]
      have hout : x < l.target mem (l.sect n) ∨ l.target mem (l.sect n) + 4 * sizeOfRawData mem (l.sect n) ≤ x := by
        simp only [ImageLayout.copied, Span.mem_def] at hx
        omega
      dsimp only
      rw [memcpy_outside hout, hzero, memset_outside hout]
      exact ih hfirst hbefore

theorem loadedByte_uncovered {k i : Nat} (hk : k < l.numSecs) (huncovered : l.Uncovered mem k)
    (hi : i < sizeOfRawData mem (l.sect k)) :
    l.loadedByte s.start mem l.numSecs (l.target mem (l.sect k) + i) = mem (rawData s.start mem (l.sect k) + i) := by
  have hlast : lastWrite (fun j => l.target mem (l.sect k) + i ∈ l.copied mem (l.sect j)) (List.range l.numSecs) =
      some k := by
    apply lastWrite_range hk
    · simp only [ImageLayout.copied, Span.mem_def]
      omega
    · intro j hj hjn
      have hapart := huncovered j hj hjn
      simp only [ImageLayout.copied, Span.mem_def]
      omega
  rw [ImageLayout.loadedByte, hlast]
  show mem (_ + (l.target mem (l.sect k) + i - l.target mem (l.sect k))) = _
  rw [Nat.add_sub_cancel_left]

end Overlay

/-! ### The constructor -/

section Constructor

variable {env : BootEnv} {s : Span} {mem : Store}

theorem bootThread_loads
    (hfree : ∀ address n, env.allocatePages address n = true → (⟨address, efiPageSize * n⟩ : Span).Disjoint s)
    (h0 : s.start ≠ 0) (haccepted : Accepted env s.start mem) (hheaders : HeadersInside s env mem)
    (hinside : SectionsInside s env (layoutOf env s.start mem) mem (layoutOf env s.start mem).numSecs)
    (post : LoadState → Prop) :
    (∀ t, bootThread .anywhere env s.start mem = .ok t → post t) ↔
      (NoneStops s (layoutOf env s.start mem) mem (layoutOf env s.start mem).numSecs →
        post (loadedTo s.start (layoutOf env s.start mem) mem (layoutOf env s.start mem).numSecs)) := by
  have hwp : ∀ post : LoadState → Prop, Exec.wp (bootThread (.within s) env s.start mem) post ↔
      (NoneStops s (layoutOf env s.start mem) mem (layoutOf env s.start mem).numSecs →
        post (loadedTo s.start (layoutOf env s.start mem) mem (layoutOf env s.start mem).numSecs)) := by
    intro post
    rw [wp_bootThread h0 hfree]
    simp only [hheaders, haccepted, not_true_eq_false, false_implies, true_and, true_implies, hinside]
  have hchecked := bootThread_checked (.within s) mem env s.start
  have hfault := (hchecked.wp_iff.mp ((hwp fun _ => True).mpr fun _ => trivial)).1
  rw [← hwp, hchecked.wp_iff]
  exact (and_iff_right hfault).symm

/-- An image whose headers and sections lie in the blob is loaded unless a handover stub of the file is wrong. The
memory is then the overlay of its sections, the data of a section that is not covered stands at its place, the blob
is as it was, and the thread starts at the entry point if there is code. -/
theorem image_loaded (env : BootEnv) (s : Span) (mem : Store)
    (hfree : ∀ address n, env.allocatePages address n = true → (⟨address, efiPageSize * n⟩ : Span).Disjoint s)
    (h0 : s.start ≠ 0) (haccepted : Accepted env s.start mem) (hheaders : HeadersInside s env mem)
    (hinside : SectionsInside s env (layoutOf env s.start mem) mem (layoutOf env s.start mem).numSecs) :
    let l := layoutOf env s.start mem
    ((∃ t, bootThread .anywhere env s.start mem = .ok t) ↔ NoneStops s l mem l.numSecs) ∧
    ∀ t, bootThread .anywhere env s.start mem = .ok t →
      (∀ x, t.mem x = l.loadedByte s.start mem l.numSecs x) ∧
      (∀ k < l.numSecs, l.Uncovered mem k →
        t.mem.read (l.target mem (l.sect k)) (sizeOfRawData mem (l.sect k)) =
          mem.read (rawData s.start mem (l.sect k)) (sizeOfRawData mem (l.sect k))) ∧
      Agree s t.mem mem ∧
      t.fStartAddress = if ∃ k < l.numSecs, IsText mem (l.sect k) then l.entryAddress mem else 0 := by
  intro l
  have hloads := bootThread_loads hfree h0 haccepted hheaders hinside
  have hentry := hheaders.entry haccepted
  have hapart : l.pages.len ≠ 0 → l.pages.Disjoint s := pagesAt_apart (hfree _ _)
  constructor
  · constructor
    · rintro ⟨t, ht⟩
      by_contra hstops
      exact (hloads fun _ => False).mpr (fun hnone => hstops hnone) t ht
    · intro hnone
      by_contra hfails
      exact (hloads fun _ => False).mp (fun t ht => hfails ⟨t, ht⟩) hnone
  · rw [hloads]
    intro hnone
    have hmem := loadedTo_mem hapart hinside hnone hentry
    refine ⟨hmem, ?_, loadedTo_agree hapart hinside hnone, loadedTo_start hapart hinside hnone hentry⟩
    intro k hk huncovered
    apply List.map_congr_left
    intro i hi
    rw [hmem]
    exact loadedByte_uncovered hk huncovered (List.mem_range.mp hi)

end Constructor

/-- An image with code and behind it data, which takes the place of what the copy of the code is too long by. -/
def codeAndData : Store :=
  let mem : Store := fun _ => 0
  let mem := mem.write 0x100000 [kMagMz0, kMagMz1]
  let mem := mem.put Codec.u32 0x100080 kPeSignature
  let mem := mem.put Codec.u16 0x100084 kPeMachineAMD64
  let mem := mem.put Codec.u16 0x100086 2
  let mem := mem.put Codec.u16 0x100094 96
  let mem := mem.put Codec.u32 0x1000B4 0x400000
  let mem := mem.put Codec.u32 0x1000D0 0x1000
  let mem := mem.put Codec.u16 0x1000DC kZKASubsystem
  let mem := mem.write 0x1000F8 sectionForCode
  let mem := mem.put Codec.u32 0x100108 4
  let mem := mem.put Codec.u32 0x10010C 328
  let mem := mem.put Codec.u32 0x10012C 8
  let mem := mem.put Codec.u32 0x100130 1
  let mem := mem.put Codec.u32 0x100134 332
  mem.write 0x100148 [1, 2, 3, 4, 5, 6, 7, 8, 9, 10, 11, 12, 13, 14, 15, 16]

theorem image_loaded_codeAndData : ∃ t, bootThread .anywhere firmware 0x100000 codeAndData = .ok t ∧
    t.mem.read 0x400000 4 = [1, 2, 3, 4] ∧ t.mem 0x400008 = 5 ∧ t.mem 0x40000C = 13 ∧ t.fStartAddress = 0x400000 := by
  have hfree : ∀ address n, firmware.allocatePages address n = true →
      (⟨address, efiPageSize * n⟩ : Span).Disjoint ⟨0x100000, 344⟩ := by
    intro address n hgiven
    have hlow := (of_decide_eq_true hgiven).2.1
    apply Span.Disjoint.symm
    apply Span.disjoint_of_le
    exact Nat.le_trans (by decide) hlow
  have hheaders : HeadersInside ⟨0x100000, 344⟩ firmware codeAndData := by
    refine ⟨by decide, ?_⟩
    rw [if_pos (by decide)]
    exact ⟨by decide, by decide⟩
  have hinside : SectionsInside ⟨0x100000, 344⟩ firmware (layoutOf firmware 0x100000 codeAndData) codeAndData
      (layoutOf firmware 0x100000 codeAndData).numSecs := by
    rintro k hk -
    have hk' : k = 0 ∨ k = 1 := by
      have hlt : k < 2 := hk
      omega
    rcases hk' with rfl | rfl
    · exact ⟨by decide, by decide, fun hldr => absurd hldr (by decide), by decide, by decide⟩
    · exact ⟨by decide, by decide, fun hldr => absurd hldr (by decide), by decide, by decide⟩
  obtain ⟨hreturns, hloaded⟩ :=
    image_loaded firmware ⟨0x100000, 344⟩ codeAndData hfree (by decide) (by decide) hheaders hinside
  have hnone : ∀ j < 2, ¬ Stops 0x100000 codeAndData ((layoutOf firmware 0x100000 codeAndData).sect j) := by decide
  obtain ⟨t, ht⟩ := hreturns.mpr hnone
  obtain ⟨hmem, hdata, -, hstart⟩ := hloaded t ht
  have huncovered : (layoutOf firmware 0x100000 codeAndData).Uncovered codeAndData 0 := by
    intro j hj hj'
    have hlt : j < 2 := hj'
    obtain rfl : j = 1 := by omega
    exact .inl (by decide)
  have htext := hdata 0 (by decide) huncovered
  have hplace : (layoutOf firmware 0x100000 codeAndData).target codeAndData
      ((layoutOf firmware 0x100000 codeAndData).sect 0) = 0x400000 := by decide
  have hsize : sizeOfRawData codeAndData ((layoutOf firmware 0x100000 codeAndData).sect 0) = 4 := by decide
  rw [hplace, hsize] at htext
  refine ⟨t, ht, htext.trans (by decide), ?_, ?_, ?_⟩
  · exact (hmem 0x400008).trans (by decide)
  · exact (hmem 0x40000C).trans (by decide)
  · exact hstart.trans (by decide)

end OpenNE

import OpenNE.Boot.BootThread

/-!
# The loop over the sections behind a check (`src/BootThread.cc`)

Behind the check of what it touches, the constructor of `BootThread` is itself or faults (`bootThread_checked`).
What a round of its loop asks of a section header is `SectionInside`; a round that does not fault leaves the blob as
it was, so what the loop asks is said of the image as it came (`wp_loadSections`).
-/

namespace OpenNE

/-! ### Conditions on the fields -/

/-- The fields of the stub that are read lie in the blob. -/
def StubInside (s : Span) (mem : Store) (stub : Nat) : Prop :=
  s.Holds stub 8 ∧ (mem.get Codec.u64 stub ≠ kHandoverMagic →
    s.Holds (stub + 8) 4 ∧ (mem.get Codec.u32 (stub + 8) ≠ kTypeKernel → s.Holds (stub + 16) 4))

/-- Where the data of a section stands. -/
def rawData (fBlob : Nat) (mem : Store) (sect : Nat) : Nat := fBlob + (mem.get Codec.u32 (sect + 20)).toNat

/-- A section header in the blob, whose place is in the pages and whose data is in the blob, each with four bytes a
byte; and what is read for the sake of its name. -/
structure SectionInside (s : Span) (env : BootEnv) (l : ImageLayout) (mem : Store) (sect : Nat) : Prop where
  header : s.Holds sect 24
  place : l.pages.Holds (l.target mem sect) (4 * sizeOfRawData mem sect)
  stub : IsLdr mem sect → StubInside s mem (rawData s.start mem sect)
  name : ¬ Stops s.start mem sect → env.debug = true → (Access.within s).mayReadString mem sect = true
  data : ¬ Stops s.start mem sect → s.Holds (rawData s.start mem sect) (4 * sizeOfRawData mem sect)

/-! ### The check only stops -/

section Check

variable (acc : Access) (mem : Store)

theorem setMem_checked (pages : Span) (dst len : Nat) :
    Checked (setMem acc pages dst len mem) (setMem .anywhere pages dst len mem) :=
  .ite_error

theorem copyMem_checked (pages : Span) (dst src len : Nat) :
    Checked (copyMem acc pages dst src len mem) (copyMem .anywhere pages dst src len mem) :=
  .ite_error

theorem writeString_checked (debug : Bool) (a : Nat) :
    Checked (writeString acc debug a mem) (writeString .anywhere debug a mem) := by
  cases debug
  · exact .refl _
  · cases hread : acc.mayReadString mem a
    · exact .inl (by simp [writeString, hread])
    · refine .inr ?_
      rw [writeString, hread]
      rfl

theorem strcmpFrom_checked (left : List UInt8) : ∀ a len : Nat,
    Checked (strcmpFrom acc mem left a len) (strcmpFrom .anywhere mem left a len) := by
  induction left with
  | nil => exact fun a len => (fetch_checked acc _ a mem).bind fun c => .refl _
  | cons l left ih => exact fun a len => (fetch_checked acc _ a mem).bind fun c => .ite (ih _ _) (.refl _)

theorem strcmp_checked (left : List UInt8) (a : Nat) :
    Checked (strcmp acc left a mem) (strcmp .anywhere left a mem) :=
  .ite (.refl _) (strcmpFrom_checked acc mem left a 0)

theorem startsWith_checked (cs : List UInt8) : ∀ a : Nat,
    Checked (startsWith acc mem cs a) (startsWith .anywhere mem cs a) := by
  induction cs with
  | nil => exact fun a => .refl _
  | cons c cs ih => exact fun a => (fetch_checked acc _ a mem).bind fun b => .ite (ih _) (.refl _)

theorem checkStub_checked (arch : BuildArch) (stub : Nat) :
    Checked (checkStub acc arch stub mem) (checkStub .anywhere arch stub mem) := by
  refine (fetch_checked acc _ _ mem).bind fun magic => .ite ?_ (.refl _)
  refine (fetch_checked acc _ _ mem).bind fun type => .ite ?_ (.refl _)
  exact (fetch_checked acc _ _ mem).bind fun arch => .refl _

theorem lookAtName_checked (env : BootEnv) (fBlob : Nat) (l : ImageLayout) (sect : Nat) (t : LoadState) :
    Checked (lookAtName acc env fBlob l sect t) (lookAtName .anywhere env fBlob l sect t) := by
  refine (strcmp_checked acc _ _ _).bind fun text => .ite ?_ ?_
  · exact (fetch_checked acc _ _ _).bind fun entry => .refl _
  · refine (strcmp_checked acc _ _ _).bind fun ldr => .ite ?_ (.refl _)
    refine (fetch_checked acc _ _ _).bind fun ptr => (checkStub_checked acc _ _ _).bind fun _ => .refl _

theorem loadSection_checked (env : BootEnv) (fBlob : Nat) (l : ImageLayout) (t : LoadState) (i : Nat) :
    Checked (loadSection acc env fBlob l t i) (loadSection .anywhere env fBlob l t i) := by
  refine (fetch_checked acc _ _ _).bind fun addr => (fetch_checked acc _ _ _).bind fun size => ?_
  refine (setMem_checked acc _ _ _ _).bind fun mem => (lookAtName_checked acc _ _ _ _ _).bind fun start => ?_
  refine (fetch_checked acc _ _ _).bind fun ptr => (writeString_checked acc _ _ _).bind fun _ => ?_
  refine (fetch_checked acc _ _ _).bind fun addr => (fetch_checked acc _ _ _).bind fun size => ?_
  exact (copyMem_checked acc _ _ _ _ _).bind fun mem => .refl _

theorem ldrFindExecHeader_checked (ptrDos : Nat) :
    Checked (ldrFindExecHeader acc ptrDos mem) (ldrFindExecHeader .anywhere ptrDos mem) := by
  refine .ite (.refl _) ?_
  refine (fetch_checked acc _ _ mem).bind fun first => .ite (.refl _) ?_
  exact (fetch_checked acc _ _ mem).bind fun second => .refl _

theorem ldrFindOptExecHeader_checked (ptrDos : Nat) :
    Checked (ldrFindOptExecHeader acc ptrDos mem) (ldrFindOptExecHeader .anywhere ptrDos mem) :=
  .ite (.refl _) ((ldrFindExecHeader_checked acc mem ptrDos).bind fun _ => .refl _)

theorem printVersions_checked (header optHeader : Nat) :
    Checked (printVersions acc header optHeader mem) (printVersions .anywhere header optHeader mem) := by
  refine (fetch_checked acc _ _ mem).bind fun _ => (fetch_checked acc _ _ mem).bind fun _ => ?_
  refine (fetch_checked acc _ _ mem).bind fun _ => (fetch_checked acc _ _ mem).bind fun _ => ?_
  exact (fetch_checked acc _ _ mem).bind fun _ => .refl _

theorem readLayout_checked (env : BootEnv) (fBlob : Nat) :
    Checked (readLayout acc env fBlob mem) (readLayout .anywhere env fBlob mem) := by
  refine (ldrFindExecHeader_checked acc mem _).bind fun header => ?_
  refine (ldrFindOptExecHeader_checked acc mem _).bind fun optHeader => .ite (.refl _) ?_
  refine (fetch_checked acc _ _ mem).bind fun machine => .ite (.refl _) ?_
  refine (fetch_checked acc _ _ mem).bind fun signature => .ite (.refl _) ?_
  refine (fetch_checked acc _ _ mem).bind fun subsystem => .ite (.refl _) ?_
  refine (fetch_checked acc _ _ mem).bind fun numSecs => (printVersions_checked acc mem _ _).bind fun _ => ?_
  refine (fetch_checked acc _ _ mem).bind fun base => (fetch_checked acc _ _ mem).bind fun data => ?_
  exact (fetch_checked acc _ _ mem).bind fun size => (fetch_checked acc _ _ mem).bind fun opt => .refl _

theorem findLayout_checked (env : BootEnv) (fBlob : Nat) :
    Checked (findLayout acc env fBlob mem) (findLayout .anywhere env fBlob mem) := by
  refine .ite (.refl _) ((startsWith_checked acc mem _ _).bind fun mz => .ite (readLayout_checked acc mem env _) ?_)
  exact (startsWith_checked acc mem _ _).bind fun _ => .refl _

theorem bootThread_checked (env : BootEnv) (fBlob : Nat) :
    Checked (bootThread acc env fBlob mem) (bootThread .anywhere env fBlob mem) := by
  refine (findLayout_checked acc mem env fBlob).bind fun l => ?_
  cases l with
  | none => exact .refl _
  | some l => exact .foldlM (loadSection_checked acc env fBlob l) _ _

end Check

/-! ### The checked calls -/

theorem u8_size : Codec.u8.size = 1 := rfl
theorem u32_size : Codec.u32.size = 4 := rfl

section Calls

variable {s pages : Span} {mem mem₀ : Store} {a dst src len : Nat}

theorem wp_setMem {post : Store → Prop} : Exec.wp (setMem (.within s) pages dst len mem) post ↔
    pages.Holds dst (4 * len) ∧ post (memset 0 dst len mem) := by
  unfold setMem Access.mayWrite
  by_cases hin : pages.Holds dst (4 * len)
  · simp [hin]
  · simp [hin]

theorem wp_copyMem {post : Store → Prop} : Exec.wp (copyMem (.within s) pages dst src len mem) post ↔
    s.Holds src (4 * len) ∧ pages.Holds dst (4 * len) ∧ post (memcpy dst src len mem) := by
  unfold copyMem Access.mayRead Access.mayWrite
  by_cases hsrc : s.Holds src (4 * len)
  · by_cases hdst : pages.Holds dst (4 * len)
    · simp [hsrc, hdst]
    · simp [hsrc, hdst]
  · simp [hsrc]

theorem mayReadString_congr (h : Agree s mem mem₀) :
    (Access.within s).mayReadString mem a = (Access.within s).mayReadString mem₀ a := by
  unfold Access.mayReadString
  rw [decide_eq_decide]
  apply and_congr_right
  intro hlow
  apply exists_congr
  intro x
  apply and_congr_right
  intro hhigh
  apply and_congr_right
  intro hax
  rw [h x (Span.mem_def.mpr ⟨hlow.trans hax, hhigh⟩)]

theorem wp_writeString {debug : Bool} {post : Unit → Prop} (h : Agree s mem mem₀) :
    Exec.wp (writeString (.within s) debug a mem) post ↔
      (debug = true → (Access.within s).mayReadString mem₀ a = true) ∧ post () := by
  unfold writeString
  rw [mayReadString_congr h]
  cases debug <;> cases (Access.within s).mayReadString mem₀ a <;> simp

theorem strcmpAt_congr {left : List UInt8} : ∀ {a len : Nat}, (∀ k ≤ left.length, mem (a + k) = mem₀ (a + k)) →
    strcmpAt mem left a len = strcmpAt mem₀ left a len := by
  induction left with
  | nil =>
    intro a len h
    have hfirst : mem a = mem₀ a := h 0 (Nat.le_refl 0)
    rw [strcmpAt, strcmpAt, get_u8, get_u8, hfirst]
  | cons l left ih =>
    intro a len h
    have hfirst : mem a = mem₀ a := h 0 (Nat.zero_le _)
    rw [strcmpAt, strcmpAt, get_u8, get_u8, hfirst, ih]
    intro k hk
    rw [Nat.add_assoc, Nat.add_comm 1 k]
    exact h (k + 1) (Nat.succ_le_succ hk)

theorem wp_checkStub {arch : BuildArch} {stub : Nat} {post : Unit → Prop} (h : Agree s mem mem₀) :
    Exec.wp (checkStub (.within s) arch stub mem) post ↔ StubInside s mem₀ stub ∧
      (¬ (mem₀.get Codec.u64 stub ≠ kHandoverMagic ∧ mem₀.get Codec.u32 (stub + 8) ≠ kTypeKernel) → post ()) := by
  unfold checkStub StubInside
  rw [Exec.wp_bind, wp_fetch h, and_assoc]
  apply and_congr_right
  intro _
  by_cases hmagic : mem₀.get Codec.u64 stub = kHandoverMagic
  · simp [hmagic]
  · rw [if_pos hmagic, Exec.wp_bind, wp_fetch h]
    by_cases htype : mem₀.get Codec.u32 (stub + 8) = kTypeKernel
    · simp [hmagic, htype, u32_size]
    · rw [if_pos htype, Exec.wp_bind, wp_fetch h]
      simp [hmagic, htype, u32_size]

theorem name_holds {sect n k : Nat} (hin : s.Holds sect 20) (hn : n < 8) (hk : k ≤ n) : s.Holds (sect + k) 1 := by
  simp only [Span.Holds] at hin ⊢
  omega

theorem strcmpAt_agree {left : List UInt8} {sect : Nat} (h : Agree s mem mem₀) (hin : s.Holds sect 20)
    (hlen : left.length < 8) : strcmpAt mem left sect 0 = strcmpAt mem₀ left sect 0 := by
  apply strcmpAt_congr
  intro k hk
  have hsame := h.get (c := Codec.u8) (name_holds hin hlen hk)
  rwa [get_u8, get_u8] at hsame

theorem strcmp_within {left : List UInt8} {sect : Nat} (h : Agree s mem mem₀) (hin : s.Holds sect 20)
    (hne : left ≠ []) (hlen : left.length < 8) :
    strcmp (.within s) left sect mem = .ok (strcmpAt mem₀ left sect 0) := by
  rw [strcmp_eq hne, strcmpAt_agree h hin hlen]
  intro k hk
  exact decide_eq_true (name_holds hin hlen hk)

theorem startBehind_agree {l : ImageLayout} {sect : Nat} (fStartAddress : Nat) (h : Agree s mem mem₀)
    (hname : s.Holds sect 20) (hentry : s.Holds (l.optHeader + 16) 4) :
    startBehind l mem sect fStartAddress = startBehind l mem₀ sect fStartAddress := by
  have htext : IsText mem sect ↔ IsText mem₀ sect := by
    unfold IsText
    rw [strcmpAt_agree h hname (by decide)]
  simp only [startBehind, htext, h.get (c := Codec.u32) hentry]

theorem wp_lookAtName {env : BootEnv} {l : ImageLayout} {sect fStartAddress : Nat} {post : Nat → Prop}
    (h : Agree s mem mem₀) (hname : s.Holds sect 20) (hentry : s.Holds (l.optHeader + 16) 4) :
    Exec.wp (lookAtName (.within s) env s.start l sect ⟨mem, fStartAddress⟩) post ↔
      (IsLdr mem₀ sect → s.Holds (sect + 20) 4 ∧ StubInside s mem₀ (rawData s.start mem₀ sect)) ∧
        (¬ Stops s.start mem₀ sect → post (startBehind l mem₀ sect fStartAddress)) := by
  unfold lookAtName
  dsimp only
  rw [strcmp_within h hname (by decide) (by decide), strcmp_within h hname (by decide) (by decide), Exec.ok_bind]
  by_cases htext : IsText mem₀ sect
  · have hequal : strcmpAt mem₀ sectionForCode sect 0 = 0 := htext
    have hldr : ¬ IsLdr mem₀ sect := fun hldr => hldr.1 htext
    have hstop : ¬ Stops s.start mem₀ sect := fun hstop => hldr hstop.1
    rw [if_pos hequal, Exec.wp_bind, wp_fetch h, u32_size, startBehind, if_pos htext]
    simp [hentry, hldr, hstop]
  · have hdiffer : ¬ strcmpAt mem₀ sectionForCode sect 0 = 0 := htext
    rw [if_neg hdiffer, Exec.ok_bind, startBehind, if_neg htext]
    by_cases hequal : strcmpAt mem₀ sectionForNewLdr sect 0 = 0
    · have hldr : IsLdr mem₀ sect := ⟨htext, hequal⟩
      have hstop : Stops s.start mem₀ sect ↔ mem₀.get Codec.u64 (rawData s.start mem₀ sect) ≠ kHandoverMagic ∧
          mem₀.get Codec.u32 (rawData s.start mem₀ sect + 8) ≠ kTypeKernel := and_iff_right hldr
      rw [if_pos hequal, Exec.wp_bind, wp_fetch h, u32_size, Exec.wp_bind, ← rawData, wp_checkStub h, hstop]
      simp [hldr, and_assoc]
    · have hldr : ¬ IsLdr mem₀ sect := fun hldr => hequal hldr.2
      have hstop : ¬ Stops s.start mem₀ sect := fun hstop => hldr hstop.1
      rw [if_neg hequal]
      simp [hldr, hstop]

theorem zeroSection_agree {l : ImageLayout} {sect : Nat} (h : Agree s mem mem₀)
    (hapart : l.pages.len ≠ 0 → l.pages.Disjoint s) (haddr : s.Holds (sect + 12) 4) (hsize : s.Holds (sect + 16) 4)
    (hplace : l.pages.Holds (l.target mem₀ sect) (4 * sizeOfRawData mem₀ sect)) :
    zeroSection l sect mem = memset 0 (l.target mem₀ sect) (sizeOfRawData mem₀ sect) mem ∧
      Agree s (zeroSection l sect mem) mem₀ := by
  have hzero : zeroSection l sect mem = memset 0 (l.target mem₀ sect) (sizeOfRawData mem₀ sect) mem := by
    simp only [zeroSection, ImageLayout.target, sizeOfRawData, h.get (c := Codec.u32) haddr,
      h.get (c := Codec.u32) hsize]
  refine ⟨hzero, ?_⟩
  rw [hzero]
  intro a ha
  rw [← h a ha]
  refine agree_of_outside hplace ?_ (fun x => memset_outside) a ha
  intro hne
  apply hapart
  simp only [Span.Holds] at hplace
  omega

theorem fields_holds {sect : Nat} (hname : s.Holds sect 20) : s.Holds (sect + 12) 4 ∧ s.Holds (sect + 16) 4 := by
  simp only [Span.Holds] at hname ⊢
  omega

theorem stepSection_eq {l : ImageLayout} {t : LoadState} {i : Nat}
    (hagree : Agree s (zeroSection l (l.sect i) t.mem) mem₀) (hname : s.Holds (l.sect i) 20)
    (hptr : s.Holds (l.sect i + 20) 4) (hentry : s.Holds (l.optHeader + 16) 4) :
    stepSection s.start l t i =
      ⟨memcpy (l.target mem₀ (l.sect i)) (rawData s.start mem₀ (l.sect i)) (sizeOfRawData mem₀ (l.sect i))
        (zeroSection l (l.sect i) t.mem), startBehind l mem₀ (l.sect i) t.fStartAddress⟩ := by
  obtain ⟨haddr, hsize⟩ := fields_holds hname
  rw [← startBehind_agree t.fStartAddress hagree hname hentry]
  simp only [stepSection, copySection, ImageLayout.target, sizeOfRawData, rawData, startBehind,
    hagree.get (c := Codec.u32) haddr, hagree.get (c := Codec.u32) hsize, hagree.get (c := Codec.u32) hptr]

theorem wp_loadZeroed {env : BootEnv} {l : ImageLayout} {t : LoadState} {i : Nat} {post : LoadState → Prop}
    (h : Agree s t.mem mem₀) (hapart : l.pages.len ≠ 0 → l.pages.Disjoint s) (hname : s.Holds (l.sect i) 20)
    (hplace : l.pages.Holds (l.target mem₀ (l.sect i)) (4 * sizeOfRawData mem₀ (l.sect i)))
    (hentry : s.Holds (l.optHeader + 16) 4) :
    Exec.wp (loadSection (.within s) env s.start l t i) post ↔ SectionInside s env l mem₀ (l.sect i) ∧
      (¬ Stops s.start mem₀ (l.sect i) → post (stepSection s.start l t i)) := by
  obtain ⟨haddr, hsize⟩ := fields_holds hname
  have hheader : s.Holds (l.sect i + 20) 4 ↔ s.Holds (l.sect i) 24 := by
    simp only [Span.Holds] at hname ⊢
    omega
  obtain ⟨hzero, hagree⟩ := zeroSection_agree h hapart haddr hsize hplace
  unfold loadSection
  dsimp only
  rw [Exec.wp_bind, wp_fetch h, u32_size, Exec.wp_bind, wp_fetch h, u32_size, Exec.wp_bind, wp_setMem,
    ← ImageLayout.target, ← sizeOfRawData, ← hzero, Exec.wp_bind, wp_lookAtName hagree hname hentry]
  simp only [Exec.wp_bind, wp_fetch hagree, wp_writeString hagree, wp_copyMem, u32_size, Exec.pure_eq_ok, Exec.wp_ok]
  constructor
  · rintro ⟨-, -, -, hldr, hrest⟩
    have hptr : s.Holds (l.sect i + 20) 4 := by
      by_cases hstop : Stops s.start mem₀ (l.sect i)
      · exact (hldr hstop.1).1
      · exact (hrest hstop).1
    refine ⟨⟨hheader.mp hptr, hplace, fun h => (hldr h).2, fun h => (hrest h).2.1, fun h => ?_⟩, fun h => ?_⟩
    · obtain ⟨-, -, -, -, hdata, -⟩ := hrest h
      exact hdata
    · obtain ⟨-, -, -, -, -, -, hpost⟩ := hrest h
      rw [stepSection_eq hagree hname hptr hentry]
      exact hpost
  · rintro ⟨hinside, hpost⟩
    have hptr := hheader.mpr hinside.header
    rw [stepSection_eq hagree hname hptr hentry] at hpost
    exact ⟨haddr, hsize, hplace, fun h => ⟨hptr, hinside.stub h⟩, fun h =>
      ⟨hptr, hinside.name h, haddr, hsize, hinside.data h, hplace, hpost h⟩⟩

theorem wp_loadSection {env : BootEnv} {l : ImageLayout} {t : LoadState} {i : Nat} {post : LoadState → Prop}
    (h : Agree s t.mem mem₀) (hapart : l.pages.len ≠ 0 → l.pages.Disjoint s) (hlow : s.start ≤ l.sect i)
    (hentry : s.Holds (l.optHeader + 16) 4) :
    Exec.wp (loadSection (.within s) env s.start l t i) post ↔ SectionInside s env l mem₀ (l.sect i) ∧
      (¬ Stops s.start mem₀ (l.sect i) → post (stepSection s.start l t i)) := by
  have hfirst : Exec.wp (loadSection (.within s) env s.start l t i) post → s.Holds (l.sect i + 12) 4 ∧
      s.Holds (l.sect i + 16) 4 ∧ l.pages.Holds (l.target mem₀ (l.sect i)) (4 * sizeOfRawData mem₀ (l.sect i)) := by
    unfold loadSection
    dsimp only
    rw [Exec.wp_bind, wp_fetch h, u32_size, Exec.wp_bind, wp_fetch h, u32_size, Exec.wp_bind, wp_setMem]
    rintro ⟨haddr, hsize, hplace, -⟩
    exact ⟨haddr, hsize, hplace⟩
  constructor
  · intro hround
    obtain ⟨haddr, hsize, hplace⟩ := hfirst hround
    have hname : s.Holds (l.sect i) 20 := by
      simp only [Span.Holds] at haddr hsize ⊢
      omega
    exact (wp_loadZeroed h hapart hname hplace hentry).mp hround
  · rintro ⟨hinside, hpost⟩
    have hheader := hinside.header
    have hname : s.Holds (l.sect i) 20 := by
      simp only [Span.Holds] at hheader ⊢
      omega
    exact (wp_loadZeroed h hapart hname hinside.place hentry).mpr ⟨hinside, hpost⟩

end Calls

/-! ### The loop -/

section Sections

variable {s : Span} {mem₀ : Store} {env : BootEnv} {l : ImageLayout} {n : Nat}

/-- The sections that the loop comes to lie inside. -/
def SectionsInside (s : Span) (env : BootEnv) (l : ImageLayout) (mem : Store) (n : Nat) : Prop :=
  ∀ k < n, (∀ j < k, ¬ Stops s.start mem (l.sect j)) → SectionInside s env l mem (l.sect k)

/-- No section stops the loop. -/
def NoneStops (s : Span) (l : ImageLayout) (mem : Store) (n : Nat) : Prop := ∀ j < n, ¬ Stops s.start mem (l.sect j)

theorem SectionInside.fields {mem : Store} {sect : Nat} (h : SectionInside s env l mem sect) :
    s.Holds sect 20 ∧ s.Holds (sect + 12) 4 ∧ s.Holds (sect + 16) 4 ∧ s.Holds (sect + 20) 4 := by
  have hheader := h.header
  simp only [Span.Holds] at hheader ⊢
  omega

theorem copySection_agree {mem : Store} {sect : Nat} (h : Agree s mem mem₀)
    (hapart : l.pages.len ≠ 0 → l.pages.Disjoint s) (haddr : s.Holds (sect + 12) 4) (hsize : s.Holds (sect + 16) 4)
    (hplace : l.pages.Holds (l.target mem₀ sect) (4 * sizeOfRawData mem₀ sect)) :
    Agree s (copySection s.start l sect mem) mem₀ := by
  have hcopy : copySection s.start l sect mem =
      memcpy (l.target mem₀ sect) (rawData s.start mem sect) (sizeOfRawData mem₀ sect) mem := by
    simp only [copySection, ImageLayout.target, sizeOfRawData, rawData, h.get (c := Codec.u32) haddr,
      h.get (c := Codec.u32) hsize]
  rw [hcopy]
  intro a ha
  rw [← h a ha]
  refine agree_of_outside hplace ?_ (fun x => memcpy_outside) a ha
  intro hne
  apply hapart
  simp only [Span.Holds] at hplace
  omega

theorem stepSection_mem (fBlob : Nat) (l : ImageLayout) (t : LoadState) (i : Nat) :
    (stepSection fBlob l t i).mem = copySection fBlob l (l.sect i) (zeroSection l (l.sect i) t.mem) := by
  simp only [stepSection]

theorem stepSection_agree {t : LoadState} {i : Nat} (h : Agree s t.mem mem₀)
    (hapart : l.pages.len ≠ 0 → l.pages.Disjoint s) (hinside : SectionInside s env l mem₀ (l.sect i)) :
    Agree s (stepSection s.start l t i).mem mem₀ := by
  obtain ⟨-, haddr, hsize, -⟩ := hinside.fields
  obtain ⟨-, hagree⟩ := zeroSection_agree h hapart haddr hsize hinside.place
  rw [stepSection_mem]
  exact copySection_agree hagree hapart haddr hsize hinside.place

theorem loadedTo_agree (hapart : l.pages.len ≠ 0 → l.pages.Disjoint s) (hinside : SectionsInside s env l mem₀ n)
    (hnone : NoneStops s l mem₀ n) : Agree s (loadedTo s.start l mem₀ n).mem mem₀ := by
  induction n with
  | zero => exact fun a _ => rfl
  | succ n ih =>
    rw [loadedTo_succ]
    apply stepSection_agree _ hapart
    · exact hinside n (Nat.lt_succ_self n) fun j hj => hnone j (by omega)
    · exact ih (fun k hk => hinside k (by omega)) fun j hj => hnone j (by omega)

theorem wp_loadSections (hapart : l.pages.len ≠ 0 → l.pages.Disjoint s) (hlow : s.start ≤ l.sectPtr)
    (hentry : s.Holds (l.optHeader + 16) 4) {post : LoadState → Prop} :
    Exec.wp ((List.range n).foldlM (loadSection (.within s) env s.start l) ⟨mem₀, 0⟩) post ↔
      SectionsInside s env l mem₀ n ∧ (NoneStops s l mem₀ n → post (loadedTo s.start l mem₀ n)) := by
  induction n generalizing post with
  | zero => simp [SectionsInside, NoneStops, loadedTo]
  | succ n ih =>
    rw [List.range_succ, List.foldlM_append, Exec.wp_bind, ih]
    have hsect : s.start ≤ l.sect n := Nat.le_trans hlow (Nat.le_add_right _ _)
    have hround : SectionsInside s env l mem₀ n → NoneStops s l mem₀ n →
        (Exec.wp (List.foldlM (loadSection (.within s) env s.start l) (loadedTo s.start l mem₀ n) [n]) post ↔
          SectionInside s env l mem₀ (l.sect n) ∧
            (¬ Stops s.start mem₀ (l.sect n) → post (loadedTo s.start l mem₀ (n + 1)))) := by
      intro hinside hnone
      simp only [List.foldlM_cons, List.foldlM_nil, bind_pure]
      rw [loadedTo_succ]
      exact wp_loadSection (loadedTo_agree hapart hinside hnone) hapart hsect hentry
    constructor
    · rintro ⟨hinside, hrest⟩
      refine ⟨?_, ?_⟩
      · intro k hk hbefore
        rcases Nat.lt_succ_iff_lt_or_eq.mp hk with hlt | rfl
        · exact hinside k hlt hbefore
        · exact ((hround hinside hbefore).mp (hrest hbefore)).1
      · intro hnone
        have hbefore : NoneStops s l mem₀ n := fun j hj => hnone j (by omega)
        exact ((hround hinside hbefore).mp (hrest hbefore)).2 (hnone n (Nat.lt_succ_self n))
    · rintro ⟨hinside, hpost⟩
      have hfirst : SectionsInside s env l mem₀ n := fun k hk => hinside k (by omega)
      refine ⟨hfirst, fun hnone => (hround hfirst hnone).mpr ⟨hinside n (Nat.lt_succ_self n) hnone, ?_⟩⟩
      intro hlast
      apply hpost
      intro j hj
      rcases Nat.lt_succ_iff_lt_or_eq.mp hj with hlt | rfl
      · exact hnone j hlt
      · exact hlast

end Sections

end OpenNE

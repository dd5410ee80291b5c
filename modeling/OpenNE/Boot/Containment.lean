import OpenNE.Boot.CheckedLoad

/-!
# What the loader touches (`src/BootThread.cc`)

Nothing that the headers of an image say is looked at before it is used: not where a section goes, not how long it
is, not where its data stands. What the constructor does inside and outside of the blob and of the pages it asked
for is decided by arithmetic on these fields (`contained_iff`).
-/

namespace OpenNE

/-! ### The headers -/

/-- The characters that a comparison with `cs` reads lie in the blob. -/
def ComparesInside (s : Span) (mem : Store) : List UInt8 → Nat → Prop
  | [], _ => True
  | c :: cs, a => s.Holds a 1 ∧ (mem a = c → ComparesInside s mem cs (a + 1))

instance : ∀ (s : Span) (mem : Store) (cs : List UInt8) (a : Nat), Decidable (ComparesInside s mem cs a)
  | _, _, [], _ => .isTrue trivial
  | s, mem, _ :: cs, a =>
    have := instDecidableComparesInside s mem cs (a + 1)
    inferInstanceAs (Decidable (_ ∧ (_ → _)))

/-- The blob begins as a DOS executable does. -/
def IsMz (mem : Store) (fBlob : Nat) : Prop := mem.read fBlob 2 = [kMagMz0, kMagMz1]

/-- The machine and the signature are those of an executable for this build. -/
def IsExecutable (env : BootEnv) (fBlob : Nat) (mem : Store) : Prop :=
  mem.get Codec.u16 (fBlob + 132) = env.arch.machine ∧ mem.get Codec.u32 (fBlob + 128) = kPeSignature

/-- The headers are accepted, and the sections gone through. -/
def Accepted (env : BootEnv) (fBlob : Nat) (mem : Store) : Prop :=
  IsMz mem fBlob ∧ IsExecutable env fBlob mem ∧ mem.get Codec.u16 (fBlob + 220) = kZKASubsystem

instance (mem : Store) (fBlob : Nat) : Decidable (IsMz mem fBlob) := inferInstanceAs (Decidable (_ = _))

instance (env : BootEnv) (fBlob : Nat) (mem : Store) : Decidable (IsExecutable env fBlob mem) :=
  inferInstanceAs (Decidable (_ ∧ _))

instance (env : BootEnv) (fBlob : Nat) (mem : Store) : Decidable (Accepted env fBlob mem) :=
  inferInstanceAs (Decidable (_ ∧ _ ∧ _))

/-- The headers that are read lie in the blob. -/
def HeadersInside (s : Span) (env : BootEnv) (mem : Store) : Prop :=
  ComparesInside s mem [kMagMz0, kMagMz1] s.start ∧
    if IsMz mem s.start then 134 ≤ s.len ∧ (IsExecutable env s.start mem → 222 ≤ s.len)
    else ComparesInside s mem kPefMagic s.start

/-- What the headers say. -/
def layoutOf (env : BootEnv) (fBlob : Nat) (mem : Store) : ImageLayout :=
  let loadStartAddress := (mem.get Codec.u32 (fBlob + 180)).toNat + (mem.get Codec.u32 (fBlob + 176)).toNat
  let mSizeOfImage := (mem.get Codec.u32 (fBlob + 208)).toNat
  { loadStartAddress := loadStartAddress
    mSizeOfImage := mSizeOfImage
    pages := env.pagesAt loadStartAddress (mSizeOfImage / cPageSize)
    optHeader := fBlob + 152
    sectPtr := fBlob + (152 + (mem.get Codec.u16 (fBlob + 148)).toNat)
    numSecs := (mem.get Codec.u16 (fBlob + 134)).toNat }

section Headers

variable {s : Span} {mem : Store} {env : BootEnv} {fBlob : Nat}

theorem wp_startsWith {cs : List UInt8} {post : Bool → Prop} : ∀ {a : Nat},
    Exec.wp (startsWith (.within s) mem cs a) post ↔
      ComparesInside s mem cs a ∧ post (decide (mem.read a cs.length = cs)) := by
  induction cs with
  | nil =>
    intro a
    simp [startsWith, ComparesInside, Store.read]
  | cons c cs ih =>
    intro a
    rw [startsWith, Exec.wp_bind, wp_fetch (fun _ _ => rfl), u8_size, get_u8, List.length_cons, read_succ,
      ComparesInside, and_assoc]
    apply and_congr_right
    intro _
    by_cases hsame : mem a = c
    · rw [if_pos hsame, ih]
      simp [hsame]
    · rw [if_neg hsame]
      simp [hsame]

theorem startsWith_anywhere {cs : List UInt8} : ∀ {a : Nat},
    startsWith .anywhere mem cs a = .ok (decide (mem.read a cs.length = cs)) := by
  induction cs with
  | nil =>
    intro a
    simp [startsWith, Store.read]
  | cons c cs ih =>
    intro a
    rw [startsWith, fetch_anywhere, Exec.ok_bind, get_u8, List.length_cons, read_succ, ih]
    by_cases hsame : mem a = c
    · simp [hsame]
    · simp [hsame]

theorem isMz_iff : IsMz mem fBlob ↔ mem fBlob = kMagMz0 ∧ mem (fBlob + 1) = kMagMz1 := by
  unfold IsMz
  rw [read_succ, read_succ]
  simp [Store.read]

theorem ldrFindExecHeader_mz (acc : Access) (h0 : fBlob ≠ 0) (hmz : IsMz mem fBlob)
    (hread : acc.mayRead fBlob 1 = true ∧ acc.mayRead (fBlob + 1) 1 = true) :
    ldrFindExecHeader acc fBlob mem = .ok (fBlob + 128) ∧
      ldrFindOptExecHeader acc fBlob mem = .ok (fBlob + 152) := by
  obtain ⟨hfirst, hsecond⟩ := isMz_iff.mp hmz
  have hexec : ldrFindExecHeader acc fBlob mem = .ok (fBlob + 128) := by
    simp [ldrFindExecHeader, fetch, u8_size, hread, get_u8, h0, hfirst, hsecond, dosHeaderSize]
  refine ⟨hexec, ?_⟩
  simp [ldrFindOptExecHeader, hexec, h0, execHeaderSize]

theorem printVersions_eq {acc : Access} (hread : ∀ k n, k + n ≤ 222 → acc.mayRead (fBlob + k) n = true) :
    printVersions acc (fBlob + 128) (fBlob + 152) mem = .ok () := by
  have hfetch : ∀ {α : Type} (c : Codec α) (k : Nat), k + c.size ≤ 222 → fetch acc c (fBlob + k) mem =
      .ok (mem.get c (fBlob + k)) := fun c k hk => if_pos (hread k c.size hk)
  unfold printVersions
  simp only [Nat.add_assoc, Nat.reduceAdd]
  rw [hfetch _ _ (by decide), hfetch _ _ (by decide), hfetch _ _ (by decide), hfetch _ _ (by decide),
    hfetch _ _ (by decide)]
  rfl

theorem readLayout_eq {acc : Access} (h0 : fBlob ≠ 0) (hmz : IsMz mem fBlob)
    (hread : ∀ k n, k + n ≤ 134 → acc.mayRead (fBlob + k) n = true)
    (hmore : IsExecutable env fBlob mem → ∀ k n, k + n ≤ 222 → acc.mayRead (fBlob + k) n = true) :
    readLayout acc env fBlob mem =
      .ok (if Accepted env fBlob mem then some (layoutOf env fBlob mem) else none) := by
  obtain ⟨hheader, hopt⟩ := ldrFindExecHeader_mz acc h0 hmz ⟨hread 0 1 (by decide), hread 1 1 (by decide)⟩
  have hfetch : ∀ {α : Type} (c : Codec α) (k : Nat), k + c.size ≤ 134 → fetch acc c (fBlob + k) mem =
      .ok (mem.get c (fBlob + k)) := fun c k hk => if_pos (hread k c.size hk)
  unfold readLayout
  rw [hheader, hopt]
  simp only [Exec.ok_bind, Nat.add_assoc, Nat.reduceAdd]
  rw [if_neg (by omega), hfetch _ _ (by decide), hfetch _ _ (by decide)]
  simp only [Exec.ok_bind]
  by_cases hmachine : mem.get Codec.u16 (fBlob + 132) = env.arch.machine
  · by_cases hsignature : mem.get Codec.u32 (fBlob + 128) = kPeSignature
    · have hall : ∀ {α : Type} (c : Codec α) (k : Nat), k + c.size ≤ 222 → fetch acc c (fBlob + k) mem =
          .ok (mem.get c (fBlob + k)) := fun c k hk => if_pos (hmore ⟨hmachine, hsignature⟩ k c.size hk)
      rw [if_neg (not_not.mpr hmachine), if_neg (not_not.mpr hsignature), hall _ _ (by decide)]
      by_cases hsubsystem : mem.get Codec.u16 (fBlob + 220) = kZKASubsystem
      · rw [if_pos ⟨hmz, ⟨hmachine, hsignature⟩, hsubsystem⟩, Exec.ok_bind, if_neg (not_not.mpr hsubsystem),
          printVersions_eq (hmore ⟨hmachine, hsignature⟩), hall _ _ (by decide), hall _ _ (by decide),
          hall _ _ (by decide), hall _ _ (by decide), hall _ _ (by decide)]
        rfl
      · rw [if_neg fun h => hsubsystem h.2.2, Exec.ok_bind, if_pos hsubsystem]
        rfl
    · rw [if_neg (not_not.mpr hmachine), if_pos hsignature, if_neg fun h => hsignature h.2.1.2]
      rfl
  · rw [if_pos hmachine, if_neg fun h => hmachine h.2.1.1]
    rfl

/-- What the constructor finds in the headers. -/
def foundLayout (env : BootEnv) (fBlob : Nat) (mem : Store) : Option ImageLayout :=
  if Accepted env fBlob mem then some (layoutOf env fBlob mem) else none

theorem foundLayout_eq_some {l : ImageLayout} :
    foundLayout env fBlob mem = some l ↔ Accepted env fBlob mem ∧ l = layoutOf env fBlob mem := by
  unfold foundLayout
  split
  · simp [*, eq_comm]
  · simp [*]

theorem findLayout_anywhere (h0 : fBlob ≠ 0) :
    findLayout .anywhere env fBlob mem = .ok (foundLayout env fBlob mem) := by
  unfold findLayout
  rw [if_neg h0, startsWith_anywhere, startsWith_anywhere]
  simp only [Exec.ok_bind, decide_eq_true_eq]
  by_cases hmz : IsMz mem fBlob
  · rw [if_pos (show mem.read fBlob [kMagMz0, kMagMz1].length = _ from hmz)]
    exact readLayout_eq h0 hmz (fun _ _ _ => rfl) fun _ _ _ _ => rfl
  · rw [if_neg (show ¬ mem.read fBlob [kMagMz0, kMagMz1].length = _ from hmz), foundLayout, if_neg fun h => hmz h.1]
    rfl

theorem holds_start {k n : Nat} (hn : 0 < n) : s.Holds (s.start + k) n ↔ k + n ≤ s.len := by
  simp only [Span.Holds]
  omega

theorem mayRead_within {k n m : Nat} (hlen : m ≤ s.len) (hk : k + n ≤ m) :
    (Access.within s).mayRead (s.start + k) n = true := by
  apply decide_eq_true
  simp only [Span.Holds]
  omega

theorem wp_readLayout {post : Option ImageLayout → Prop} (h0 : s.start ≠ 0) (hmz : IsMz mem s.start)
    (hin : s.Holds s.start 1 ∧ s.Holds (s.start + 1) 1) :
    Exec.wp (readLayout (.within s) env s.start mem) post ↔
      (134 ≤ s.len ∧ (IsExecutable env s.start mem → 222 ≤ s.len)) ∧ post (foundLayout env s.start mem) := by
  by_cases hlen : 134 ≤ s.len ∧ (IsExecutable env s.start mem → 222 ≤ s.len)
  · rw [readLayout_eq h0 hmz (fun _ _ => mayRead_within hlen.1) fun hexec _ _ => mayRead_within (hlen.2 hexec),
      Exec.wp_ok, and_iff_right hlen]
    rfl
  · refine iff_of_false ?_ fun h => hlen h.1
    obtain ⟨hheader, hopt⟩ :=
      ldrFindExecHeader_mz (.within s) h0 hmz ⟨decide_eq_true hin.1, decide_eq_true hin.2⟩
    unfold readLayout
    rw [hheader, hopt]
    simp only [Exec.ok_bind, Nat.add_assoc, Nat.reduceAdd]
    rw [if_neg (by omega), Exec.wp_bind, wp_fetch (fun _ _ => rfl), holds_start (by decide)]
    rintro ⟨hfirst, hrest⟩
    have hfirst' : 134 ≤ s.len := hfirst
    apply hlen
    refine ⟨hfirst', ?_⟩
    rintro ⟨hmachine, hsignature⟩
    rw [if_neg (not_not.mpr hmachine), Exec.wp_bind, wp_fetch (fun _ _ => rfl)] at hrest
    rw [if_neg (not_not.mpr hsignature), Exec.wp_bind, wp_fetch (fun _ _ => rfl), holds_start (by decide)] at hrest
    exact (holds_start (by decide)).mp hrest.2.1

theorem wp_findLayout {post : Option ImageLayout → Prop} (h0 : s.start ≠ 0) :
    Exec.wp (findLayout (.within s) env s.start mem) post ↔
      HeadersInside s env mem ∧ post (foundLayout env s.start mem) := by
  unfold findLayout HeadersInside
  rw [if_neg h0, Exec.wp_bind, wp_startsWith, and_assoc]
  apply and_congr_right
  intro hcompares
  by_cases hmz : IsMz mem s.start
  · rw [if_pos (decide_eq_true (show mem.read s.start [kMagMz0, kMagMz1].length = _ from hmz)), if_pos hmz]
    obtain ⟨hfirst, hrest⟩ := hcompares
    exact wp_readLayout h0 hmz ⟨hfirst, (hrest (isMz_iff.mp hmz).1).1⟩
  · rw [if_neg (show ¬ decide (mem.read s.start [kMagMz0, kMagMz1].length = _) = true by rwa [decide_eq_true_eq]),
      if_neg hmz, Exec.wp_bind, wp_startsWith, foundLayout, if_neg fun h => hmz h.1]
    rfl

end Headers

/-! ### The whole constructor -/

/-- Where the data of a section is copied to. -/
def ImageLayout.copied (l : ImageLayout) (mem : Store) (sect : Nat) : Span :=
  ⟨l.target mem sect, 4 * sizeOfRawData mem sect⟩

/-- What the loader should keep to: it touches the blob and the pages only, the pages cover the image, and a valid
thread starts in what was copied. -/
structure Contained (env : BootEnv) (s : Span) (mem : Store) : Prop where
  touches : (bootThread (.within s) env s.start mem).NoFault
  covered : ∀ l, findLayout .anywhere env s.start mem = .ok (some l) →
    l.pages.Holds l.loadStartAddress l.mSizeOfImage
  entry : ∀ t, bootThread .anywhere env s.start mem = .ok t → t.isValid = true →
    ∃ l, findLayout .anywhere env s.start mem = .ok (some l) ∧ ∃ k < l.numSecs,
      t.fStartAddress ∈ l.copied (memAt s.start l mem k) (l.sect k)

/-- The address that a section for code gives. -/
def ImageLayout.entryAddress (l : ImageLayout) (mem : Store) : Nat :=
  l.loadStartAddress + (mem.get Codec.u32 (l.optHeader + 16)).toNat

/-- An entry point in the data of some section. -/
def EntryInside (l : ImageLayout) (mem : Store) : Prop :=
  (∃ k < l.numSecs, IsText mem (l.sect k)) → l.entryAddress mem ≠ 0 →
    ∃ k < l.numSecs, l.entryAddress mem ∈ l.copied mem (l.sect k)

/-- An image whose fields fit together. -/
def ImageFits (env : BootEnv) (s : Span) (mem : Store) : Prop :=
  s.start = 0 ∨ HeadersInside s env mem ∧ (Accepted env s.start mem →
    let l := layoutOf env s.start mem
    (l.mSizeOfImage = 0 ∨ env.allocatePages l.loadStartAddress (l.mSizeOfImage / cPageSize) = true ∧
      cPageSize ≤ l.mSizeOfImage) ∧
    SectionsInside s env l mem l.numSecs ∧ (NoneStops s l mem l.numSecs → EntryInside l mem))

section Image

variable {s : Span} {mem : Store} {env : BootEnv} {l : ImageLayout}

theorem pagesAt_covers {address n : Nat} : (env.pagesAt address (n / cPageSize)).Holds address n ↔
    n = 0 ∨ env.allocatePages address (n / cPageSize) = true ∧ cPageSize ≤ n := by
  unfold BootEnv.pagesAt Span.Holds cPageSize efiPageSize
  cases env.allocatePages address (n / 512)
  · simp only [Bool.false_eq_true, if_false, false_and, or_false]
    omega
  · simp only [if_true, true_and]
    omega

theorem pagesAt_apart {address n : Nat}
    (hfree : env.allocatePages address n = true → (⟨address, efiPageSize * n⟩ : Span).Disjoint s)
    (hlen : (env.pagesAt address n).len ≠ 0) : (env.pagesAt address n).Disjoint s := by
  unfold BootEnv.pagesAt at hlen ⊢
  cases halloc : env.allocatePages address n
  · simp [halloc] at hlen
  · simpa [halloc] using hfree halloc

theorem loadedTo_start {n : Nat} (hapart : l.pages.len ≠ 0 → l.pages.Disjoint s)
    (hinside : SectionsInside s env l mem n) (hnone : NoneStops s l mem n) (hentry : s.Holds (l.optHeader + 16) 4) :
    (loadedTo s.start l mem n).fStartAddress =
      if ∃ k < n, IsText mem (l.sect k) then l.entryAddress mem else 0 := by
  induction n with
  | zero =>
    rw [if_neg]
    · rfl
    · simp
  | succ n ih =>
    have hbefore : NoneStops s l mem n := fun j hj => hnone j (by omega)
    have hfirst : SectionsInside s env l mem n := fun k hk => hinside k (by omega)
    have hfields := (hinside n (Nat.lt_succ_self n) hbefore).fields
    have hagree := loadedTo_agree hapart hfirst hbefore
    obtain ⟨-, hzero⟩ := zeroSection_agree hagree hapart hfields.2.1 hfields.2.2.1
      (hinside n (Nat.lt_succ_self n) hbefore).place
    have hstart : (stepSection s.start l (loadedTo s.start l mem n) n).fStartAddress =
        startBehind l mem (l.sect n) (loadedTo s.start l mem n).fStartAddress := by
      rw [← startBehind_agree _ hzero hfields.1 hentry]
      simp only [stepSection, startBehind]
    rw [loadedTo_succ, hstart, ih hfirst hbefore, startBehind, ← ImageLayout.entryAddress]
    by_cases htext : IsText mem (l.sect n)
    · rw [if_pos htext, if_pos ⟨n, Nat.lt_succ_self n, htext⟩]
    · have hsome : (∃ k < n + 1, IsText mem (l.sect k)) ↔ ∃ k < n, IsText mem (l.sect k) := by
        constructor
        · rintro ⟨k, hk, hk'⟩
          rcases Nat.lt_succ_iff_lt_or_eq.mp hk with hlt | rfl
          · exact ⟨k, hlt, hk'⟩
          · exact absurd hk' htext
        · rintro ⟨k, hk, hk'⟩
          exact ⟨k, Nat.lt_succ_of_lt hk, hk'⟩
      simp only [if_neg htext, hsome]

theorem copied_memAt {n k : Nat} (hapart : l.pages.len ≠ 0 → l.pages.Disjoint s)
    (hinside : SectionsInside s env l mem n) (hnone : NoneStops s l mem n) (hk : k < n) :
    l.copied (memAt s.start l mem k) (l.sect k) = l.copied mem (l.sect k) := by
  have hbefore : NoneStops s l mem k := fun j hj => hnone j (by omega)
  have hsection := hinside k hk hbefore
  obtain ⟨-, haddr, hsize, -⟩ := hsection.fields
  have hagree := loadedTo_agree hapart (fun j hj => hinside j (by omega)) hbefore
  obtain ⟨-, hzero⟩ := zeroSection_agree hagree hapart haddr hsize hsection.place
  simp only [ImageLayout.copied, ImageLayout.target, sizeOfRawData, memAt, hzero.get (c := Codec.u32) haddr,
    hzero.get (c := Codec.u32) hsize]

end Image

section Constructor

variable {s : Span} {mem : Store} {env : BootEnv}

theorem HeadersInside.entry (hheaders : HeadersInside s env mem) (haccepted : Accepted env s.start mem) :
    s.Holds ((layoutOf env s.start mem).optHeader + 16) 4 := by
  have hmz := hheaders.2
  rw [if_pos haccepted.1] at hmz
  have hlen := hmz.2 haccepted.2.1
  refine .inr ⟨?_, ?_⟩
  · simp only [layoutOf]
    omega
  · simp only [layoutOf]
    omega

theorem wp_bootThread {post : LoadState → Prop} (h0 : s.start ≠ 0)
    (hfree : ∀ address n, env.allocatePages address n = true → (⟨address, efiPageSize * n⟩ : Span).Disjoint s) :
    Exec.wp (bootThread (.within s) env s.start mem) post ↔ HeadersInside s env mem ∧
      (¬ Accepted env s.start mem → post ⟨mem, 0⟩) ∧ (Accepted env s.start mem →
        let l := layoutOf env s.start mem
        SectionsInside s env l mem l.numSecs ∧
          (NoneStops s l mem l.numSecs → post (loadedTo s.start l mem l.numSecs))) := by
  unfold bootThread
  rw [Exec.wp_bind, wp_findLayout h0]
  apply and_congr_right
  intro hheaders
  by_cases haccepted : Accepted env s.start mem
  · have hapart : (layoutOf env s.start mem).pages.len ≠ 0 → (layoutOf env s.start mem).pages.Disjoint s :=
      pagesAt_apart (hfree _ _)
    rw [foundLayout, if_pos haccepted]
    simp only [haccepted, not_true_eq_false, false_implies, true_and, true_implies]
    exact wp_loadSections hapart (Nat.le_add_right _ _) (hheaders.entry haccepted)
  · rw [foundLayout, if_neg haccepted]
    simp [haccepted]

theorem entry_iff {l : ImageLayout} (hl : findLayout .anywhere env s.start mem = .ok (some l))
    (hapart : l.pages.len ≠ 0 → l.pages.Disjoint s) (hinside : SectionsInside s env l mem l.numSecs)
    (hnone : NoneStops s l mem l.numSecs) (hentry : s.Holds (l.optHeader + 16) 4) :
    ((loadedTo s.start l mem l.numSecs).isValid = true → ∃ l',
      findLayout .anywhere env s.start mem = .ok (some l') ∧ ∃ k < l'.numSecs,
        (loadedTo s.start l mem l.numSecs).fStartAddress ∈ l'.copied (memAt s.start l' mem k) (l'.sect k)) ↔
      EntryInside l mem := by
  have hcopied : (∃ k < l.numSecs, l.entryAddress mem ∈ l.copied (memAt s.start l mem k) (l.sect k)) ↔
      ∃ k < l.numSecs, l.entryAddress mem ∈ l.copied mem (l.sect k) := by
    apply exists_congr
    intro k
    apply and_congr_right
    intro hk
    rw [copied_memAt hapart hinside hnone hk]
  have hlayout : ∀ l', findLayout .anywhere env s.start mem = .ok (some l') ↔ l' = l := by
    intro l'
    rw [hl]
    simp [eq_comm]
  simp only [hlayout, exists_eq_left, LoadState.isValid, loadedTo_start hapart hinside hnone hentry,
    decide_eq_true_eq, EntryInside]
  by_cases htext : ∃ k < l.numSecs, IsText mem (l.sect k)
  · simp only [htext, if_true, hcopied, true_implies, ne_eq]
  · simp only [htext, if_false, ne_eq, not_true_eq_false, false_implies]

theorem contained_null (h0 : s.start = 0) : Contained env s mem := by
  have hlayout : ∀ acc, findLayout acc env s.start mem = .ok none := fun acc => if_pos h0
  have hthread : ∀ acc, bootThread acc env s.start mem = .ok ⟨mem, 0⟩ := by
    intro acc
    rw [bootThread, hlayout]
    rfl
  refine ⟨?_, ?_, ?_⟩
  · rw [hthread]
    exact .ok _
  · intro l hl
    rw [hlayout] at hl
    cases hl
  · intro t ht hvalid
    rw [hthread] at ht
    obtain rfl := Except.ok.inj ht
    cases hvalid

theorem contained_iff_wp (h0 : s.start ≠ 0) : Contained env s mem ↔
    Exec.wp (bootThread (.within s) env s.start mem) (fun t => t.isValid = true → ∃ l,
      findLayout .anywhere env s.start mem = .ok (some l) ∧ ∃ k < l.numSecs,
        t.fStartAddress ∈ l.copied (memAt s.start l mem k) (l.sect k)) ∧
    (Accepted env s.start mem → (layoutOf env s.start mem).pages.Holds
      (layoutOf env s.start mem).loadStartAddress (layoutOf env s.start mem).mSizeOfImage) := by
  rw [(bootThread_checked (.within s) mem env s.start).wp_iff]
  constructor
  · rintro ⟨htouches, hcovered, hentry⟩
    refine ⟨⟨htouches, hentry⟩, fun haccepted => hcovered _ ?_⟩
    rw [findLayout_anywhere h0, foundLayout, if_pos haccepted]
  · rintro ⟨⟨htouches, hentry⟩, hcovered⟩
    refine ⟨htouches, ?_, hentry⟩
    intro l hl
    rw [findLayout_anywhere h0] at hl
    obtain ⟨haccepted, rfl⟩ := foundLayout_eq_some.mp (Except.ok.inj hl)
    exact hcovered haccepted

/-- Exactly when the loader keeps to the blob and to its pages. The pages that the firmware gives are in no other
use. -/
theorem contained_iff (env : BootEnv) (s : Span) (mem : Store)
    (hfree : ∀ address n, env.allocatePages address n = true → (⟨address, efiPageSize * n⟩ : Span).Disjoint s) :
    Contained env s mem ↔ ImageFits env s mem := by
  by_cases h0 : s.start = 0
  · exact iff_of_true (contained_null h0) (.inl h0)
  · rw [contained_iff_wp h0, wp_bootThread h0 hfree, ImageFits, or_iff_right h0, and_assoc]
    apply and_congr_right
    intro hheaders
    by_cases haccepted : Accepted env s.start mem
    · have hlayout : findLayout .anywhere env s.start mem = .ok (some (layoutOf env s.start mem)) := by
        rw [findLayout_anywhere h0, foundLayout, if_pos haccepted]
      have hapart : (layoutOf env s.start mem).pages.len ≠ 0 → (layoutOf env s.start mem).pages.Disjoint s :=
        pagesAt_apart (hfree _ _)
      have hcovers : (layoutOf env s.start mem).pages.Holds (layoutOf env s.start mem).loadStartAddress
          (layoutOf env s.start mem).mSizeOfImage ↔ _ := pagesAt_covers
      simp only [haccepted, not_true_eq_false, false_implies, true_and, true_implies, hcovers]
      rw [and_comm]
      apply and_congr_right
      intro _
      apply and_congr_right
      intro hinside
      apply forall_congr'
      intro hnone
      exact entry_iff hlayout hapart hinside hnone (hheaders.entry haccepted)
    · simp [haccepted, LoadState.isValid]

end Constructor

/-- An image of 304 bytes at `0x100000` for the address `0x400000`: its last 16 bytes are the data of its only
section, `.text`, and it starts 8 bytes into it. -/
def textImage (mVirtualAddress mSizeOfRawData : UInt32) : Store :=
  let mem : Store := fun _ => 0
  let mem := mem.write 0x100000 [kMagMz0, kMagMz1]
  let mem := mem.put Codec.u32 0x100080 kPeSignature
  let mem := mem.put Codec.u16 0x100084 kPeMachineAMD64
  let mem := mem.put Codec.u16 0x100086 1
  let mem := mem.put Codec.u16 0x100094 96
  let mem := mem.put Codec.u32 0x1000A8 8
  let mem := mem.put Codec.u32 0x1000B4 0x400000
  let mem := mem.put Codec.u32 0x1000D0 0x1000
  let mem := mem.put Codec.u16 0x1000DC kZKASubsystem
  let mem := mem.write 0x1000F8 sectionForCode
  let mem := mem.put Codec.u32 0x100104 mVirtualAddress
  let mem := mem.put Codec.u32 0x100108 mSizeOfRawData
  mem.put Codec.u32 0x10010C 288

def textBlob : Span := ⟨0x100000, 304⟩

/-- Firmware whose free pages are those of `[0x400000, 0x800000)`. -/
def firmware : BootEnv :=
  ⟨.amd64, false, fun address n => address % efiPageSize = 0 ∧ 0x400000 ≤ address ∧
    address + efiPageSize * n ≤ 0x800000⟩

/-- With a quarter of the length of its data the image is loaded as it should be. -/
theorem contained_iff_text : Contained firmware textBlob (textImage 0 4) := by
  have hfree : ∀ address n, firmware.allocatePages address n = true →
      (⟨address, efiPageSize * n⟩ : Span).Disjoint textBlob := by
    intro address n hgiven
    have hlow := (of_decide_eq_true hgiven).2.1
    apply Span.Disjoint.symm
    apply Span.disjoint_of_le
    exact Nat.le_trans (by decide) hlow
  refine (contained_iff _ _ _ hfree).mpr (.inr ⟨?_, fun _ => ⟨?_, ?_, ?_⟩⟩)
  · refine ⟨by decide, ?_⟩
    rw [if_pos (by decide)]
    exact ⟨by decide, by decide⟩
  · exact .inr ⟨by decide, by decide⟩
  · rintro k hk -
    obtain rfl : k = 0 := Nat.lt_one_iff.mp hk
    exact ⟨by decide, by decide, fun hldr => absurd hldr (by decide), by decide, by decide⟩
  · intro _ _ _
    exact ⟨0, by decide, by decide⟩

/-- A section placed outside of the image is written there, and one that says how long its data is, is read past the
end of the blob. -/
theorem image_not_contained : ¬ Contained firmware textBlob (textImage 0x10000 4) ∧
    ¬ Contained firmware textBlob (textImage 0 16) := by
  constructor
  · intro h
    exact h.touches (by rfl)
  · intro h
    exact h.touches (by rfl)

end OpenNE

import OpenNE.Boot.BootThread

/-!
# The handover (`src/BootThread.cc`, `HalKernelMain.cc`)

The loader and the kernel test what they are handed with `!=` joined by `&&`, so each of them refuses only what is
wrong in both of two fields, and the architecture of a stub decides nothing (`handshake_iff`).
-/

namespace OpenNE

/-- What `hal_init_platform` reads of `HEL::BootInfoHeader`. -/
structure BootInfoHeader where
  f_Magic : UInt64
  f_Version : UInt64
  f_BitMapStart : UInt64
  f_BitMapSize : UInt64

/-- The globals that `hal_init_platform` sets. -/
structure Platform where
  kHandoverHeader : BootInfoHeader
  kKernelBitMpStart : UInt64
  kKernelBitMpSize : UInt64

/-- `hal_init_platform`, up to the bitmap, and whether it goes on. -/
def halInitPlatform (handoverHdr : BootInfoHeader) (platform : Platform) : Bool × Platform :=
  let platform := { platform with kHandoverHeader := handoverHdr }
  if platform.kHandoverHeader.f_Magic ≠ kHandoverMagic ∧ platform.kHandoverHeader.f_Version ≠ kHandoverVersion then
    (false, platform)
  else
    (true, { platform with
      kKernelBitMpSize := platform.kHandoverHeader.f_BitMapSize
      kKernelBitMpStart := platform.kHandoverHeader.f_BitMapStart })

/-! ### What should be refused -/

/-- The stub of a kernel of this architecture. -/
def HandoverStub.Right (arch : BuildArch) (s : HandoverStub) : Prop :=
  s.HandoverMagic = kHandoverMagic ∧ s.HandoverType = kTypeKernel ∧ s.HandoverArch = arch.handoverArch

instance (arch : BuildArch) (s : HandoverStub) : Decidable (s.Right arch) := inferInstanceAs (Decidable (_ ∧ _ ∧ _))

/-- The constructor does not stop. -/
def Returns (env : BootEnv) (fBlob : Nat) (mem : Store) : Prop := ∃ t, bootThread .anywhere env fBlob mem = .ok t

/-- Nor does `BootThread::Start`: the thread is valid. -/
def Startable (env : BootEnv) (fBlob : Nat) (mem : Store) : Prop :=
  ∃ t, bootThread .anywhere env fBlob mem = .ok t ∧ t.isValid = true

/-- Every `.ldr` section points to the stub of a kernel, when its turn comes. -/
def StubsRight (env : BootEnv) (fBlob : Nat) (l : ImageLayout) (mem : Store) : Prop :=
  ∀ k < l.numSecs, IsLdr (memAt fBlob l mem k) (l.sect k) →
    (stubAt fBlob (memAt fBlob l mem k) (l.sect k)).Right env.arch

/-- The last of the first `n` sections that counts as `.text`, if there is one, gives no start address. -/
def NoEntry (fBlob : Nat) (l : ImageLayout) (mem : Store) (n : Nat) : Prop :=
  ∀ k < n, IsText (memAt fBlob l mem k) (l.sect k) →
    (∀ j < n, k < j → ¬ IsText (memAt fBlob l mem j) (l.sect j)) →
      l.loadStartAddress + ((memAt fBlob l mem k).get Codec.u32 (l.optHeader + 16)).toNat = 0

/-- An image passes only with the right stubs. -/
def RefusesWrongStub (passes : BootEnv → Nat → Store → Prop) (env : BootEnv) (fBlob : Nat) (mem : Store) : Prop :=
  passes env fBlob mem → ∀ l, findLayout .anywhere env fBlob mem = .ok (some l) → StubsRight env fBlob l mem

/-- The kernel goes on only with the right header. -/
def RefusesWrongHeader (handoverHdr : BootInfoHeader) (platform : Platform) : Prop :=
  (halInitPlatform handoverHdr platform).1 = true →
    handoverHdr.f_Magic = kHandoverMagic ∧ handoverHdr.f_Version = kHandoverVersion

/-! ### What is refused -/

section Image

variable {env : BootEnv} {fBlob : Nat} {mem : Store} {l : ImageLayout}

theorem returns_iff (h : findLayout .anywhere env fBlob mem = .ok (some l)) :
    Returns env fBlob mem ↔ ¬ SomeStops fBlob l mem := by
  unfold Returns
  rw [bootThread_anywhere h]
  by_cases hstop : SomeStops fBlob l mem
  · simp [hstop]
  · simp [hstop]

theorem stepSection_start (fBlob : Nat) (l : ImageLayout) (mem : Store) (n : Nat) :
    (stepSection fBlob l (loadedTo fBlob l mem n) n).fStartAddress =
      startBehind l (memAt fBlob l mem n) (l.sect n) (loadedTo fBlob l mem n).fStartAddress := by
  unfold memAt
  simp only [stepSection, startBehind]

theorem noEntry_iff {n : Nat} : (loadedTo fBlob l mem n).fStartAddress = 0 ↔ NoEntry fBlob l mem n := by
  induction n with
  | zero => exact iff_of_true rfl fun k hk => absurd hk (Nat.not_lt_zero k)
  | succ n ih =>
    rw [loadedTo_succ, stepSection_start, startBehind]
    by_cases htext : IsText (memAt fBlob l mem n) (l.sect n)
    · rw [if_pos htext]
      constructor
      · intro hzero k hk htext' hlast
        rcases Nat.lt_succ_iff_lt_or_eq.mp hk with hlt | rfl
        · exact absurd htext (hlast n (Nat.lt_succ_self n) hlt)
        · exact hzero
      · intro hno
        exact hno n (Nat.lt_succ_self n) htext fun j hj hlt => absurd hlt (by omega)
    · rw [if_neg htext, ih]
      constructor
      · intro hno k hk htext' hlast
        rcases Nat.lt_succ_iff_lt_or_eq.mp hk with hlt | rfl
        · exact hno k hlt htext' fun j hj => hlast j (Nat.lt_succ_of_lt hj)
        · exact absurd htext' htext
      · intro hno k hk htext' hlast
        refine hno k (Nat.lt_succ_of_lt hk) htext' ?_
        intro j hj hlt
        rcases Nat.lt_succ_iff_lt_or_eq.mp hj with hlt' | rfl
        · exact hlast j hlt' hlt
        · exact htext

theorem startable_iff (h : findLayout .anywhere env fBlob mem = .ok (some l)) :
    Startable env fBlob mem ↔ ¬ SomeStops fBlob l mem ∧ ¬ NoEntry fBlob l mem l.numSecs := by
  unfold Startable
  rw [bootThread_anywhere h, ← noEntry_iff]
  by_cases hstop : SomeStops fBlob l mem
  · simp [hstop]
  · simp [hstop, LoadState.isValid]

theorem refusesWrongStub_iff {passes : BootEnv → Nat → Store → Prop} : RefusesWrongStub passes env fBlob mem ↔
    ∀ l, findLayout .anywhere env fBlob mem = .ok (some l) → StubsRight env fBlob l mem ∨ ¬ passes env fBlob mem := by
  constructor
  · intro hlaw l hl
    by_cases hpass : passes env fBlob mem
    · exact .inl (hlaw hpass l hl)
    · exact .inr hpass
  · intro hcond hpass l hl
    exact (hcond l hl).resolve_right (not_not.mpr hpass)

theorem refusesWrongStub_returns : RefusesWrongStub Returns env fBlob mem ↔
    ∀ l, findLayout .anywhere env fBlob mem = .ok (some l) → StubsRight env fBlob l mem ∨ SomeStops fBlob l mem := by
  rw [refusesWrongStub_iff]
  apply forall_congr'
  intro l
  apply forall_congr'
  intro hl
  rw [returns_iff hl, not_not]

theorem refusesWrongStub_startable : RefusesWrongStub Startable env fBlob mem ↔
    ∀ l, findLayout .anywhere env fBlob mem = .ok (some l) →
      StubsRight env fBlob l mem ∨ SomeStops fBlob l mem ∨ NoEntry fBlob l mem l.numSecs := by
  rw [refusesWrongStub_iff]
  apply forall_congr'
  intro l
  apply forall_congr'
  intro hl
  rw [startable_iff hl, not_and_or, not_not, not_not]

end Image

theorem refusesWrongHeader_iff {handoverHdr : BootInfoHeader} {platform : Platform} :
    RefusesWrongHeader handoverHdr platform ↔
      (handoverHdr.f_Magic = kHandoverMagic ↔ handoverHdr.f_Version = kHandoverVersion) := by
  unfold RefusesWrongHeader halInitPlatform
  dsimp only
  by_cases hmagic : handoverHdr.f_Magic = kHandoverMagic
  · by_cases hversion : handoverHdr.f_Version = kHandoverVersion
    · simp [hmagic, hversion]
    · simp [hmagic, hversion]
  · by_cases hversion : handoverHdr.f_Version = kHandoverVersion
    · simp [hmagic, hversion]
    · simp [hmagic, hversion]

/-- Exactly when the two checks refuse what they should. -/
theorem handshake_iff (env : BootEnv) (fBlob : Nat) (mem : Store) (handoverHdr : BootInfoHeader)
    (platform : Platform) :
    (RefusesWrongStub Returns env fBlob mem ↔ ∀ l, findLayout .anywhere env fBlob mem = .ok (some l) →
      StubsRight env fBlob l mem ∨ SomeStops fBlob l mem) ∧
    (RefusesWrongStub Startable env fBlob mem ↔ ∀ l, findLayout .anywhere env fBlob mem = .ok (some l) →
      StubsRight env fBlob l mem ∨ SomeStops fBlob l mem ∨ NoEntry fBlob l mem l.numSecs) ∧
    (RefusesWrongHeader handoverHdr platform ↔
      (handoverHdr.f_Magic = kHandoverMagic ↔ handoverHdr.f_Version = kHandoverVersion)) :=
  ⟨refusesWrongStub_returns, refusesWrongStub_startable, refusesWrongHeader_iff⟩

/-- An image at `0x100000` for the address `0x400000`: two sections without data, `.text` and `.ldr`, and a stub. -/
def stubImage (stub : HandoverStub) : Store :=
  let mem : Store := fun _ => 0
  let mem := mem.write 0x100000 [kMagMz0, kMagMz1]
  let mem := mem.put Codec.u32 0x100080 kPeSignature
  let mem := mem.put Codec.u16 0x100084 kPeMachineAMD64
  let mem := mem.put Codec.u16 0x100086 2
  let mem := mem.put Codec.u16 0x100094 96
  let mem := mem.put Codec.u32 0x1000B4 0x400000
  let mem := mem.put Codec.u32 0x1000D0 0x1000
  let mem := mem.put Codec.u16 0x1000DC kZKASubsystem
  let mem := mem.write 0x1000F8 sectionForCode
  let mem := mem.write 0x100120 sectionForNewLdr
  let mem := mem.put Codec.u32 0x100134 328
  let mem := mem.put Codec.u64 0x100148 stub.HandoverMagic
  let mem := mem.put Codec.u32 0x100150 stub.HandoverType
  mem.put Codec.u32 0x100158 stub.HandoverArch

def stubLayout : ImageLayout := ⟨0x400000, 0x1000, ⟨0x400000, 0x8000⟩, 0x100098, 0x1000F8, 2⟩

def bootEnv : BootEnv := ⟨.amd64, false, fun _ _ => true⟩

/-- The stub of a driver for another architecture: only its magic is right. -/
def driverStub : HandoverStub := ⟨kHandoverMagic, 101, kArchARM64⟩

theorem stubImage_layout : findLayout .anywhere bootEnv 0x100000 (stubImage driverStub) = .ok (some stubLayout) := by
  rfl

/-- It is started, and the kernel goes on with a header of another version. -/
theorem wrong_handover_accepted : ¬ RefusesWrongStub Returns bootEnv 0x100000 (stubImage driverStub) ∧
    ¬ RefusesWrongStub Startable bootEnv 0x100000 (stubImage driverStub) ∧
    ¬ RefusesWrongHeader ⟨kHandoverMagic, 0, 0, 0⟩ ⟨⟨0, 0, 0, 0⟩, 0, 0⟩ := by
  have hwrong : ¬ StubsRight bootEnv 0x100000 stubLayout (stubImage driverStub) := by
    intro hright
    have hstub := hright 1 (by decide) (by decide)
    exact absurd hstub (by decide)
  have hnostop : ¬ SomeStops 0x100000 stubLayout (stubImage driverStub) := by decide
  refine ⟨?_, ?_, ?_⟩
  · rw [refusesWrongStub_returns]
    intro hcond
    rcases hcond stubLayout stubImage_layout with hright | hstop
    · exact hwrong hright
    · exact hnostop hstop
  · rw [refusesWrongStub_startable]
    intro hcond
    rcases hcond stubLayout stubImage_layout with hright | hstop | hnull
    · exact hwrong hright
    · exact hnostop hstop
    · exact absurd (noEntry_iff.mpr hnull) (by decide)
  · rw [refusesWrongHeader_iff]
    decide

end OpenNE

import OpenNE.Process.UserProcess

/-!
# Dynamic libraries (`KernelKit/IPEFDylibObject.h`, `src/IPEFDylibObject.cc`)

`rtl_init_dylib` mounts traits whose image it has not set yet, and `Mount` refuses traits without an image: nothing is
mounted then, and the process is crashed. `rtl_fini_dylib` reports success whenever it returns (`rtlFiniDylib_eq_ok`):
the panic of `UserProcess::Exit` is out of reach, and a null delegate is read through instead.
-/

namespace OpenNE

/-! ### The words of an `IPEFDylibObject`, behind its table of functions, and of its traits -/

def dylibMounted : Nat := 1
def dylibLoader : Nat := 2
def imageObject : Nat := 0
def imageEntrypointOffset : Nat := 1

def System.setWord (sys : System) (p : UInt64) (i : Nat) (v : UInt64) : System :=
  { sys with kernel := sys.kernel.setWord p i v }

/-! ### The library functions -/

/-- What is left to the rest of the kernel. -/
structure DylibEnv extends HeapEnv where
  /-- `tls_new_ptr<IPEFDylibObject>()` -/
  tlsNewPtr : System → Exec (UInt64 × System)
  /-- `tls_delete_ptr(obj)` -/
  tlsDeletePtr : UInt64 → System → Exec (Bool × System)
  /-- `thread.Crash()` -/
  crash : UserProcess → System → Exec (UserProcess × System)
  /-- `new PEFLoader(blob)` -/
  newLoader : UInt64 → System → Exec (UInt64 × System)
  /-- `delete fLoader` -/
  deleteLoader : UInt64 → System → Exec System
  /-- The block allocated next leaves the object of `tls_new_ptr` as `*obj = T()` left it. -/
  tls_apart : ∀ {debug : Bool} {sys sys₁ : System} {obj traits : UInt64} {k : Kernel}, tlsNewPtr sys = .ok (obj, sys₁) →
    obj ≠ 0 → ((sys₁.setWord obj dylibMounted 0).setWord obj dylibLoader 0).kernel.newObject toHeapEnv debug 16 2 =
      .ok (traits, k) → k.word obj dylibMounted = 0

/-- `IPEFDylibObject::Mount`. -/
def mountDylib (env : DylibEnv) (obj toMount : UInt64) (sys : System) : Exec System := do
  if toMount = 0 ∨ sys.kernel.word toMount imageObject = 0 then return sys
  let sys := sys.setWord obj dylibMounted toMount
  let sys ← if sys.kernel.word obj dylibLoader ≠ 0 ∧ toMount ≠ 0 then do
      let sys ← env.deleteLoader (sys.kernel.word obj dylibLoader) sys
      pure (sys.setWord obj dylibLoader 0)
    else pure sys
  if sys.kernel.word obj dylibLoader = 0 then
    let (loader, sys) ← env.newLoader (sys.kernel.word toMount imageObject) sys
    return sys.setWord obj dylibLoader loader
  else return sys

/-- `rtl_init_dylib`. -/
def rtlInitDylib (env : DylibEnv) (debug : Bool) (thread : UserProcess) (sys : System) :
    Exec (UInt64 × UserProcess × System) := do
  let (obj, sys) ← env.tlsNewPtr sys
  if obj = 0 then
    let (thread, sys) ← env.crash thread sys
    return (0, thread, sys)
  -- `*obj = T()`
  let sys := (sys.setWord obj dylibMounted 0).setWord obj dylibLoader 0
  let (traits, k) ← sys.kernel.newObject env.toHeapEnv debug 16 2
  let sys ← mountDylib env obj traits { sys with kernel := k }
  if sys.kernel.word obj dylibMounted = 0 then
    let (_, sys) ← env.tlsDeletePtr obj sys
    let (thread, sys) ← env.crash thread sys
    return (0, thread, sys)
  let sys := sys.setWord (sys.kernel.word obj dylibMounted) imageObject thread.image.fBlob
  if sys.kernel.word (sys.kernel.word obj dylibMounted) imageObject = 0 then
    let (_, sys) ← env.tlsDeletePtr obj sys
    let (thread, sys) ← env.crash thread sys
    return (0, thread, sys)
  -- `rt_string_len(kPefStart, 0)` is 0, and `Load` gives null for a name of that length
  let sys := sys.setWord (sys.kernel.word obj dylibMounted) imageEntrypointOffset 0
  return (obj, thread, sys)

/-- `rtl_fini_dylib`. -/
def rtlFiniDylib (env : DylibEnv) (thread : UserProcess) (sys : System) : Exec (Bool × UserProcess × System) := do
  let obj := thread.dylibDelegate
  let (thread, sys) ← if obj = 0 then env.crash thread sys else pure (thread, sys)
  -- the null object is read all the same
  if obj = 0 then throw .fault
  let mounted := sys.kernel.word obj dylibMounted
  let k := if mounted = 0 then sys.kernel else (mmDeleteHeap mounted sys.kernel).2
  return (true, thread, { sys with kernel := (mmDeleteHeap obj k).2 })

/-- The two functions, as `Spawn` and `Exit` call them. -/
def DylibEnv.processEnv (env : DylibEnv) (debug : Bool) : ProcessEnv :=
  { env.toHeapEnv with
    rtlInitDylib := rtlInitDylib env debug
    rtlFiniDylib := rtlFiniDylib env }

section Dylib

variable {env : DylibEnv} {debug success : Bool} {thread thread' : UserProcess} {sys sys' : System}
  {obj traits p : UInt64}

theorem mountDylib_refused (h : sys.kernel.word traits imageObject = 0) :
    mountDylib env obj traits sys = .ok sys := by
  rw [mountDylib, if_pos (Or.inr h)]
  rfl

theorem rtlInitDylib_eq_ok (h : rtlInitDylib env debug thread sys = .ok (p, thread', sys')) :
    p = 0 ∧ ∃ sys₁ sys₂, env.crash thread sys₁ = .ok (thread', sys₂) := by
  obtain ⟨⟨obj, sys₁⟩, htls, h⟩ := Exec.bind_eq_ok.mp h
  dsimp only at h
  by_cases hobj : obj = 0
  · rw [if_pos hobj] at h
    obtain ⟨⟨thread₁, sys₂⟩, hcrash, h⟩ := Exec.bind_eq_ok.mp h
    obtain ⟨rfl, rfl, rfl⟩ := by simpa only [Prod.mk.injEq] using Except.ok.inj h
    exact ⟨rfl, _, _, hcrash⟩
  rw [if_neg hobj] at h
  obtain ⟨⟨traits, k₁⟩, hnew, h⟩ := Exec.bind_eq_ok.mp h
  have hmounted : k₁.word obj dylibMounted = 0 := env.tls_apart htls hobj hnew
  dsimp only at h
  rw [mountDylib_refused (Kernel.newObject_word hnew (by decide)), Exec.ok_bind, if_pos hmounted] at h
  obtain ⟨⟨deleted, sys₂⟩, -, h⟩ := Exec.bind_eq_ok.mp h
  obtain ⟨⟨thread₁, sys₃⟩, hcrash, h⟩ := Exec.bind_eq_ok.mp h
  obtain ⟨rfl, rfl, rfl⟩ := by simpa only [Prod.mk.injEq] using Except.ok.inj h
  exact ⟨rfl, _, _, hcrash⟩

theorem rtlFiniDylib_delegate (h : thread.dylibDelegate ≠ 0) :
    rtlFiniDylib env thread sys = .ok (true, thread, { sys with kernel := (mmDeleteHeap thread.dylibDelegate
      (if sys.kernel.word thread.dylibDelegate dylibMounted = 0 then sys.kernel
      else (mmDeleteHeap (sys.kernel.word thread.dylibDelegate dylibMounted) sys.kernel).2)).2 }) := by
  simp only [rtlFiniDylib, if_neg h, Exec.pure_eq_ok, Exec.ok_bind]

theorem rtlFiniDylib_eq_ok (h : rtlFiniDylib env thread sys = .ok (success, thread', sys')) :
    thread.dylibDelegate ≠ 0 ∧ success = true ∧ thread' = thread := by
  by_cases hobj : thread.dylibDelegate = 0
  · simp only [rtlFiniDylib, hobj, if_true] at h
    obtain ⟨_, -, h⟩ := Exec.bind_eq_ok.mp h
    cases h
  · rw [rtlFiniDylib_delegate hobj] at h
    exact ⟨hobj, (congrArg Prod.fst (Except.ok.inj h)).symm, (congrArg (·.2.1) (Except.ok.inj h)).symm⟩

end Dylib

end OpenNE

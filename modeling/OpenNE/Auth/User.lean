import OpenNE.Base.CString
import OpenNE.Base.Codec

/-!
# Users (`KernelKit/User.h`, `src/User.cc`)

A user has a ring, a name and the token of a password. `cred_construct_token` returns zero when it has built the
token; its two callers take zero for the failure. So `Save` stores nothing (`User.save_refused`) and `Matches`
finds no password right (`User.matchesPassword_refused`).
-/

namespace OpenNE

def kStdUserType : UInt8 := 0xCE
def kSuperUserType : UInt8 := 0xEC

def kMaxUserNameLen : Nat := 255
def kMaxUserTokenLen : Nat := 255

/-- `UserRingKind`: any number may be cast to one. -/
abbrev UserRingKind := Int32

def kRingStdUser : UserRingKind := 1

structure User where
  mUserRing : UserRingKind
  mUserName : Bytes kMaxUserNameLen
  mUserKey : Bytes kMaxUserTokenLen

namespace User

/-- `User::IsStdUser`. -/
def isStdUser (user : User) : Bool := user.mUserRing = kRingStdUser

/-- What a character of the password is combined with. -/
def tokenType (user : User) : UInt8 := if user.isStdUser then kStdUserType else kSuperUserType

end User

/-- The loop of `cred_construct_token`: at most `length` characters, up to the end of `inPassword`. -/
def credTokenLoop (tokenType : UInt8) : Nat → List UInt8 → List UInt8 → List UInt8
  | length + 1, chr :: password, curChr :: inPassword =>
    if curChr = 0 then chr :: password
    else (curChr ||| tokenType) :: credTokenLoop tokenType length password inPassword
  | _, password, _ => password

/-- `cred_construct_token`: what it returns and leaves in `password`; `none` is the null pointer. -/
def credConstructToken (password : Option (List UInt8)) (inPassword : List UInt8) (user : Option User)
    (length : Nat) : Int32 × Option (List UInt8) :=
  match password, user with
  | some password, some user => (0, some (credTokenLoop user.tokenType length password inPassword))
  | password, _ => (1, password)

namespace User

/-- The buffer both calls start with, `fresh` being what `new Char[len]` gave: a copy of the password. -/
def passwordBuffer (debug : Bool) (fresh : Option (List UInt8)) (passwordToFill : CString) : Exec (List UInt8) := do
  mustPass debug fresh.isSome
  match fresh with
  | none => .error .fault
  | some password => return rtCopyMemory passwordToFill.1 password passwordToFill.length

/-- `rt_copy_memory` into `mUserKey`. -/
def setUserKey (password : List UInt8) (len : Nat) (user : User) : Exec User :=
  if h : len < kMaxUserTokenLen ∧ len ≤ password.length then
    .ok { user with mUserKey := ⟨rtCopyMemory password user.mUserKey.1 len, by
      simp [rtCopyMemory, user.mUserKey.2]; omega⟩ }
  else .error .fault

/-- `User::Save`. -/
def save (debug : Bool) (fresh : Option (List UInt8)) (passwordToFill : Option CString) (user : User) :
    Exec (Bool × User) :=
  match passwordToFill with
  | none => .ok (false, user)
  | some passwordToFill =>
    if passwordToFill.1 = [] then .ok (false, user)
    else do
      let len := passwordToFill.length
      let password ← passwordBuffer debug fresh passwordToFill
      let (ret, password) := credConstructToken (some password) passwordToFill.1 (some user) len
      -- `!cred_construct_token(...)`
      if ret = 0 then return (false, user)
      return (true, ← user.setUserKey (password.getD []) len)

/-- `User::Matches`. -/
def matchesPassword (debug : Bool) (fresh : Option (List UInt8)) (passwordToFill : Option CString) (user : User) :
    Exec Bool :=
  match passwordToFill with
  | none => .ok false
  | some passwordToFill =>
    -- `*password_to_fill`, where `Save` tests `*password_to_fill == 0`
    if passwordToFill.1 ≠ [] then .ok false
    else do
      let len := passwordToFill.length
      let password ← passwordBuffer debug fresh passwordToFill
      let (ret, password) := credConstructToken (some password) passwordToFill.1 (some user) len
      if ret = 0 then return false
      let userKey ← cString user.mUserKey.1
      return rtStringCmp (password.getD []) user.mUserKey.1 userKey.length = 0

/-! ### What they return -/

theorem credTokenLoop_eq (tokenType : UInt8) (inPassword : CString) (rest : List UInt8) :
    credTokenLoop tokenType inPassword.length (inPassword.1 ++ rest) inPassword.1 =
      inPassword.1.map (· ||| tokenType) ++ rest := by
  obtain ⟨bs, hzero⟩ := inPassword
  show credTokenLoop tokenType bs.length (bs ++ rest) bs = bs.map (· ||| tokenType) ++ rest
  induction bs with
  | nil => cases rest <;> rfl
  | cons curChr bs ih =>
    have hne : curChr ≠ 0 := by
      rintro rfl
      exact hzero List.mem_cons_self
    simp only [List.length_cons, List.cons_append, credTokenLoop, List.map_cons, if_neg hne]
    rw [ih fun hmem => hzero (List.mem_cons_of_mem _ hmem)]

theorem passwordBuffer_some (debug : Bool) (buffer : List UInt8) (p : CString) :
    passwordBuffer debug (some buffer) p = .ok (p.1 ++ 0 :: buffer.drop (p.length + 1)) := by
  have hall : p.1.take p.length = p.1 := List.take_length
  cases debug <;> simp [passwordBuffer, mustPass, rtCopyMemory, hall]

theorem credConstructToken_buffer (user : User) (p : CString) (rest : List UInt8) :
    credConstructToken (some (p.1 ++ rest)) p.1 (some user) p.length =
      (0, some (p.1.map (· ||| user.tokenType) ++ rest)) := by
  rw [credConstructToken, credTokenLoop_eq]

variable {debug : Bool} {p : CString} {user : User}

theorem save_refused (hne : p.1 ≠ []) (buffer : List UInt8) :
    user.save debug (some buffer) (some p) = .ok (false, user) := by
  simp only [save, if_neg hne, passwordBuffer_some, Exec.ok_bind, credConstructToken_buffer, if_true]
  rfl

theorem matchesPassword_refused (fresh : Option (List UInt8)) (passwordToFill : Option CString) :
    user.matchesPassword debug fresh passwordToFill ≠ .ok true := by
  rcases passwordToFill with _ | p
  · intro h
    cases h
  unfold matchesPassword
  dsimp only
  by_cases hp : p.1 ≠ []
  · rw [if_pos hp]
    intro h
    cases h
  · rw [if_neg hp]
    rcases fresh with _ | buffer
    · cases debug <;> rintro ⟨⟩
    · rw [passwordBuffer_some, Exec.ok_bind, credConstructToken_buffer]
      intro h
      cases h

/-- The contract of the two calls for the password `p`: it is saved, and from then on it is the one that
matches. -/
def Authenticates (debug : Bool) (user : User) (p : CString) : Prop :=
  ∃ buffer user', user.save debug (some buffer) (some p) = .ok (true, user') ∧
    ∀ q : CString, ∃ buffer', user'.matchesPassword debug (some buffer') (some q) = .ok (decide (q = p))

/-- No password that is not empty is saved, none matches after the attempt, and none matched before. -/
theorem password_never_kept (debug : Bool) (user : User) (hne : p.1 ≠ []) :
    (∀ buffer, user.save debug (some buffer) (some p) = .ok (false, user)) ∧
      (∀ fresh q, user.matchesPassword debug fresh (some q) ≠ .ok true) ∧ ¬ user.Authenticates debug p := by
  refine ⟨?_, ?_, ?_⟩
  · exact save_refused hne
  · intro fresh q
    exact matchesPassword_refused fresh (some q)
  · rintro ⟨buffer, user', hsave, -⟩
    rw [save_refused hne] at hsave
    cases hsave

end User

/-- A standard user without a password, and the password `a`. -/
def stdUser : User := ⟨kRingStdUser, Bytes.zeros _, Bytes.zeros _⟩
def passwordA : CString := letterA

theorem password_never_kept_a :
    (∀ buffer, stdUser.save true (some buffer) (some passwordA) = .ok (false, stdUser)) ∧
      (∀ fresh q, stdUser.matchesPassword true fresh (some q) ≠ .ok true) ∧ ¬ stdUser.Authenticates true passwordA :=
  User.password_never_kept true stdUser (by decide)

/-- The password `a` is neither saved nor matched. -/
theorem password_a_refused :
    stdUser.save true (some [0]) (some passwordA) = .ok (false, stdUser) ∧
      stdUser.matchesPassword true (some [0]) (some passwordA) = .ok false :=
  ⟨User.save_refused (by decide) [0], rfl⟩

end OpenNE

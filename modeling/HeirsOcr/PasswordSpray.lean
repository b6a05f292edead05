import HeirsOcr.CodeGuessing

/-!
# Failed logins from one address

A failed login raises the counter of its address, and no password is compared for an address
whose counter has reached the limit. A login that succeeds clears the counter of its address as
well as that of its e-mail. So the limit holds between two logins from the address, and an account
of one's own lifts it.
-/
namespace HeirsOcr.PasswordSpray
open StepMachine
open Login (Bucket Counters LoginState LoginReply LoginUser Surface MAX_PER_IP emailKey ipKey bump
  getUserByEmail loginAllowed recordLoginFailure clearLoginFailures)

/-- The login with, for each address, the failed comparisons of the current window: all of them,
and those since a login from it last succeeded; and whether one has since got past its password to
be asked for a code. -/
structure Spray where
  login : LoginState
  inWindow : Counters
  sinceLogin : Counters
  halfway : Bucket → Bool

section Model

variable (surface : Surface)

/-- `POST /login` answers `401` to a password that is not the account's; to an e-mail without an
account too, which is no comparison. -/
def noteInWindow (s : Spray) : Login.Action → Counters
  | .login ip email password token =>
    match (Login.login surface s.login ip email password token).2 with
    | .ok _ => s.inWindow
    | .error e =>
      if e.status = 401 ∧ (getUserByEmail s.login.users email).isSome then
        bump s.inWindow (ipKey surface.scope ip)
      else s.inWindow
  | .windowEnds key => Function.update s.inWindow key 0
  | .loginMfa .. | .challengeExpires _ | .usersChange _ => s.inWindow

/-- Every `401` of `POST /login`, from the last login on. -/
def noteSinceLogin (s : Spray) : Login.Action → Counters
  | .login ip email password token =>
    match (Login.login surface s.login ip email password token).2 with
    | .ok (.session _) => Function.update s.sinceLogin (ipKey surface.scope ip) 0
    | .ok (.mfaRequired _) => s.sinceLogin
    | .error e =>
      if e.status = 401 then bump s.sinceLogin (ipKey surface.scope ip) else s.sinceLogin
  | .loginMfa ip token code at' =>
    match (Login.loginMfa surface s.login ip token code at').2 with
    | .ok _ => Function.update s.sinceLogin (ipKey surface.scope ip) 0
    | .error _ => s.sinceLogin
  | .windowEnds key => Function.update s.sinceLogin key 0
  | .challengeExpires _ | .usersChange _ => s.sinceLogin

def noteHalfway (s : Spray) : Login.Action → Bucket → Bool
  | .login ip email password token =>
    match (Login.login surface s.login ip email password token).2 with
    | .ok (.session _) => Function.update s.halfway (ipKey surface.scope ip) false
    | .ok (.mfaRequired _) => Function.update s.halfway (ipKey surface.scope ip) true
    | .error _ => s.halfway
  | .loginMfa ip token code at' =>
    match (Login.loginMfa surface s.login ip token code at').2 with
    | .ok _ => Function.update s.halfway (ipKey surface.scope ip) false
    | .error _ => s.halfway
  | .windowEnds key => Function.update s.halfway key false
  | .challengeExpires _ | .usersChange _ => s.halfway

def step (s : Spray) (a : Login.Action) : Option Spray :=
  (Login.step surface s.login a).map fun t =>
    ⟨t, noteInWindow surface s a, noteSinceLogin surface s a, noteHalfway surface s a⟩

/-- At most `MAX_PER_IP` failed comparisons from an address, and then its logins are refused for
every account. -/
def BoundedAt (failed : Counters) (s : Spray) (ip : String) : Prop :=
  failed (ipKey surface.scope ip) ≤ MAX_PER_IP ∧
    (failed (ipKey surface.scope ip) = MAX_PER_IP →
      ∀ email, loginAllowed s.login.fails surface.scope ip email = false)

def BoundedBy (failed : Counters) (s : Spray) : Prop := ∀ ip, BoundedAt surface failed s ip

/-- The invariant: what failed since the last login is on record, and within the limit. -/
def Recorded (s : Spray) : Prop :=
  ∀ ip, s.halfway (ipKey surface.scope ip) = false →
    s.sinceLogin (ipKey surface.scope ip) ≤ s.login.fails (ipKey surface.scope ip) ∧
      s.sinceLogin (ipKey surface.scope ip) ≤ MAX_PER_IP

end Model

section Counters

variable (fails : Counters) (scope ip email i : String)

theorem recordLoginFailure_ip :
    recordLoginFailure fails scope ip email (ipKey scope i) =
      fails (ipKey scope i) + if ipKey scope i = ipKey scope ip then 1 else 0 := by
  have hne : ipKey scope i ≠ emailKey scope email := by simp [emailKey, ipKey]
  by_cases hi : ipKey scope i = ipKey scope ip
  · rw [recordLoginFailure, bump, Function.update_of_ne hne, bump, hi, Function.update_self,
      if_pos rfl]
  · rw [recordLoginFailure, bump, Function.update_of_ne hne, bump, Function.update_of_ne hi,
      if_neg hi, Nat.add_zero]

theorem clearLoginFailures_ip :
    clearLoginFailures fails scope ip email (ipKey scope i) =
      if ipKey scope i = ipKey scope ip then 0 else fails (ipKey scope i) := by
  have hne : ipKey scope i ≠ emailKey scope email := by simp [emailKey, ipKey]
  by_cases hi : ipKey scope i = ipKey scope ip
  · rw [clearLoginFailures, Function.update_of_ne hne, hi, Function.update_self, if_pos rfl]
  · rw [clearLoginFailures, Function.update_of_ne hne, Function.update_of_ne hi, if_neg hi]

end Counters

variable {surface : Surface} {s t : Spray}

/-- An allowed attempt is below the limit of its address. -/
theorem below_limit {fails : Counters} {ip email : String}
    (h : loginAllowed fails surface.scope ip email) :
    fails (ipKey surface.scope ip) < MAX_PER_IP := by
  simp only [loginAllowed, Bool.and_eq_true, decide_eq_true_eq] at h
  exact h.1

/-- The step lemma. -/
theorem recorded_step {a : Login.Action} (hs : Recorded surface s)
    (h : step surface s a = some t) : Recorded surface t := by
  obtain ⟨ℓ, hlogin, rfl⟩ := Option.map_eq_some_iff.mp h
  intro i hhalfway
  cases a with
  | login ip email password token =>
    obtain ⟨u, reply, hdone⟩ : ∃ u reply, Login.login surface s.login ip email password token =
      (u, reply) := ⟨_, _, rfl⟩
    simp only [Login.step, hdone, Option.some.injEq] at hlogin
    subst hlogin
    simp only [noteHalfway, hdone] at hhalfway
    simp only [noteSinceLogin, hdone]
    rcases Login.login_reply surface hdone with
      ⟨hfails, e, rfl, hstatus⟩ | ⟨hallowed, hfails, e, rfl, hstatus⟩ | ⟨hfails, -, reply, rfl⟩
    · rw [hfails]
      simpa only [if_neg hstatus] using hs i hhalfway
    · simp only [hfails, if_pos hstatus, recordLoginFailure_ip, Login.bump_apply]
      have hi := hs i hhalfway
      split_ifs with hkey
      · have hlimit := below_limit hallowed
        rw [← hkey] at hlimit
        omega
      · exact hi
    · rw [hfails, clearLoginFailures_ip]
      by_cases hkey : ipKey surface.scope i = ipKey surface.scope ip
      · cases reply with
        | mfaRequired challenge => simp [hkey] at hhalfway
        | session userId => simp [hkey]
      · rw [if_neg hkey]
        cases reply with
        | mfaRequired challenge => exact hs i (by simpa [Function.update_of_ne hkey] using hhalfway)
        | session userId =>
          simp only [Function.update_of_ne hkey] at hhalfway ⊢
          exact hs i hhalfway
  | loginMfa ip token code at' =>
    obtain ⟨u, reply, hdone⟩ : ∃ u reply, Login.loginMfa surface s.login ip token code at' =
      (u, reply) := ⟨_, _, rfl⟩
    simp only [Login.step, hdone, Option.some.injEq] at hlogin
    subst hlogin
    simp only [noteHalfway, hdone] at hhalfway
    simp only [noteSinceLogin, hdone]
    rcases Login.loginMfa_reply surface hdone with
      ⟨hfails | ⟨email, hfails⟩, e, rfl⟩ | ⟨email, hfails, r, rfl⟩
    · rw [hfails]
      exact hs i hhalfway
    · have hi := hs i hhalfway
      simp only [hfails, recordLoginFailure_ip]
      omega
    · rw [hfails, clearLoginFailures_ip]
      split_ifs with hkey
      · simp [hkey]
      · simp only [Function.update_of_ne hkey] at hhalfway ⊢
        exact hs i hhalfway
  | windowEnds key =>
    obtain rfl := Option.some.inj hlogin
    by_cases hkey : ipKey surface.scope i = key
    · simp [noteSinceLogin, hkey]
    · simp only [noteHalfway, noteSinceLogin, Function.update_of_ne hkey] at hhalfway ⊢
      exact hs i hhalfway
  | challengeExpires token =>
    obtain rfl := Option.some.inj hlogin
    exact hs i hhalfway
  | usersChange users =>
    obtain rfl := Option.some.inj hlogin
    exact hs i hhalfway

theorem bounded_of_recorded (hs : Recorded surface s) {ip : String}
    (hhalfway : s.halfway (ipKey surface.scope ip) = false) :
    BoundedAt surface s.sinceLogin s ip := by
  obtain ⟨hfails, hlimit⟩ := hs ip hhalfway
  refine ⟨hlimit, fun hfull email => ?_⟩
  rw [hfull] at hfails
  simp only [loginAllowed, Bool.and_eq_false_iff, decide_eq_false_iff_not]
  exact .inl (by omega)

/-- In every run of logins, second factors, ends of windows and changes of accounts, at most
`MAX_PER_IP` password comparisons fail for an address in a window, counted from the last login
from it, and then the address is refused; unless a login from it got past its password since and
stopped there. -/
theorem spray_bounded_between_logins (surface : Surface) (ℓ : LoginState)
    (as : List Login.Action) :
    Throughout (step surface) (fun s => ∀ ip, s.halfway (ipKey surface.scope ip) = false →
      BoundedAt surface s.sinceLogin s ip) ⟨ℓ, fun _ => 0, fun _ => 0, fun _ => false⟩ as :=
  (throughout_of_step (fun _ _ _ hI h => recorded_step hI h)
    (fun _ _ => ⟨Nat.zero_le _, Nat.zero_le _⟩) as).mono fun _ hI _ => bounded_of_recorded hI

def account (id passwordHash : String) : LoginUser :=
  ⟨id, id ++ "@x", false, passwordHash, ⟨none, false, none, none⟩⟩

/-- Four accounts, and one of the person at the address. -/
def fiveAccounts : LoginState where
  users := ⟨[account "a" "h", account "b" "h", account "c" "h", account "d" "h",
    account "e" "hash of hunter22"], by decide⟩
  fails := fun _ => 0
  challenges := fun _ => none
  sessions := []
  wrongCodes := fun _ => 0

def wrongLogin (email : String) : Login.Action := .login "192.0.2.7" email "x" "t"

/-- Twenty-nine wrong passwords for three accounts, one's own password, and two wrong ones. -/
def sprayed : List Login.Action :=
  List.replicate 10 (wrongLogin "a@x") ++ List.replicate 10 (wrongLogin "b@x") ++
    List.replicate 9 (wrongLogin "c@x") ++ [.login "192.0.2.7" "e@x" "hunter22" "t"] ++
    List.replicate 2 (wrongLogin "d@x")

/-- Thirty-one failed comparisons from one address in one window. -/
theorem spray_unbounded :
    ¬Throughout (step Login.portal) (fun s => BoundedBy Login.portal s.inWindow s)
      ⟨fiveAccounts, fun _ => 0, fun _ => 0, fun _ => false⟩ sprayed := by
  intro h
  have hone : Throughout (step Login.portal)
      (fun s => s.inWindow (ipKey "tenant" "192.0.2.7") ≤ MAX_PER_IP)
      ⟨fiveAccounts, fun _ => 0, fun _ => 0, fun _ => false⟩ sprayed :=
    h.mono fun s hs => (hs "192.0.2.7").1
  revert hone
  decide +kernel

end HeirsOcr.PasswordSpray

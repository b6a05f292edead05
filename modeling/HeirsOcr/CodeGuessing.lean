import HeirsOcr.Login

/-!
# How many codes can be guessed

A wrong code raises the e-mail counter, and no code is evaluated once that counter
reaches its limit. The count of wrong codes stays below the counter as long as nothing
lowers the counter but a completed login or the end of its window. The password step of
an account with a second factor also clears it, so whoever knows the password can start
over after every nine wrong codes.
-/
namespace HeirsOcr.Login
open StepMachine

variable (surface : Surface)

/-- No account had more wrong codes evaluated than its bucket allows failures. -/
def GuessesBounded (s : LoginState) : Prop :=
  ∀ email, s.wrongCodes (emailKey surface.scope email) ≤ MAX_PER_EMAIL

/-- The condition of a step: a login request that passes the password of an account with
a second factor finds the account's counter at zero. -/
def ClearsNothing (s : LoginState) : Action → Prop
  | .login ip email password _ =>
    passesPassword surface s ip email password → s.fails (emailKey surface.scope email) = 0
  | _ => True

instance (s : LoginState) : DecidablePred (ClearsNothing surface s)
  | .login ip email password _ => inferInstanceAs <| Decidable <|
    passesPassword surface s ip email password → s.fails (emailKey surface.scope email) = 0
  | .loginMfa .. | .windowEnds _ | .challengeExpires _ | .usersChange _ =>
    inferInstanceAs (Decidable True)

/-- The invariant: wrong codes are failures on record, and within the limit. -/
def GuessesRecorded (s : LoginState) : Prop :=
  ∀ email, s.wrongCodes (emailKey surface.scope email) ≤ s.fails (emailKey surface.scope email) ∧
    s.wrongCodes (emailKey surface.scope email) ≤ MAX_PER_EMAIL

section Counters

variable (fails : Counters) (scope ip email e : String)

theorem recordLoginFailure_email :
    recordLoginFailure fails scope ip email (emailKey scope e) =
      fails (emailKey scope e) + if emailKey scope e = emailKey scope email then 1 else 0 := by
  have hne : emailKey scope email ≠ ipKey scope ip := by simp [emailKey, ipKey]
  have hne' : emailKey scope e ≠ ipKey scope ip := by simp [emailKey, ipKey]
  by_cases he : emailKey scope e = emailKey scope email
  · simp [recordLoginFailure, bump, he, Function.update_of_ne hne]
  · simp [recordLoginFailure, bump, he, Function.update_of_ne hne']

theorem clearLoginFailures_email :
    clearLoginFailures fails scope ip email (emailKey scope e) =
      if emailKey scope e = emailKey scope email then 0 else fails (emailKey scope e) := by
  have hne' : emailKey scope e ≠ ipKey scope ip := by simp [emailKey, ipKey]
  by_cases he : emailKey scope e = emailKey scope email
  · simp [clearLoginFailures, he]
  · simp [clearLoginFailures, he, Function.update_of_ne hne']

end Counters

variable {surface}

/-- An allowed attempt is below the limit of its e-mail. -/
theorem below_limit {fails : Counters} {ip email : String}
    (h : loginAllowed fails surface.scope ip email) :
    fails (emailKey surface.scope email) < MAX_PER_EMAIL := by
  simp only [loginAllowed, Bool.and_eq_true, decide_eq_true_eq] at h
  exact h.2

/-- The step lemma. -/
theorem guessesRecorded_step {s t : LoginState} {a : Action} (hs : GuessesRecorded surface s)
    (ha : ClearsNothing surface s a) (h : step surface s a = some t) :
    GuessesRecorded surface t := by
  intro e
  have he := hs e
  cases a with
  | login ip email password token =>
    rcases login_cases surface s ip email password token (Option.some.inj h) with
      ⟨hf, hw⟩ | ⟨hf, hw⟩ | ⟨hpass, hf, hw⟩ | ⟨userId, rfl⟩
    · rw [hf, hw]
      exact he
    · rw [hf, hw, recordLoginFailure_email]
      omega
    · rw [hf, hw, clearLoginFailures_email]
      split_ifs with hkey
      · have hzero := ha hpass
        rw [← hkey] at hzero
        omega
      · exact he
    · simp only [LoginState.complete, clearLoginFailures_email]
      split_ifs with hkey
      · simp [hkey]
      · simpa [Function.update_of_ne hkey] using he
  | loginMfa ip token code at' =>
    rcases loginMfa_cases surface s ip token code at' (Option.some.inj h) with
      ⟨hf, hw⟩ | ⟨email, hallow, ⟨hf, hw⟩ | ⟨hf, hw⟩⟩
    · rw [hf, hw]
      exact he
    · rw [hf, hw, recordLoginFailure_email, bump_apply]
      split_ifs with hkey
      · have hlimit := below_limit hallow
        rw [← hkey] at hlimit
        omega
      · exact he
    · rw [hf, hw, clearLoginFailures_email]
      split_ifs with hkey
      · simp [hkey]
      · simpa [Function.update_of_ne hkey] using he
  | windowEnds key =>
    obtain rfl := Option.some.inj h
    by_cases hkey : emailKey surface.scope e = key
    · simp [hkey]
    · simpa [Function.update_of_ne hkey] using he
  | challengeExpires token =>
    obtain rfl := Option.some.inj h
    exact he
  | usersChange users =>
    obtain rfl := Option.some.inj h
    exact he

/-- In every run whose password steps clear no failure on record, at most
`MAX_PER_EMAIL` wrong codes are evaluated against any account in a window, counted from
its last completed login. -/
theorem guesses_bounded (surface : Surface) (s : LoginState) (as : List Action)
    (hs : GuessesRecorded surface s) (hok : Guarded (step surface) (ClearsNothing surface) s as) :
    Throughout (step surface) (GuessesBounded surface) s as :=
  (throughout_of_guarded (fun _ _ _ hI ha ht => guessesRecorded_step hI ha ht) hs hok).mono
    fun _ h e => (h e).2

/-- The tenant portal with one password known to be right. -/
def portal : Surface where
  scope := "tenant"
  argonVerify hash plain := hash = "hash of hunter22" && plain = "hunter22"
  digests := Mfa.rfcDigests
  ipDenied _ _ := false

/-- One account with a second factor and one recovery code. -/
def enrolledUser : LoginState where
  users := ⟨[⟨"u1", "ada@acme.test", false, "hash of hunter22",
    ⟨some Mfa.rfcSecret, true, none, some [Mfa.rfcDigests.sha256Hex "AAAAAAAAAA"]⟩⟩], by decide⟩
  fails := fun _ => 0
  challenges := fun _ => none
  sessions := []
  wrongCodes := fun _ => 0

def passwordStep : Action := .login "203.0.113.9" "ada@acme.test" "hunter22" "t1"

/-- A recovery code the account does not have. -/
def wrongCode : Action := .loginMfa "203.0.113.9" "t1" "BBBBB-BBBBB" 59000

/-- The password, two wrong codes, the right one. -/
theorem guesses_bounded_one_login :
    Throughout (step portal) (GuessesBounded portal) enrolledUser
      [passwordStep, wrongCode, wrongCode, .loginMfa "203.0.113.9" "t1" "287082" 59000] :=
  guesses_bounded portal enrolledUser _ (fun _ => ⟨le_rfl, Nat.zero_le _⟩) (by decide)

/-- The password again after nine wrong codes, and an eleventh wrong code is evaluated. -/
theorem guesses_unbounded :
    ¬Throughout (step portal) (GuessesBounded portal) enrolledUser
      (passwordStep :: List.replicate 9 wrongCode ++
        passwordStep :: List.replicate 2 wrongCode) := by
  intro h
  have hada : Throughout (step portal)
      (fun s => s.wrongCodes (emailKey portal.scope "ada@acme.test") ≤ MAX_PER_EMAIL) enrolledUser
      (passwordStep :: List.replicate 9 wrongCode ++ passwordStep :: List.replicate 2 wrongCode) :=
    h.mono fun s hs => hs "ada@acme.test"
  exact absurd hada (by decide)

end HeirsOcr.Login

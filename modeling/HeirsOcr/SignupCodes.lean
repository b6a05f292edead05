import HeirsOcr.SignupGuesses

/-!
# Superseded codes, discarded signups and times to live

A check compares and writes back the record it read, whatever became of the key since. A
code stored in between is overwritten with its predecessor, a deleted signup comes back,
and without a time to live to keep it stays for good. While no command that stores or
deletes comes between the commands of a check, the newest code is the only one that counts
and every pending signup runs out in time.
-/
namespace HeirsOcr.Signup
open ExpiringKeys Interleaving StepMachine

/-- Only the newest code of a key was ever accepted, no deleted signup is there, and every
signup that is there runs out in time. -/
structure CodesHold (m : Signups) : Prop where
  newest : ∀ a ∈ m.accepted, ∀ code < a.issued, m.codes[code]? = some a.key → code ≤ a.code
  gone : ∀ key stored, get m.keys m.now key = some stored → stored.signup ∉ m.removed
  expires : ∀ key e, lookup m.keys m.now key = some e →
    ∃ t ∈ e.expiresAt, t ≤ m.now + 1000 * SIGNUP_TTL_SECONDS

/-- A check of the key that has read its record and may still accept it or write it back. -/
def SignupCall.reuses (key : String) : SignupCall → Bool
  | .comparing key' _ _ | .timing key' _ | .writing key' _ _ => key' = key
  | .storing _ | .discarding _ | .checking _ _ | .locking _ _ | .resending _ | .reissuing _ _ _ =>
    false

/-- A call that may still put the signup of the key back. -/
def SignupCall.restores (key : String) (c : SignupCall) : Bool :=
  c.reuses key ||
    match c with
    | .reissuing key' _ _ => key' = key
    | .storing _ | .discarding _ | .checking _ _ | .comparing _ _ _ | .locking _ _ | .timing _ _
    | .writing _ _ _ | .resending _ => false

/-- What the other calls are not in the middle of when a command runs; a write-back without a
time to live finds the key. -/
def SignupCall.Undisturbing (m : Signups) (others : List SignupCall) : SignupCall → Prop
  | .storing pending => others.all (!·.reuses (pendingKey pending.email))
  | .reissuing key _ _ => others.all (!·.reuses key)
  | .discarding email => others.all (!·.restores (pendingKey (normalizeEmail email)))
  | .locking key _ => others.all (!·.restores key)
  | .writing key _ ttl => ttl ≤ 0 → (lookup m.keys m.now key).isSome
  | .checking _ _ | .comparing _ _ _ | .timing _ _ | .resending _ => True

instance (m : Signups) (others : List SignupCall) : DecidablePred (SignupCall.Undisturbing m others)
  | .storing _ | .reissuing _ _ _ | .discarding _ | .locking _ _ =>
    inferInstanceAs (Decidable (_ = true))
  | .writing _ _ _ => inferInstanceAs (Decidable (_ → _))
  | .checking _ _ | .comparing _ _ _ | .timing _ _ | .resending _ =>
    inferInstanceAs (Decidable True)

/-- The condition of a step. -/
def Undisturbed (s : State Signups SignupCall) : Action SignupRequest Drawn ℕ → Prop
  | .advance i _ => ∀ c ∈ s.calls[i]?, c.Undisturbing s.shared (s.calls.eraseIdx i)
  | .start _ | .environment _ => True

instance (s : State Signups SignupCall) : DecidablePred (Undisturbed s)
  | .advance _ _ => inferInstanceAs (Decidable (∀ c ∈ _, _))
  | .start _ => inferInstanceAs (Decidable True)
  | .environment _ => inferInstanceAs (Decidable True)

/-- No newer code was stored under the key. -/
def Newest (m : Signups) (key : String) (code : ℕ) : Prop :=
  ∀ code', m.codes[code']? = some key → code' ≤ code

/-- The signup was started under the key and has not been deleted. -/
def Pending (m : Signups) (key : String) (signup : ℕ) : Prop :=
  m.signups[signup]? = some key ∧ signup ∉ m.removed

structure EntryHolds (m : Signups) (key : String) (e : Entry Stored) : Prop where
  newest : Newest m key e.value.code
  pending : Pending m key e.value.signup
  expires : ∃ t ∈ e.expiresAt, t ≤ m.now + 1000 * SIGNUP_TTL_SECONDS

structure SignupsHold (m : Signups) : Prop where
  entries : ∀ key e, m.keys key = some e → EntryHolds m key e
  removed : ∀ signup ∈ m.removed, signup < m.signups.length
  accepted : ∀ a ∈ m.accepted, a.issued ≤ m.codes.length ∧
    ∀ code < a.issued, m.codes[code]? = some a.key → code ≤ a.code

/-- What a call may rely on. -/
def SignupCall.Holds (m : Signups) : SignupCall → Prop
  | .comparing key _ stored | .timing key stored =>
    Newest m key stored.code ∧ Pending m key stored.signup
  | .writing key stored ttl =>
    (Newest m key stored.code ∧ Pending m key stored.signup) ∧ ttl ≤ SIGNUP_TTL_SECONDS
  | .reissuing key _ signup => Pending m key signup
  | .storing _ | .discarding _ | .checking _ _ | .locking _ _ | .resending _ => True

section Marks

variable {m m' : Signups} {key key' : String} {code signup : ℕ} {c : SignupCall}

theorem eq_or_of_getElem?_append {keys : List String} {n : ℕ}
    (h : (keys ++ [key])[n]? = some key') :
    keys[n]? = some key' ∨ (n = keys.length ∧ key' = key) := by
  by_cases hlt : n < keys.length
  · rw [List.getElem?_append_left hlt] at h
    exact .inl h
  · rw [List.getElem?_append_right (by omega)] at h
    obtain ⟨hn, hkey⟩ := List.getElem?_eq_some_iff.mp h
    rw [List.length_singleton] at hn
    refine .inr ⟨by omega, ?_⟩
    rw [← hkey, List.getElem_singleton]

theorem Newest.append (h : Newest m key' code) (hcodes : m'.codes = m.codes ++ [key])
    (hkey : key' ≠ key) : Newest m' key' code := by
  intro code' hcode'
  rw [hcodes] at hcode'
  exact h code' ((eq_or_of_getElem?_append hcode').resolve_right fun hnew => hkey hnew.2)

theorem newest_last (hcodes : m'.codes = m.codes ++ [key]) : Newest m' key' m.codes.length := by
  intro code' hcode'
  have hlt := (List.getElem?_eq_some_iff.mp hcode').1
  rw [hcodes, List.length_append, List.length_singleton] at hlt
  omega

theorem Pending.mono (h : Pending m key signup) (hsignups : m.signups <+: m'.signups)
    (hremoved : m'.removed = m.removed) : Pending m' key signup := by
  obtain ⟨rest, hrest⟩ := hsignups
  refine ⟨?_, by rw [hremoved]; exact h.2⟩
  rw [← hrest, List.getElem?_append_left (List.getElem?_eq_some_iff.mp h.1).1]
  exact h.1

theorem EntryHolds.mono {e : Entry Stored} (h : EntryHolds m key e)
    (hnewest : Newest m key e.value.code → Newest m' key e.value.code)
    (hpending : Pending m key e.value.signup → Pending m' key e.value.signup)
    (hnow : m.now ≤ m'.now) : EntryHolds m' key e := by
  obtain ⟨t, ht, hbound⟩ := h.expires
  exact ⟨hnewest h.newest, hpending h.pending, t, ht, by omega⟩

/-- A call goes on relying on the marks of its key. -/
theorem holds_mono (h : c.Holds m)
    (hnewest : ∀ key code, c.reuses key → Newest m key code → Newest m' key code)
    (hpending : ∀ key signup, c.restores key → Pending m key signup → Pending m' key signup) :
    c.Holds m' := by
  have hreuse : ∀ {key : String} {stored : Stored}, c.reuses key →
      Newest m key stored.code ∧ Pending m key stored.signup →
      Newest m' key stored.code ∧ Pending m' key stored.signup := by
    intro key stored hc hmarks
    exact ⟨hnewest _ _ hc hmarks.1, hpending _ _ (by simp [SignupCall.restores, hc]) hmarks.2⟩
  cases c with
  | comparing key otp stored => exact hreuse (by simp [SignupCall.reuses]) h
  | timing key stored => exact hreuse (by simp [SignupCall.reuses]) h
  | writing key stored ttl => exact ⟨hreuse (by simp [SignupCall.reuses]) h.1, h.2⟩
  | reissuing key pending signup => exact hpending _ _ (by simp [SignupCall.restores]) h
  | storing pending => trivial
  | discarding email => trivial
  | checking email otp => trivial
  | locking key stored => trivial
  | resending email => trivial

end Marks

section Commands

variable {m m' : Signups} {others : List SignupCall} {next : Option SignupCall} {key : String}
  {pending : PendingSignup} {signup : ℕ} {stored : Stored}

/-- A command that leaves the marks alone and accepts no code. -/
theorem keeps_quiet (hI : SignupsHold m) (hkeys : m'.keys = m.keys) (hcodes : m'.codes = m.codes)
    (hsignups : m'.signups = m.signups) (hremoved : m'.removed = m.removed)
    (haccepted : m'.accepted = m.accepted) (hnow : m.now ≤ m'.now)
    (hnext : ∀ c ∈ next, c.Holds m) :
    Keeps SignupsHold (fun m c => c.Holds m) m others (m', next) := by
  have hnewest : ∀ key code, Newest m key code → Newest m' key code := by
    intro key code h
    rwa [Newest, hcodes]
  have hpending : ∀ key signup, Pending m key signup → Pending m' key signup := by
    intro key signup h
    exact h.mono (by rw [hsignups]) hremoved
  refine ⟨⟨?_, ?_, ?_⟩, ?_, ?_⟩
  · intro key e he
    rw [hkeys] at he
    exact (hI.entries key e he).mono (hnewest _ _) (hpending _ _) hnow
  · rw [hremoved, hsignups]
    exact hI.removed
  · rw [haccepted, hcodes]
    exact hI.accepted
  · exact fun c hc => holds_mono (hnext c hc) (fun _ _ _ => hnewest _ _) fun _ _ _ => hpending _ _
  · exact fun c _ h => holds_mono h (fun _ _ _ => hnewest _ _) fun _ _ _ => hpending _ _

/-- A new code is stored for a signup, old or new. -/
theorem keeps_store (hI : SignupsHold m) (hkeys : m'.keys = (storeCode m key pending signup).keys)
    (hcodes : m'.codes = m.codes ++ [key]) (hsignups : m.signups <+: m'.signups)
    (hremoved : m'.removed = m.removed) (haccepted : m'.accepted = m.accepted)
    (hnow : m'.now = m.now) (hsignup : Pending m' key signup)
    (hothers : others.all (!·.reuses key) = true) :
    Keeps SignupsHold (fun m c => c.Holds m) m others (m', none) := by
  refine ⟨⟨?_, ?_, ?_⟩, by simp, ?_⟩
  · intro key' e he
    rw [hkeys] at he
    simp only [storeCode, setEx] at he
    by_cases hkey : key' = key
    · rw [hkey, Function.update_self] at he
      obtain rfl := Option.some.inj he
      rw [hkey]
      exact ⟨newest_last hcodes, hsignup, _, rfl, by rw [hnow]⟩
    · rw [Function.update_of_ne hkey] at he
      exact (hI.entries key' e he).mono (fun h => h.append hcodes hkey)
        (fun h => h.mono hsignups hremoved) hnow.ge
  · rw [hremoved]
    intro signup' h
    exact (hI.removed signup' h).trans_le hsignups.length_le
  · rw [haccepted]
    intro a ha
    obtain ⟨hissued, hnewest⟩ := hI.accepted a ha
    refine ⟨by rw [hcodes, List.length_append]; omega, fun code hcode h => ?_⟩
    rw [hcodes, List.getElem?_append_left (by omega)] at h
    exact hnewest code hcode h
  · intro c hc h
    have hnot : c.reuses key = false := by simpa using List.all_eq_true.mp hothers c hc
    refine holds_mono h (fun key' code hreuses hnewest => hnewest.append hcodes ?_)
      fun _ _ _ hpending => hpending.mono hsignups hremoved
    rintro rfl
    rw [hnot] at hreuses
    cases hreuses

theorem SignupsHold.live (hI : SignupsHold m) {e : Entry Stored}
    (he : lookup m.keys m.now key = some e) : EntryHolds m key e :=
  hI.entries key e (lookup_eq_some.mp he).1

/-- What a deletion removes was started under its key. -/
theorem SignupsHold.mem_removed (hI : SignupsHold m) {signup : ℕ}
    (h : signup ∈ (deleteKey m key).removed) :
    signup ∈ m.removed ∨ m.signups[signup]? = some key := by
  rcases List.mem_append.mp h with hold | hnew
  · exact .inl hold
  · obtain ⟨stored, hget, rfl⟩ := Option.map_eq_some_iff.mp (Option.mem_toList.mp hnew)
    obtain ⟨e, he, rfl⟩ := get_eq_some.mp hget
    exact .inr (hI.live he).pending.1

/-- What the key had is deleted. -/
theorem keeps_delete (hI : SignupsHold m) (hothers : others.all (!·.restores key) = true) :
    Keeps SignupsHold (fun m c => c.Holds m) m others (deleteKey m key, none) := by
  have hpending : ∀ key' ≠ key, ∀ signup, Pending m key' signup →
      Pending (deleteKey m key) key' signup := by
    intro key' hkey signup h
    refine ⟨h.1, fun hmem => ?_⟩
    rcases hI.mem_removed hmem with hold | hstarted
    · exact h.2 hold
    · rw [h.1] at hstarted
      exact hkey (Option.some.inj hstarted)
  refine ⟨⟨?_, ?_, hI.accepted⟩, by simp, ?_⟩
  · intro key' e he
    by_cases hkey : key' = key
    · rw [hkey] at he
      exact absurd he (by simp [deleteKey, del_self])
    · have hold : m.keys key' = some e := (del_of_ne hkey).symm.trans he
      exact (hI.entries key' e hold).mono id (hpending key' hkey _) le_rfl
  · intro signup hmem
    rcases hI.mem_removed hmem with hold | hstarted
    · exact hI.removed signup hold
    · exact (List.getElem?_eq_some_iff.mp hstarted).1
  · intro c hc h
    have hnot : c.restores key = false := by simpa using List.all_eq_true.mp hothers c hc
    refine holds_mono h (fun _ _ _ => id) fun key' signup hrestores => hpending key' ?_ signup
    rintro rfl
    rw [hnot] at hrestores
    cases hrestores

/-- The time to live a check asks for. -/
theorem ttl_le (hI : SignupsHold m) (key : String) :
    ttl m.keys m.now key ≤ SIGNUP_TTL_SECONDS := by
  rw [ttl]
  split
  · decide
  · rename_i e he
    obtain ⟨t, ht, hbound⟩ := (hI.live he).expires
    rw [Option.mem_def.mp ht, Option.elim_some]
    omega

/-- A wrong guess is written back to the record it was read from. -/
theorem keeps_writeBack (hI : SignupsHold m) {ttl : ℤ}
    (hcall : (SignupCall.writing key stored ttl).Holds m)
    (hlive : ttl ≤ 0 → (lookup m.keys m.now key).isSome) :
    Keeps SignupsHold (fun m c => c.Holds m) m others (writeBack m key stored ttl, none) := by
  obtain ⟨⟨hnewest, hpending⟩, hbound⟩ := hcall
  have hexpires : ∃ expiresAt : ℤ, expiresAt ≤ m.now + 1000 * SIGNUP_TTL_SECONDS ∧
      (writeBack m key stored ttl).keys key = some ⟨{ stored with
        pending := { stored.pending with attempts := stored.pending.attempts + 1 } },
        some expiresAt⟩ := by
    by_cases hpositive : 0 < ttl
    · refine ⟨m.now + 1000 * ttl, by omega, ?_⟩
      simp only [writeBack, if_pos hpositive, setEx, Function.update_self]
    · obtain ⟨e, he⟩ := Option.isSome_iff_exists.mp (hlive (by omega))
      obtain ⟨t, ht, hle⟩ := (hI.live he).expires
      refine ⟨t, hle, ?_⟩
      simp only [writeBack, if_neg hpositive, setKeepTtl, Function.update_self, he,
        Option.bind_some, Option.mem_def.mp ht]
  refine ⟨⟨?_, hI.removed, hI.accepted⟩, by simp, ?_⟩
  · intro key' e he
    by_cases hkey : key' = key
    · obtain ⟨expiresAt, hle, hself⟩ := hexpires
      rw [hkey, hself] at he
      obtain rfl := Option.some.inj he
      rw [hkey]
      exact ⟨hnewest, hpending, expiresAt, rfl, hle⟩
    · rw [writeBack_of_ne m stored ttl hkey] at he
      exact (hI.entries key' e he).mono id id le_rfl
  · exact fun c _ h => holds_mono h (fun _ _ _ => id) fun _ _ _ => id

/-- A right code is accepted while it is the newest. -/
theorem keeps_accept (hI : SignupsHold m) {code : ℕ} (hnewest : Newest m key code) :
    Keeps SignupsHold (fun m c => c.Holds m) m others
      ({ m with accepted := m.accepted ++ [⟨key, code, m.codes.length⟩] }, none) := by
  refine ⟨⟨?_, hI.removed, ?_⟩, by simp, ?_⟩
  · exact fun key' e he => (hI.entries key' e he).mono id id le_rfl
  · intro a ha
    rcases List.mem_append.mp ha with hold | hnew
    · exact hI.accepted a hold
    · obtain rfl := List.mem_singleton.mp hnew
      exact ⟨le_rfl, fun code' _ h => hnewest code' h⟩
  · exact fun c _ h => holds_mono h (fun _ _ _ => id) fun _ _ _ => id

end Commands

section Run

variable {argon : Argon} {s : State Signups SignupCall} {others : List SignupCall}
  {m : Signups} {c : SignupCall} {drawn : Drawn}

/-- Every undisturbed command keeps the marks. -/
theorem keeps_resume (hI : SignupsHold m) (hcall : c.Holds m) (hok : c.Undisturbing m others) :
    Keeps SignupsHold (fun m c => c.Holds m) m others (resumeOperation argon m c drawn) := by
  cases c with
  | storing pending =>
    have hfresh : m.signups.length ∉ m.removed := fun h => absurd (hI.removed _ h) (lt_irrefl _)
    exact keeps_store hI rfl rfl ⟨_, rfl⟩ rfl rfl rfl ⟨List.getElem?_concat_length, hfresh⟩ hok
  | reissuing key pending signup =>
    exact keeps_store hI rfl rfl (List.prefix_refl _) rfl rfl rfl hcall hok
  | discarding email => exact keeps_delete hI hok
  | locking key stored => exact keeps_delete hI hok
  | writing key stored ttl => exact keeps_writeBack hI hcall hok
  | timing key stored =>
    refine keeps_quiet hI rfl rfl rfl rfl rfl le_rfl fun c hc => ?_
    obtain rfl := Option.some.inj hc
    exact ⟨hcall, ttl_le hI key⟩
  | comparing key otp stored =>
    cases hmatches : otpMatches argon stored.pending otp with
    | true =>
      simp only [resumeOperation, hmatches, if_true]
      exact keeps_accept hI hcall.1
    | false =>
      simp only [resumeOperation, hmatches, Bool.false_eq_true, if_false]
      refine keeps_quiet hI rfl rfl rfl rfl rfl le_rfl fun c hc => ?_
      split_ifs at hc
      · obtain rfl := Option.some.inj hc
        trivial
      · obtain rfl := Option.some.inj hc
        exact hcall
  | checking email otp =>
    refine keeps_quiet hI rfl rfl rfl rfl rfl le_rfl fun c hc => ?_
    obtain ⟨stored, hget, rfl⟩ := Option.map_eq_some_iff.mp hc
    obtain ⟨e, he, rfl⟩ := get_eq_some.mp hget
    have hentry := hI.live he
    exact ⟨hentry.newest, hentry.pending⟩
  | resending email =>
    simp only [resumeOperation, normalizeEmail_normalizeEmail]
    split
    · exact keeps_quiet hI rfl rfl rfl rfl rfl le_rfl (by simp)
    · rename_i stored hget
      split_ifs
      · exact keeps_quiet hI rfl rfl rfl rfl rfl le_rfl (by simp)
      · refine keeps_quiet hI rfl rfl rfl rfl rfl le_rfl fun c hc => ?_
        obtain rfl := Option.some.inj hc
        obtain ⟨e, he, rfl⟩ := get_eq_some.mp hget
        exact (hI.live he).pending

theorem stepKeeps_undisturbed {a : Action SignupRequest Drawn ℕ}
    (hs : Holds SignupsHold (fun m c => c.Holds m) s) (hok : Undisturbed s a) :
    StepKeeps (signups argon) SignupsHold (fun m c => c.Holds m) s a := by
  cases a with
  | start request =>
    have hnew : ∃ c, startOperation argon s.shared request = (s.shared, some c) ∧
        c.Holds s.shared := by
      cases request <;> exact ⟨_, rfl, trivial⟩
    obtain ⟨c, hc, hholds⟩ := hnew
    simp only [StepKeeps, signups, hc]
    refine keeps_quiet hs.shared rfl rfl rfl rfl rfl le_rfl fun d hd => ?_
    obtain rfl := Option.some.inj hd
    exact hholds
  | advance i drawn =>
    intro c hc
    exact keeps_resume hs.shared (hs.calls c (List.mem_of_getElem? hc)) (hok c hc)
  | environment elapsed =>
    exact keeps_quiet hs.shared rfl rfl rfl rfl rfl (by simp [signups]) (by simp)

theorem codesHold_of_signupsHold (hI : SignupsHold m) : CodesHold m where
  newest a ha := (hI.accepted a ha).2
  gone key stored hget := by
    obtain ⟨e, he, rfl⟩ := get_eq_some.mp hget
    exact (hI.live he).pending.2
  expires key e he := (hI.live he).expires

/-- Over all interleavings of the operations on all e-mails, time passing between any two
commands, while none disturbs the others: no superseded code is accepted, no deleted signup
comes back, and every pending signup runs out within its time to live. -/
theorem codes_hold_undisturbed (now : ℤ) (as : List (Action SignupRequest Drawn ℕ))
    (hok : Guarded (signups argon).step Undisturbed (noSignups now) as) :
    Throughout (signups argon).step (fun s => CodesHold s.shared) (noSignups now) as := by
  have hstart : Holds SignupsHold (fun m c => c.Holds m) (noSignups now) := by
    refine ⟨⟨fun key e he => ?_, by simp [noSignups], by simp [noSignups]⟩, by simp [noSignups]⟩
    cases he
  have hrun := throughout_holds (fun _ _ hs ha => stepKeeps_undisturbed hs ha) hstart hok
  exact hrun.mono fun s hs => codesHold_of_signupsHold hs.shared

end Run

def ada : StartSignupInput := ⟨"a@b.c", "Ada", "Analytical", "starter", "correct horse"⟩

def redrawn : Drawn := ⟨"550128", "salt-3", "salt-4"⟩

/-- A wrong guess, another code a minute later, and that code; each operation alone. -/
def inTurn : List (Action SignupRequest Drawn ℕ) :=
  oneSignup ++ guessesInTurn ++ [.environment 60000, .start (.resendOtp "a@b.c"),
    .advance 0 redrawn, .advance 0 redrawn, .start (.checkOtp "a@b.c" "550128"),
    .advance 0 redrawn, .advance 0 redrawn, .start (.discardSignup "a@b.c"), .advance 0 redrawn]

theorem codes_hold_in_turn :
    (exec (signups plain).step (noSignups 0) inTurn).map
      (fun s => (s.shared.accepted.map Acceptance.code, s.shared.removed)) = some ([1], [0]) ∧
    Throughout (signups plain).step (fun s => CodesHold s.shared) (noSignups 0) inTurn := by
  have hok : Guarded (signups plain).step Undisturbed (noSignups 0) inTurn := by decide +kernel
  exact ⟨by decide +kernel, codes_hold_undisturbed 0 inTurn hok⟩

/-- A check of the first code reads, the form is sent again, and the check compares; then a
wrong guess is compared, the signup is discarded, and the guess is written back. -/
def overlapping : List (Action SignupRequest Drawn ℕ) :=
  oneSignup ++ [.start (.checkOtp "a@b.c" "417293"), .advance 0 drawn,
    .start (.startSignup ada redrawn), .advance 1 redrawn, .advance 0 drawn,
    .start (.checkOtp "a@b.c" "000000"), .advance 0 drawn, .advance 0 drawn,
    .start (.discardSignup "a@b.c"), .advance 1 drawn, .advance 0 drawn, .advance 0 drawn]

/-- The first code is accepted after the second was stored, and the discarded signup is back,
without a time to live. -/
theorem stale_record_acts :
    (exec (signups plain).step (noSignups 0) overlapping).map
      (fun s => (s.shared.accepted, s.shared.codes)) =
        some ([⟨pendingKey "a@b.c", 0, 2⟩], [pendingKey "a@b.c", pendingKey "a@b.c"]) ∧
    (exec (signups plain).step (noSignups 0) overlapping).map (fun s => (s.shared.removed,
      (lookup s.shared.keys s.shared.now (pendingKey "a@b.c")).map
        fun e => (e.value.signup, e.expiresAt))) = some ([1], some (1, none)) ∧
    ¬Throughout (signups plain).step (fun s => CodesHold s.shared) (noSignups 0) overlapping := by
  have hback : (exec (signups plain).step (noSignups 0) overlapping).map (fun s =>
      (s.shared.removed, (lookup s.shared.keys s.shared.now (pendingKey "a@b.c")).map
        fun e => (e.value.signup, e.expiresAt))) = some ([1], some (1, none)) := by
    decide +kernel
  refine ⟨by decide +kernel, hback, fun h => ?_⟩
  obtain ⟨s, hs, hfacts⟩ := Option.map_eq_some_iff.mp hback
  obtain ⟨e, he, hentry⟩ := Option.map_eq_some_iff.mp (Prod.mk.inj hfacts).2
  obtain ⟨t, ht, -⟩ := (h.exec hs).expires _ e he
  rw [(Prod.mk.inj hentry).2] at ht
  cases ht

end HeirsOcr.Signup

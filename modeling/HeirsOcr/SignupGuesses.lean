import HeirsOcr.Signup

/-!
# Guesses at a signup code

The attempts of a code are counted in the record a check reads, compares with and writes
back. Two checks that read the same record write back the same count, and a guess is lost.
While no check reads the record of a code that another check still has in hand, a code is
guessed at no more than the limit says.
-/
namespace HeirsOcr.Signup
open ExpiringKeys Interleaving StepMachine

/-- The record a check has read, until its last command. -/
def SignupCall.inHand : SignupCall → Option Stored
  | .comparing _ _ stored | .locking _ stored | .timing _ stored | .writing _ stored _ =>
    some stored
  | .storing _ | .discarding _ | .checking _ _ | .resending _ | .reissuing _ _ _ => none

/-- The key a check is about to read. -/
def SignupCall.reads : SignupCall → Option String
  | .checking email _ => some (pendingKey (normalizeEmail email))
  | .storing _ | .discarding _ | .comparing _ _ _ | .locking _ _ | .timing _ _ | .writing _ _ _
  | .resending _ | .reissuing _ _ _ => none

def SignupCall.holds (code : ℕ) (c : SignupCall) : Bool := c.inHand.any (·.code = code)

/-- A check that has a wrong guess to write back. -/
def SignupCall.owes (code : ℕ) : SignupCall → Bool
  | .locking _ stored | .timing _ stored | .writing _ stored _ => stored.code = code
  | .storing _ | .discarding _ | .checking _ _ | .comparing _ _ _ | .resending _
  | .reissuing _ _ _ => false

/-- The condition of a step: a check does not read a record of which another check has the
code in hand. -/
def ReadsAlone (s : State Signups SignupCall) : Action SignupRequest Drawn ℕ → Prop
  | .advance i _ =>
    ∀ key ∈ s.calls[i]?.bind SignupCall.reads,
      ∀ stored ∈ get s.shared.keys s.shared.now key, s.calls.all (!·.holds stored.code)
  | .start _ | .environment _ => True

instance (s : State Signups SignupCall) : DecidablePred (ReadsAlone s)
  | .advance _ _ => inferInstanceAs (Decidable (∀ key ∈ _, _))
  | .start _ => inferInstanceAs (Decidable True)
  | .environment _ => inferInstanceAs (Decidable True)

/-- How many wrong codes have been compared with a code. -/
def Signups.guesses (m : Signups) (code : ℕ) : ℕ := m.wrong.count code

/-- The code was stored under the key and has had no more guesses than the budget. -/
def Spent (m : Signups) (key : String) (code budget : ℕ) : Prop :=
  m.codes[code]? = some key ∧ m.guesses code ≤ budget

/-- What a call may rely on. -/
def SignupCall.Sound (m : Signups) : SignupCall → Prop
  | .storing pending | .reissuing _ pending _ => pending.attempts = 0
  | .comparing key _ stored =>
    Spent m key stored.code stored.pending.attempts ∧ stored.pending.attempts < MAX_OTP_ATTEMPTS
  | .locking key stored => Spent m key stored.code (stored.pending.attempts + 1)
  | .timing key stored | .writing key stored _ =>
    Spent m key stored.code (stored.pending.attempts + 1) ∧
      stored.pending.attempts + 1 < MAX_OTP_ATTEMPTS
  | .discarding _ | .checking _ _ | .resending _ => True

/-- The record of a key, whose attempts count every guess that is not yet to be written back. -/
structure Counted (m : Signups) (calls : List SignupCall) (key : String) (stored : Stored) :
    Prop where
  issued : m.codes[stored.code]? = some key
  unlocked : stored.pending.attempts < MAX_OTP_ATTEMPTS
  counts : m.guesses stored.code ≤ stored.pending.attempts ∨ ∃ c ∈ calls, c.owes stored.code

structure Guessing (m : Signups) (calls : List SignupCall) : Prop where
  entries : ∀ key e, m.keys key = some e → Counted m calls key e.value
  sound : ∀ c ∈ calls, c.Sound m
  alone : ∀ code, calls.countP (SignupCall.holds code) ≤ 1
  unissued : ∀ code, m.codes.length ≤ code → m.guesses code = 0
  bounded : ∀ code, m.guesses code ≤ MAX_OTP_ATTEMPTS

section Calls

variable {m m' : Signups} {calls : List SignupCall} {c c' : SignupCall} {code : ℕ}

theorem getElem?_of_codes {key : String} (hcodes : m.codes <+: m'.codes)
    (h : m.codes[code]? = some key) : m'.codes[code]? = some key := by
  obtain ⟨rest, hrest⟩ := hcodes
  rw [← hrest, List.getElem?_append_left (List.getElem?_eq_some_iff.mp h).1]
  exact h

theorem holds_of_owes (h : c.owes code) : c.holds code := by
  cases c <;> simp_all [SignupCall.owes, SignupCall.holds, SignupCall.inHand]

/-- What a call relies on is the guesses at the code it holds. -/
theorem Sound.mono (h : c.Sound m) (hcodes : m.codes <+: m'.codes)
    (hguesses : ∀ code, c.holds code → m'.guesses code = m.guesses code) : c.Sound m' := by
  have hspent : ∀ {key : String} {stored : Stored} {budget : ℕ},
      m'.guesses stored.code = m.guesses stored.code → Spent m key stored.code budget →
      Spent m' key stored.code budget := by
    intro key stored budget heq hspent
    exact ⟨getElem?_of_codes hcodes hspent.1, heq.trans_le hspent.2⟩
  cases c with
  | comparing key otp stored =>
    exact ⟨hspent (hguesses _ (by simp [SignupCall.holds, SignupCall.inHand])) h.1, h.2⟩
  | locking key stored =>
    exact hspent (hguesses _ (by simp [SignupCall.holds, SignupCall.inHand])) h
  | timing key stored =>
    exact ⟨hspent (hguesses _ (by simp [SignupCall.holds, SignupCall.inHand])) h.1, h.2⟩
  | writing key stored ttl =>
    exact ⟨hspent (hguesses _ (by simp [SignupCall.holds, SignupCall.inHand])) h.1, h.2⟩
  | storing pending => exact h
  | reissuing key pending signup => exact h
  | discarding email => trivial
  | checking email otp => trivial
  | resending email => trivial

theorem Counted.mono {calls' : List SignupCall} {key : String} {stored : Stored}
    (h : Counted m calls key stored) (hcodes : m.codes <+: m'.codes)
    (hguesses : m'.guesses stored.code = m.guesses stored.code)
    (howes : ∀ d ∈ calls, d.owes stored.code → ∃ d' ∈ calls', d'.owes stored.code) :
    Counted m' calls' key stored := by
  refine ⟨getElem?_of_codes hcodes h.issued, h.unlocked, ?_⟩
  rw [hguesses]
  exact h.counts.imp_right fun ⟨d, hd, hdowes⟩ => howes d hd hdowes

end Calls

section Commands

variable {m m' : Signups} {calls : List SignupCall} {i : ℕ} {c : SignupCall}
  {next : Option SignupCall}

/-- What is left of a call holds a code only if the call did. -/
theorem Guessing.alone_advance (hs : Guessing m calls) (hc : calls[i]? = some c)
    (hnext : ∀ d ∈ next, ∀ code, d.holds code → c.holds code) (code : ℕ) :
    (calls.eraseIdx i ++ next.toList).countP (SignupCall.holds code) ≤ 1 := by
  have hcount := countP_advance (p := SignupCall.holds code) hc next
  have hone := hs.alone code
  have hle : next.toList.countP (SignupCall.holds code) ≤ if c.holds code then 1 else 0 := by
    cases next with
    | none => simp
    | some d =>
      by_cases hd : d.holds code = true
      · simp [hd, hnext d rfl code hd]
      · simp [hd]
  omega

/-- What a command leaves of the other calls. -/
theorem Guessing.sound_advance (hs : Guessing m calls) (hc : calls[i]? = some c)
    (hcodes : m.codes <+: m'.codes)
    (hguesses : ∀ d ∈ calls.eraseIdx i, ∀ code, d.holds code → m'.guesses code = m.guesses code)
    (hnext : ∀ d ∈ next, d.Sound m') : ∀ d ∈ calls.eraseIdx i ++ next.toList, d.Sound m' := by
  intro d hd
  rcases List.mem_append.mp hd with hold | hnew
  · have hmem : d ∈ calls := (mem_iff_eq_or_mem_eraseIdx hc).mpr (.inr hold)
    exact Sound.mono (hs.sound d hmem) hcodes (hguesses d hold)
  · exact hnext d (Option.mem_toList.mp hnew)

/-- A guess is still owed when the call that moved on does not stop owing it. -/
theorem owes_advance (hc : calls[i]? = some c) {code : ℕ}
    (howes : c.owes code → ∃ d ∈ next, d.owes code) :
    ∀ d ∈ calls, d.owes code → ∃ d' ∈ calls.eraseIdx i ++ next.toList, d'.owes code := by
  intro d hd hdowes
  rcases (mem_iff_eq_or_mem_eraseIdx hc).mp hd with rfl | hrest
  · obtain ⟨d', hd', hd'owes⟩ := howes hdowes
    exact ⟨d', List.mem_append_right _ (Option.mem_toList.mpr hd'), hd'owes⟩
  · exact ⟨d, List.mem_append_left _ hrest, hdowes⟩

theorem guesses_congr (hwrong : m'.wrong = m.wrong) (code : ℕ) :
    m'.guesses code = m.guesses code := by
  rw [Signups.guesses, Signups.guesses, hwrong]

/-- A command that compares no code has the records to answer for. -/
theorem Guessing.unguessed (hs : Guessing m calls) (hc : calls[i]? = some c)
    (hcodes : m.codes <+: m'.codes) (hwrong : m'.wrong = m.wrong)
    (hnext : ∀ d ∈ next, d.Sound m)
    (halone : ∀ code, (calls.eraseIdx i ++ next.toList).countP (SignupCall.holds code) ≤ 1)
    (hentries : ∀ key e, m'.keys key = some e →
      Counted m' (calls.eraseIdx i ++ next.toList) key e.value) :
    Guessing m' (calls.eraseIdx i ++ next.toList) where
  entries := hentries
  sound := hs.sound_advance hc hcodes (fun _ _ code _ => guesses_congr hwrong code)
    fun d hd => Sound.mono (hnext d hd) hcodes fun code _ => guesses_congr hwrong code
  alone := halone
  unissued code hcode := by
    rw [guesses_congr hwrong]
    exact hs.unissued code (hcodes.length_le.trans hcode)
  bounded code := by
    rw [guesses_congr hwrong]
    exact hs.bounded code

/-- A command that leaves records, codes and guesses alone. -/
theorem Guessing.quiet (hs : Guessing m calls) (hc : calls[i]? = some c)
    (hkeys : m'.keys = m.keys) (hcodes : m'.codes = m.codes) (hwrong : m'.wrong = m.wrong)
    (hnext : ∀ d ∈ next, d.Sound m)
    (halone : ∀ code, (calls.eraseIdx i ++ next.toList).countP (SignupCall.holds code) ≤ 1)
    (howes : ∀ code, c.owes code → ∃ d ∈ next, d.owes code) :
    Guessing m' (calls.eraseIdx i ++ next.toList) := by
  have hprefix : m.codes <+: m'.codes := by rw [hcodes]
  refine hs.unguessed hc hprefix hwrong hnext halone fun key e he => ?_
  rw [hkeys] at he
  exact (hs.entries key e he).mono hprefix (guesses_congr hwrong _) (owes_advance hc (howes _))

/-- A call that ends without a write, and owes nothing. -/
theorem Guessing.drop (hs : Guessing m calls) (hc : calls[i]? = some c)
    (howes : ∀ code, ¬c.owes code = true) :
    Guessing m (calls.eraseIdx i ++ (none : Option SignupCall).toList) :=
  hs.quiet hc rfl rfl rfl (by simp) (hs.alone_advance hc (by simp))
    fun code h => absurd h (howes code)

/-- A call that goes on with no other code than it had. -/
theorem Guessing.pass (hs : Guessing m calls) (hc : calls[i]? = some c) (hsound : c'.Sound m)
    (hholds : ∀ code, c'.holds code → c.holds code) (howes : ∀ code, c.owes code → c'.owes code) :
    Guessing m (calls.eraseIdx i ++ (some c').toList) := by
  refine hs.quiet hc rfl rfl rfl ?_ (hs.alone_advance hc ?_) fun code h => ⟨c', rfl, howes code h⟩
  · intro d hd
    obtain rfl := Option.some.inj hd
    exact hsound
  · intro d hd code hdcode
    obtain rfl := Option.some.inj hd
    exact hholds code hdcode

/-- A check takes in hand a record whose code nobody has. -/
theorem Guessing.read (hs : Guessing m calls) {email otp key : String}
    (hc : calls[i]? = some (.checking email otp)) {e : Entry Stored} (he : m.keys key = some e)
    (hnone : ∀ d ∈ calls, ¬d.holds e.value.code = true) :
    Guessing m (calls.eraseIdx i ++ (some (SignupCall.comparing key otp e.value)).toList) := by
  obtain ⟨hissued, hunlocked, hcounts⟩ := hs.entries _ e he
  have hspent := hcounts.resolve_right fun ⟨d, hd, hdowes⟩ => hnone d hd (holds_of_owes hdowes)
  refine hs.quiet hc rfl rfl rfl ?_ (fun code => ?_) (fun _ h => by cases h)
  · intro d hd
    obtain rfl := Option.some.inj hd
    exact ⟨⟨hissued, hspent⟩, hunlocked⟩
  · have hcount := countP_advance (p := SignupCall.holds code) hc
      (some (.comparing key otp e.value))
    have hone := hs.alone code
    by_cases hcode : e.value.code = code
    · have hzero : calls.countP (SignupCall.holds code) = 0 :=
        List.countP_eq_zero.mpr (hcode ▸ hnone)
      have hle : (some (SignupCall.comparing key otp e.value)).toList.countP
          (SignupCall.holds code) ≤ 1 := List.countP_le_length
      omega
    · have hother : (some (SignupCall.comparing key otp e.value)).toList.countP
          (SignupCall.holds code) = 0 := by
        simp [SignupCall.holds, SignupCall.inHand, hcode]
      omega

theorem not_owes_of_inHand (hhand : c.inHand = none) (code : ℕ) : ¬c.owes code = true := by
  intro howes
  have hholds := holds_of_owes howes
  rw [SignupCall.holds, hhand] at hholds
  cases hholds

/-- A new code is stored without attempts. -/
theorem Guessing.store (hs : Guessing m calls) (hc : calls[i]? = some c) {key : String}
    {pending : PendingSignup} {signup : ℕ} (hfresh : pending.attempts = 0)
    (hhand : c.inHand = none) (hkeys : m'.keys = (storeCode m key pending signup).keys)
    (hcodes : m'.codes = m.codes ++ [key]) (hwrong : m'.wrong = m.wrong) :
    Guessing m' (calls.eraseIdx i ++ (none : Option SignupCall).toList) := by
  have hprefix : m.codes <+: m'.codes := ⟨[key], hcodes.symm⟩
  refine hs.unguessed hc hprefix hwrong (by simp) (hs.alone_advance hc (by simp))
    fun key' e he => ?_
  rw [hkeys] at he
  simp only [storeCode, setEx] at he
  by_cases hkey : key' = key
  · rw [hkey, Function.update_self] at he
    obtain rfl := Option.some.inj he
    refine ⟨?_, ?_, .inl ?_⟩
    · rw [hcodes, hkey]
      exact List.getElem?_concat_length
    · rw [hfresh]
      decide
    · rw [guesses_congr hwrong, hs.unissued _ le_rfl]
      exact Nat.zero_le _
  · rw [Function.update_of_ne hkey] at he
    exact (hs.entries key' e he).mono hprefix (guesses_congr hwrong _)
      (owes_advance hc fun howes => absurd howes (not_owes_of_inHand hhand _))

/-- The records of other keys have other codes. -/
theorem Guessing.code_ne (hs : Guessing m calls) {key key' : String} {code : ℕ}
    {e : Entry Stored} (hissued : m.codes[code]? = some key) (he : m.keys key' = some e)
    (hkey : key' ≠ key) : e.value.code ≠ code := by
  intro hcode
  have hissued' := (hs.entries key' e he).issued
  rw [hcode, hissued] at hissued'
  exact hkey (Option.some.inj hissued').symm

/-- A guess written back, or its code deleted: what the call owes is settled. -/
theorem Guessing.settle (hs : Guessing m calls) (hc : calls[i]? = some c) (key : String)
    (hkeys : ∀ key' ≠ key, m'.keys key' = m.keys key') (hcodes : m'.codes = m.codes)
    (hwrong : m'.wrong = m.wrong)
    (howes : ∀ code, c.owes code → m.codes[code]? = some key)
    (hkey : ∀ e, m'.keys key = some e → Counted m [] key e.value) :
    Guessing m' (calls.eraseIdx i ++ (none : Option SignupCall).toList) := by
  have hprefix : m.codes <+: m'.codes := by rw [hcodes]
  refine hs.unguessed hc hprefix hwrong (by simp) (hs.alone_advance hc (by simp))
    fun key' e he => ?_
  by_cases heq : key' = key
  · rw [heq] at he ⊢
    exact (hkey e he).mono hprefix (guesses_congr hwrong _) (by simp)
  · rw [hkeys key' heq] at he
    refine (hs.entries key' e he).mono hprefix (guesses_congr hwrong _)
      (owes_advance hc fun h => ?_)
    exact absurd rfl (hs.code_ne (howes _ h) he heq)

theorem guesses_append (m : Signups) (code code' : ℕ) :
    ({ m with wrong := m.wrong ++ [code] } : Signups).guesses code' =
      m.guesses code' + if code' = code then 1 else 0 := by
  by_cases h : code' = code
  · simp [Signups.guesses, h]
  · simp [Signups.guesses, h, Ne.symm h]

/-- A wrong guess is counted, and owed until it is written back. -/
theorem Guessing.guess (hs : Guessing m calls) {key otp : String} {stored : Stored}
    (hc : calls[i]? = some (.comparing key otp stored)) (hnext : next =
      if MAX_OTP_ATTEMPTS ≤ stored.pending.attempts + 1 then some (.locking key stored)
      else some (.timing key stored)) :
    Guessing { m with wrong := m.wrong ++ [stored.code] } (calls.eraseIdx i ++ next.toList) := by
  obtain ⟨⟨hissued, hspent⟩, hunlocked⟩ := hs.sound _ (List.mem_of_getElem? hc)
  have hlt := (List.getElem?_eq_some_iff.mp hissued).1
  have howes : ∃ d ∈ next, d.owes stored.code := by
    rw [hnext]
    split_ifs <;> simp [SignupCall.owes]
  have hholds : ∀ d ∈ next, ∀ code, d.holds code →
      SignupCall.holds code (.comparing key otp stored) := by
    rw [hnext]
    split_ifs <;> simp [SignupCall.holds, SignupCall.inHand]
  have hself : SignupCall.holds stored.code (.comparing key otp stored) = true := by
    simp [SignupCall.holds, SignupCall.inHand]
  have hspent' : Spent { m with wrong := m.wrong ++ [stored.code] } key stored.code
      (stored.pending.attempts + 1) := by
    refine ⟨hissued, ?_⟩
    rw [guesses_append, if_pos rfl]
    omega
  refine ⟨?_, ?_, hs.alone_advance hc hholds, ?_, ?_⟩
  · intro key' e he
    by_cases hcode : e.value.code = stored.code
    · have hcounted := hs.entries key' e he
      refine ⟨hcounted.issued, hcounted.unlocked, .inr ?_⟩
      obtain ⟨d, hd, hdowes⟩ := howes
      exact ⟨d, List.mem_append_right _ (Option.mem_toList.mpr hd), hcode ▸ hdowes⟩
    · refine (hs.entries key' e he).mono (List.prefix_refl _) ?_ (owes_advance hc fun h => ?_)
      · rw [guesses_append, if_neg hcode, Nat.add_zero]
      · cases h
  · refine hs.sound_advance hc (List.prefix_refl _) (fun d hd code hdcode => ?_) ?_
    · rw [guesses_append, if_neg, Nat.add_zero]
      rintro rfl
      have hother := not_of_mem_eraseIdx (hs.alone stored.code) hc hself hd
      rw [hdcode] at hother
      cases hother
    · rw [hnext]
      intro d hd
      split_ifs at hd with hlimit
      · obtain rfl := Option.some.inj hd
        exact hspent'
      · obtain rfl := Option.some.inj hd
        exact ⟨hspent', by omega⟩
  · intro code hcode
    have hle : m.codes.length ≤ code := hcode
    rw [guesses_append, if_neg (by omega), hs.unissued code hle]
  · intro code
    rw [guesses_append]
    by_cases hcode : code = stored.code
    · rw [if_pos hcode, hcode]
      omega
    · rw [if_neg hcode]
      exact hs.bounded code

end Commands

section Run

variable {argon : Argon} {s t : State Signups SignupCall} {i : ℕ} {c : SignupCall} {drawn : Drawn}

theorem writeBack_of_ne (m : Signups) {key key' : String} (stored : Stored) (ttl : ℤ)
    (h : key' ≠ key) : (writeBack m key stored ttl).keys key' = m.keys key' := by
  simp only [writeBack]
  split_ifs
  · rw [setEx, Function.update_of_ne h]
  · rw [setKeepTtl, Function.update_of_ne h]

theorem writeBack_self (m : Signups) (key : String) (stored : Stored) (ttl : ℤ) :
    ∃ expiresAt, (writeBack m key stored ttl).keys key = some ⟨{ stored with
      pending := { stored.pending with attempts := stored.pending.attempts + 1 } }, expiresAt⟩ := by
  simp only [writeBack]
  split_ifs
  · exact ⟨_, by rw [setEx, Function.update_self]⟩
  · exact ⟨_, by rw [setKeepTtl, Function.update_self]⟩

/-- The guess is on record where its call writes it back. -/
theorem Guessing.writeBack (hs : Guessing s.shared s.calls) {key : String} {stored : Stored}
    {ttl : ℤ} (hc : s.calls[i]? = some (.writing key stored ttl)) :
    Guessing (writeBack s.shared key stored ttl)
      (s.calls.eraseIdx i ++ (none : Option SignupCall).toList) := by
  obtain ⟨⟨hissued, hspent⟩, hunlocked⟩ := hs.sound _ (List.mem_of_getElem? hc)
  refine hs.settle hc key (fun _ => writeBack_of_ne _ _ _) rfl rfl (fun code h => ?_) fun e he => ?_
  · rw [← of_decide_eq_true h]
    exact hissued
  · obtain ⟨expiresAt, hself⟩ := writeBack_self s.shared key stored ttl
    obtain rfl := Option.some.inj (hself.symm.trans he)
    exact ⟨hissued, hunlocked, .inl hspent⟩

/-- Every command keeps the count of the guesses. -/
theorem Guessing.resume (hs : Guessing s.shared s.calls) (hc : s.calls[i]? = some c)
    (halone : ReadsAlone s (.advance i drawn)) :
    Guessing (resumeOperation argon s.shared c drawn).1
      (s.calls.eraseIdx i ++ (resumeOperation argon s.shared c drawn).2.toList) := by
  have hsound := hs.sound c (List.mem_of_getElem? hc)
  cases c with
  | storing pending => exact hs.store hc hsound rfl rfl rfl rfl
  | reissuing key pending signup => exact hs.store hc hsound rfl rfl rfl rfl
  | discarding email =>
    refine hs.settle hc (pendingKey (normalizeEmail email)) (fun _ => del_of_ne) rfl rfl
      (fun _ h => by cases h) fun e he => ?_
    exact absurd he (by simp [resumeOperation, deleteKey, del_self])
  | locking key stored =>
    refine hs.settle hc key (fun _ => del_of_ne) rfl rfl (fun code h => ?_) fun e he => ?_
    · rw [← of_decide_eq_true h]
      exact hsound.1
    · exact absurd he (by simp [resumeOperation, deleteKey, del_self])
  | writing key stored ttl => exact hs.writeBack hc
  | timing key stored => exact hs.pass hc hsound (fun _ h => h) fun _ h => h
  | comparing key otp stored =>
    cases hmatches : otpMatches argon stored.pending otp with
    | true =>
      simp only [resumeOperation, hmatches, if_true]
      refine hs.quiet hc rfl rfl rfl (by simp) (hs.alone_advance hc (by simp)) ?_
      exact fun _ h => by cases h
    | false =>
      simp only [resumeOperation, hmatches, Bool.false_eq_true, if_false]
      exact hs.guess hc rfl
  | resending email =>
    simp only [resumeOperation]
    split
    · exact hs.drop hc fun _ h => by cases h
    · split_ifs
      · exact hs.drop hc fun _ h => by cases h
      · exact hs.pass hc rfl (fun _ h => by cases h) fun _ h => by cases h
  | checking email otp =>
    have halone := halone (pendingKey (normalizeEmail email)) (by rw [hc]; rfl)
    simp only [resumeOperation]
    cases hget : get s.shared.keys s.shared.now (pendingKey (normalizeEmail email)) with
    | none => exact hs.drop hc fun _ h => by cases h
    | some stored =>
      have hnone : ∀ d ∈ s.calls, ¬d.holds stored.code = true := by
        simpa using halone stored hget
      obtain ⟨e, he, rfl⟩ := get_eq_some.mp hget
      exact hs.read hc (lookup_eq_some.mp he).1 hnone

theorem guessing_step {a : Action SignupRequest Drawn ℕ} (hs : Guessing s.shared s.calls)
    (halone : ReadsAlone s a) (h : (signups argon).step s a = some t) :
    Guessing t.shared t.calls := by
  cases a with
  | start request =>
    obtain rfl := Option.some.inj h
    have hnew : ∃ c, startOperation argon s.shared request = (s.shared, some c) ∧
        c.inHand = none ∧ c.Sound s.shared := by
      cases request <;> exact ⟨_, rfl, rfl, by first | rfl | trivial⟩
    obtain ⟨c, hc, hhand, hsound⟩ := hnew
    simp only [signups, hc, Option.toList_some]
    have hholds : ∀ code, c.holds code = false := by simp [SignupCall.holds, hhand]
    refine ⟨fun key e he => ?_, fun d hd => ?_, fun code => ?_, hs.unissued, hs.bounded⟩
    · exact (hs.entries key e he).mono (List.prefix_refl _) rfl
        fun d hd h => ⟨d, List.mem_append_left _ hd, h⟩
    · rcases List.mem_append.mp hd with hold | hnew
      · exact hs.sound d hold
      · obtain rfl := List.mem_singleton.mp hnew
        exact hsound
    · simpa [hholds code] using hs.alone code
  | advance i drawn =>
    obtain ⟨c, hc, rfl⟩ := Option.map_eq_some_iff.mp h
    exact hs.resume hc halone
  | environment elapsed =>
    obtain rfl := Option.some.inj h
    exact ⟨fun key e he => (hs.entries key e he).mono (List.prefix_refl _) rfl
      fun d hd h => ⟨d, hd, h⟩, fun d hd => Sound.mono (hs.sound d hd) (List.prefix_refl _)
      fun _ _ => rfl, hs.alone, hs.unissued, hs.bounded⟩

/-- Over all interleavings of the operations on all e-mails, time passing between any two
commands: while no check reads a record whose code another check has in hand, no code meets
more than `MAX_OTP_ATTEMPTS` wrong guesses. -/
theorem guesses_bounded_alone (now : ℤ) (as : List (Action SignupRequest Drawn ℕ))
    (halone : Guarded (signups argon).step ReadsAlone (noSignups now) as) :
    Throughout (signups argon).step (fun s => ∀ code, s.shared.guesses code ≤ MAX_OTP_ATTEMPTS)
      (noSignups now) as := by
  have hstart : Guessing (noSignups now).shared (noSignups now).calls := by
    refine ⟨?_, by simp [noSignups], by simp [noSignups], fun _ _ => rfl, fun _ => Nat.zero_le _⟩
    intro key e he
    cases he
  have hrun := throughout_of_guarded
    (I := fun s : State Signups SignupCall => Guessing s.shared s.calls)
    (fun s a t hs ha h => guessing_step hs ha h) hstart halone
  exact hrun.mono fun s hs => hs.bounded

end Run

/-- A hash that is its text. -/
def plain : Argon where
  hash _ text := text
  verify hashed text := .ok (hashed = text)

def drawn : Drawn := ⟨"417293", "salt-1", "salt-2"⟩

/-- A signup whose code is stored. -/
def oneSignup : List (Action SignupRequest Drawn ℕ) :=
  [.start (.startSignup ⟨"A@b.c", "Ada", "Analytical", "starter", "correct horse"⟩ drawn),
    .advance 0 drawn]

/-- Wrong guesses, one after another: each reads, compares, asks for the time to live and writes
back before the next. -/
def guessesInTurn : List (Action SignupRequest Drawn ℕ) :=
  (List.replicate 2 [.start (.checkOtp "a@b.c" "000000"), .advance 0 drawn,
    .advance 0 drawn, .environment 1000, .advance 0 drawn, .advance 0 drawn]).flatten

theorem guesses_bounded_in_turn :
    (exec (signups plain).step (noSignups 0) (oneSignup ++ guessesInTurn)).map
      (fun s => s.shared.guesses 0) = some 2 ∧
    Throughout (signups plain).step (fun s => ∀ code, s.shared.guesses code ≤ MAX_OTP_ATTEMPTS)
      (noSignups 0) (oneSignup ++ guessesInTurn) := by
  have halone : Guarded (signups plain).step ReadsAlone (noSignups 0)
      (oneSignup ++ guessesInTurn) := by decide +kernel
  exact ⟨by decide +kernel, guesses_bounded_alone 0 _ halone⟩

/-- Six wrong guesses at once: all read the record before one of them writes back. -/
def guessesAtOnce : List (Action SignupRequest Drawn ℕ) :=
  List.replicate 6 (.start (.checkOtp "a@b.c" "000000")) ++
    List.replicate 12 (.advance 0 drawn)

/-- The sixth is compared with a code that can still be accepted. -/
theorem guesses_lost :
    (exec (signups plain).step (noSignups 0) (oneSignup ++ guessesAtOnce)).map (fun s =>
      (s.shared.guesses 0, (get s.shared.keys s.shared.now
        (pendingKey "a@b.c")).map Stored.code)) = some (6, some 0) ∧
    ¬Throughout (signups plain).step (fun s => ∀ code, s.shared.guesses code ≤ MAX_OTP_ATTEMPTS)
      (noSignups 0) (oneSignup ++ guessesAtOnce) := by
  have hsix : (exec (signups plain).step (noSignups 0) (oneSignup ++ guessesAtOnce)).map (fun s =>
      (s.shared.guesses 0, (get s.shared.keys s.shared.now
        (pendingKey "a@b.c")).map Stored.code)) = some (6, some 0) := by decide +kernel
  refine ⟨hsix, fun h => ?_⟩
  obtain ⟨s, hs, hcount⟩ := Option.map_eq_some_iff.mp hsix
  have hbound := h.exec hs 0
  have hguesses : s.shared.guesses 0 = 6 := congrArg Prod.fst hcount
  rw [hguesses] at hbound
  exact absurd hbound (by decide)

end HeirsOcr.Signup

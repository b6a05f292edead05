import HeirsOcr.ExpiringKeys
import HeirsOcr.Interleaving
import HeirsOcr.Login

/-!
# How long a failure stays on record

A failed attempt raises a counter in Redis by `INCR`, and the attempt that made the counter gives
it its time to live by an `EXPIRE` of its own. What comes between the two, a crash or an error of
Redis, leaves a counter that nothing ever takes away but a success, and every later failure finds
it there and lets it be.
-/
namespace HeirsOcr.ThrottleExpiry
open ExpiringKeys Interleaving StepMachine
open Login (Bucket MAX_PER_EMAIL MAX_PER_IP emailKey ipKey)

def WINDOW_SECONDS : ℤ := 15 * 60

/-- The counters in Redis, and the clock in milliseconds. -/
structure Throttle where
  keys : Keyspace Bucket ℕ
  now : ℤ

inductive ThrottleRequest where
  | bump (key : Bucket)
  | clear (scope ip email : String)
  deriving DecidableEq, Repr

/-- A call by its next command. -/
inductive ThrottleCall where
  | incr (key : Bucket)
  | expire (key : Bucket)
  | del (keys : List Bucket)
  deriving DecidableEq, Repr

/-- What becomes of a command: it is answered, it runs and the caller never hears of it, or it
does not run. After the latter two the call is over. -/
inductive Outcome where
  | answered | lost | refused
  deriving DecidableEq, Repr

/-- The two bumps of `recordLoginFailure` run side by side. -/
def recordLoginFailure (scope ip email : String) : List ThrottleRequest :=
  [.bump (ipKey scope ip), .bump (emailKey scope email)]

def loginAllowed (s : Throttle) (scope ip email : String) : Bool :=
  (get s.keys s.now (ipKey scope ip)).getD 0 < MAX_PER_IP &&
    (get s.keys s.now (emailKey scope email)).getD 0 < MAX_PER_EMAIL

def firstCommand : ThrottleRequest → ThrottleCall
  | .bump key => .incr key
  | .clear scope ip email => .del [ipKey scope ip, emailKey scope email]

def resumeCall (s : Throttle) : ThrottleCall → Outcome → Throttle × Option ThrottleCall
  | _, .refused => (s, none)
  | .incr key, .lost => ({ s with keys := (incr s.keys s.now key).1 }, none)
  | .incr key, .answered =>
    ({ s with keys := (incr s.keys s.now key).1 },
      if (incr s.keys s.now key).2 = 1 then some (.expire key) else none)
  | .expire key, _ => ({ s with keys := expire s.keys s.now key WINDOW_SECONDS }, none)
  | .del doomed, _ => ({ s with keys := del s.keys doomed }, none)

/-- Any number of bumps and clears, and the passing of time. -/
def throttle : System Throttle ThrottleCall ThrottleRequest Outcome ℕ where
  start s request := (s, some (firstCommand request))
  resume := resumeCall
  environment s ms := { s with now := s.now + ms }

/-- The counter is gone within the window. -/
def HasLifetime (now : ℤ) (e : Entry ℕ) : Prop :=
  ∃ t ∈ e.expiresAt, t ≤ now + 1000 * WINDOW_SECONDS

instance (now : ℤ) (e : Entry ℕ) : Decidable (HasLifetime now e) :=
  inferInstanceAs (Decidable (∃ t ∈ e.expiresAt, _))

/-- Every counter has a lifetime within the window, but for those a bump under way is about to
give one. -/
def EachExpires (s : State Throttle ThrottleCall) : Prop :=
  ∀ key, ∀ e ∈ lookup s.shared.keys s.shared.now key,
    HasLifetime s.shared.now e ∨ .expire key ∈ s.calls

/-- The condition of the end of a call: it owes no counter its lifetime, or is not the only one
to. An `INCR` whose answer is lost owes one when it made the counter, an `EXPIRE` that does not
run when the counter has none. -/
def OwesNothing (s : State Throttle ThrottleCall) (i : ℕ) : ThrottleCall → Outcome → Prop
  | .incr key, .lost =>
    (lookup s.shared.keys s.shared.now key).isSome ∨ .expire key ∈ s.calls.eraseIdx i
  | .expire key, .refused =>
    ∀ e ∈ lookup s.shared.keys s.shared.now key,
      HasLifetime s.shared.now e ∨ .expire key ∈ s.calls.eraseIdx i
  | _, _ => True

def NoneOwed (s : State Throttle ThrottleCall) : Action ThrottleRequest Outcome ℕ → Prop
  | .advance i outcome => ∀ c ∈ s.calls[i]?, OwesNothing s i c outcome
  | .start _ | .environment _ => True

instance (s : State Throttle ThrottleCall) (i : ℕ) :
    ∀ c outcome, Decidable (OwesNothing s i c outcome)
  | .incr key, .lost => inferInstanceAs (Decidable
      ((lookup s.shared.keys s.shared.now key).isSome ∨ .expire key ∈ s.calls.eraseIdx i))
  | .expire key, .refused => inferInstanceAs (Decidable
      (∀ e ∈ lookup s.shared.keys s.shared.now key,
        HasLifetime s.shared.now e ∨ .expire key ∈ s.calls.eraseIdx i))
  | .incr _, .answered | .incr _, .refused | .expire _, .answered | .expire _, .lost
  | .del _, .answered | .del _, .lost | .del _, .refused => inferInstanceAs (Decidable True)

instance (s : State Throttle ThrottleCall) : ∀ a, Decidable (NoneOwed s a)
  | .advance i outcome =>
    inferInstanceAs (Decidable (∀ c ∈ s.calls[i]?, OwesNothing s i c outcome))
  | .start _ | .environment _ => inferInstanceAs (Decidable True)

section Step

variable {s : State Throttle ThrottleCall} {key : Bucket} {i : ℕ}

theorem HasLifetime.later {now now' : ℤ} {e : Entry ℕ} (h : HasLifetime now e) (hle : now ≤ now') :
    HasLifetime now' e := by
  obtain ⟨t, ht, hbound⟩ := h
  exact ⟨t, ht, by omega⟩

/-- Calls that are under way still are after a call that owes nothing has moved. -/
theorem mem_others {c : ThrottleCall} (hc : s.calls[i]? = some c) (hne : c ≠ .expire key)
    (hmem : .expire key ∈ s.calls) : .expire key ∈ s.calls.eraseIdx i := by
  rcases (mem_iff_eq_or_mem_eraseIdx hc).mp hmem with heq | hother
  · exact absurd heq.symm hne
  · exact hother

theorem eachExpires_environment (hs : EachExpires s) (ms : ℕ) :
    EachExpires ⟨{ s.shared with now := s.shared.now + ms }, s.calls⟩ := by
  intro key e he
  have hle : s.shared.now ≤ s.shared.now + ms := by omega
  exact (hs key e (lookup_anti hle he)).imp_left fun h => h.later hle

/-- After an `INCR`, whether anybody hears of it or not. -/
theorem eachExpires_incr (hs : EachExpires s) (hc : s.calls[i]? = some (.incr key))
    (next : Option ThrottleCall) :
    EachExpires ⟨{ s.shared with keys := (incr s.shared.keys s.shared.now key).1 },
        s.calls.eraseIdx i ++ next.toList⟩ ↔
      (lookup s.shared.keys s.shared.now key).isSome ∨
        .expire key ∈ s.calls.eraseIdx i ++ next.toList := by
  have hothers {key' : Bucket} (hmem : .expire key' ∈ s.calls) :
      .expire key' ∈ s.calls.eraseIdx i ++ next.toList :=
    List.mem_append_left _ (mem_others hc (by simp) hmem)
  constructor
  · intro h
    cases he : lookup s.shared.keys s.shared.now key with
    | some e => exact .inl rfl
    | none =>
      have hnew : lookup (incr s.shared.keys s.shared.now key).1 s.shared.now key =
          some ⟨1, none⟩ := by simp [lookup_incr, he]
      rcases h key _ hnew with ⟨t, ht, -⟩ | hmem
      · cases ht
      · exact .inr hmem
  · intro h key' e he
    dsimp only at he ⊢
    rw [lookup_incr] at he
    split_ifs at he with hkey
    · subst hkey
      cases hold : lookup s.shared.keys s.shared.now key' with
      | none =>
        rw [hold] at h
        exact .inr (h.resolve_left (by simp))
      | some e₀ =>
        rw [hold] at he
        obtain rfl := Option.some.inj he
        exact (hs key' e₀ hold).imp id hothers
    · exact (hs key' e he).imp id hothers

/-- After an `EXPIRE` that ran. -/
theorem eachExpires_expire (hs : EachExpires s) (hc : s.calls[i]? = some (.expire key)) :
    EachExpires ⟨{ s.shared with
        keys := expire s.shared.keys s.shared.now key WINDOW_SECONDS }, s.calls.eraseIdx i⟩ := by
  intro key' e he
  have hpos : (0 : ℤ) ≤ WINDOW_SECONDS := by decide
  dsimp only at he ⊢
  rw [lookup_expire hpos] at he
  obtain ⟨e₀, he₀, rfl⟩ := Option.map_eq_some_iff.mp he
  split_ifs with hkey
  · exact .inl ⟨_, rfl, le_rfl⟩
  · refine (hs key' e₀ he₀).imp id fun hmem => mem_others hc ?_ hmem
    simpa using Ne.symm hkey

/-- After an `EXPIRE` that did not run. -/
theorem eachExpires_refused (hs : EachExpires s) (hc : s.calls[i]? = some (.expire key)) :
    EachExpires ⟨s.shared, s.calls.eraseIdx i⟩ ↔
      ∀ e ∈ lookup s.shared.keys s.shared.now key,
        HasLifetime s.shared.now e ∨ .expire key ∈ s.calls.eraseIdx i := by
  constructor
  · intro h
    exact h key
  · intro h key' e he
    by_cases hkey : key' = key
    · subst hkey
      exact h e he
    · refine (hs key' e he).imp id fun hmem => mem_others hc ?_ hmem
      simpa using Ne.symm hkey

/-- After a call that owes nothing has ended and nothing was written. -/
theorem eachExpires_forget (hs : EachExpires s) {c : ThrottleCall} (hc : s.calls[i]? = some c)
    (hne : ∀ key, c ≠ .expire key) : EachExpires ⟨s.shared, s.calls.eraseIdx i⟩ :=
  fun key e he => (hs key e he).imp id fun hmem => mem_others hc (hne key) hmem

theorem eachExpires_del (hs : EachExpires s) {doomed : List Bucket}
    (hc : s.calls[i]? = some (.del doomed)) :
    EachExpires ⟨{ s.shared with keys := del s.shared.keys doomed }, s.calls.eraseIdx i⟩ := by
  intro key e he
  have hold : lookup s.shared.keys s.shared.now key = some e := (lookup_del_eq_some.mp he).1
  exact (hs key e hold).imp id fun hmem => mem_others hc (by simp) hmem

/-- The step lemma: out of a state in which each counter expires, a step leads to one exactly when
it ends no call that owes a counter its lifetime. -/
theorem eachExpires_step {a : Action ThrottleRequest Outcome ℕ}
    {t : State Throttle ThrottleCall} (hs : EachExpires s) (h : throttle.step s a = some t) :
    EachExpires t ↔ NoneOwed s a := by
  cases a with
  | start request =>
    obtain rfl := Option.some.inj h
    refine iff_of_true (fun key e he => ?_) trivial
    exact (hs key e he).imp id fun hmem => List.mem_append_left _ hmem
  | environment ms =>
    obtain rfl := Option.some.inj h
    exact iff_of_true (eachExpires_environment hs ms) trivial
  | advance i outcome =>
    obtain ⟨c, hc, rfl⟩ := Option.map_eq_some_iff.mp h
    have hcond : NoneOwed s (.advance i outcome) ↔ OwesNothing s i c outcome := by
      simp [NoneOwed, hc]
    rw [hcond]
    cases c with
    | incr key =>
      cases outcome with
      | answered =>
        refine iff_of_true ((eachExpires_incr hs hc _).mpr ?_) trivial
        cases he : lookup s.shared.keys s.shared.now key with
        | none => simp [throttle, resumeCall, incr, he]
        | some e => exact .inl rfl
      | lost =>
        have hafter := eachExpires_incr hs hc none
        simpa [throttle, resumeCall, OwesNothing] using hafter
      | refused =>
        have hafter := eachExpires_forget hs hc (by simp)
        exact iff_of_true (by simpa [throttle, resumeCall] using hafter) trivial
    | expire key =>
      cases outcome with
      | answered =>
        have hafter := eachExpires_expire hs hc
        exact iff_of_true (by simpa [throttle, resumeCall] using hafter) trivial
      | lost =>
        have hafter := eachExpires_expire hs hc
        exact iff_of_true (by simpa [throttle, resumeCall] using hafter) trivial
      | refused =>
        have hafter := eachExpires_refused hs hc
        simpa [throttle, resumeCall, OwesNothing] using hafter
    | del doomed =>
      cases outcome with
      | answered =>
        have hafter := eachExpires_del hs hc
        exact iff_of_true (by simpa [throttle, resumeCall] using hafter) trivial
      | lost =>
        have hafter := eachExpires_del hs hc
        exact iff_of_true (by simpa [throttle, resumeCall] using hafter) trivial
      | refused =>
        have hafter := eachExpires_forget hs hc (by simp)
        exact iff_of_true (by simpa [throttle, resumeCall] using hafter) trivial

end Step

/-- A counter without a lifetime that has reached the limit shuts its e-mail out for good. -/
theorem refused_for_good {s : Throttle} {scope email : String} {e : Entry ℕ}
    (hkey : s.keys (emailKey scope email) = some e) (hnone : e.expiresAt = none)
    (hfull : MAX_PER_EMAIL ≤ e.value) (ip : String) (ms : ℕ) :
    loginAllowed (throttle.environment s ms) scope ip email = false := by
  have hlive : e.live (s.now + ms) = true := live_iff.mpr (by simp [hnone])
  have hget : get s.keys (s.now + ms) (emailKey scope email) = some e.value :=
    get_eq_some.mpr ⟨e, lookup_eq_some.mpr ⟨hkey, hlive⟩, rfl⟩
  simp [loginAllowed, throttle, hget, hfull]

/-- In all interleavings of the commands of bumps and clears, with any of them lost or refused: in
every state each counter has a lifetime within the window, or is about to get one, exactly when no
call ends that alone owes a counter its lifetime. -/
theorem each_expires_iff (now : ℤ) (as : List (Action ThrottleRequest Outcome ℕ)) :
    Throughout throttle.step EachExpires ⟨⟨fun _ => none, now⟩, []⟩ as ↔
      Guarded throttle.step NoneOwed ⟨⟨fun _ => none, now⟩, []⟩ as := by
  have hstart : EachExpires ⟨⟨fun _ => none, now⟩, []⟩ := by
    intro key e he
    simp [lookup] at he
  have hiff (s : State Throttle ThrottleCall) (a : Action ThrottleRequest Outcome ℕ)
      (t : State Throttle ThrottleCall) (hs : EachExpires s) (h : throttle.step s a = some t) :
      EachExpires t ↔ NoneOwed s a := eachExpires_step hs h
  have hkeep (s : State Throttle ThrottleCall) (a : Action ThrottleRequest Outcome ℕ)
      (t : State Throttle ThrottleCall) (hs : EachExpires s) (ha : NoneOwed s a)
      (h : throttle.step s a = some t) : EachExpires t := (hiff s a t hs h).mpr ha
  constructor
  · intro h
    exact (along_iff_guarded hiff hkeep hstart).mp h.2
  · intro h
    exact ⟨hstart, (along_iff_guarded hiff hkeep hstart).mpr h⟩

/-- A failed attempt whose process stops after the first `INCR`: the counter has no lifetime. -/
theorem counter_stays : ¬ ∀ as : List (Action ThrottleRequest Outcome ℕ),
    Throughout throttle.step EachExpires ⟨⟨fun _ => none, 0⟩, []⟩ as := by
  intro hall
  have hrun := hall ((recordLoginFailure "tenant" "192.0.2.7" "a@x").map .start ++
    [.advance 0 .lost])
  have hone := hrun.mono fun s hs => hs (ipKey "tenant" "192.0.2.7")
  revert hone
  decide +kernel

end HeirsOcr.ThrottleExpiry

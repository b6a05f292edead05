import HeirsOcr.PasswordReset

/-!
# One live link for each user

A start revokes the link the user's pointer leads to, so at most one link is live as long as the
pointer leads to the one that is. Two starts side by side read the same pointer, and each issues a
link. The `DEL` of a redemption, or that of a discard whose mail has failed late, takes away
whatever pointer there is, also that of a newer link, which no start will then find.
-/
namespace HeirsOcr.PasswordReset
open ExpiringKeys Interleaving StepMachine

section Condition

variable (opts : Options) (u : String)

/-- A start for the user that has read the pointer. -/
def ResetCall.startsFor : ResetCall → Bool
  | .delPrevious user _ _ | .setToken user _ | .setPointer user _ _ => user.id = u
  | .getPointer _ _ | .getDel _ | .delPointer _ | .delBoth _ _ => false

/-- The condition of a command, for the links of one user. The `GET` of a start finds no other
start that has read the pointer, or is stopped by the cooldown. A `DEL` of the pointer finds none,
or one to a token that is gone or that it takes away too. -/
def ResetCall.Alone (s : State ResetStore ResetCall) : ResetCall → Prop
  | .getPointer user startedAt =>
    user.id = u → s.calls.countP (startsFor u) = 0 ∨
      ∃ p ∈ get s.shared.pointers s.shared.now u, (cooldown startedAt p).isSome
  | .delPointer userId =>
    userId = u → ∀ p ∈ get s.shared.pointers s.shared.now u,
      get s.shared.tokens s.shared.now p.tokenHash = none
  | .delBoth token userId =>
    userId = u → ∀ p ∈ get s.shared.pointers s.shared.now u,
      p.tokenHash = opts.hashToken token ∨ get s.shared.tokens s.shared.now p.tokenHash = none
  | .delPrevious _ _ _ | .setToken _ _ | .setPointer _ _ _ | .getDel _ => True

instance (s : State ResetStore ResetCall) : ∀ c : ResetCall, Decidable (c.Alone opts u s)
  | .getPointer user startedAt => inferInstanceAs (Decidable (user.id = u →
      s.calls.countP (ResetCall.startsFor u) = 0 ∨
        ∃ p ∈ get s.shared.pointers s.shared.now u, (cooldown startedAt p).isSome))
  | .delPointer userId => inferInstanceAs (Decidable (userId = u →
      ∀ p ∈ get s.shared.pointers s.shared.now u,
        get s.shared.tokens s.shared.now p.tokenHash = none))
  | .delBoth token userId => inferInstanceAs (Decidable (userId = u →
      ∀ p ∈ get s.shared.pointers s.shared.now u,
        p.tokenHash = opts.hashToken token ∨
          get s.shared.tokens s.shared.now p.tokenHash = none))
  | .delPrevious _ _ _ | .setToken _ _ | .setPointer _ _ _ | .getDel _ =>
    inferInstanceAs (Decidable True)

def Undisturbed (s : State ResetStore ResetCall) : Action ResetRequest Unit ℕ → Prop
  | .advance i _ => ∀ c ∈ s.calls[i]?, c.Alone opts u s
  | .start _ | .environment _ => True

instance (s : State ResetStore ResetCall) : ∀ a, Decidable (Undisturbed opts u s a)
  | .advance i _ => inferInstanceAs (Decidable (∀ c ∈ s.calls[i]?, c.Alone opts u s))
  | .start _ | .environment _ => inferInstanceAs (Decidable True)

end Condition

section Invariant

variable (u : String)

/-- A token of the user that can be redeemed. -/
def Live (m : ResetStore) (tokenHash : String) (e : Entry PasswordResetRecord) : Prop :=
  lookup m.tokens m.now tokenHash = some e ∧ e.value.userId = u

/-- The user's pointer leads to the token and lasts as long. -/
def PointedAt (m : ResetStore) (tokenHash : String) (e : Entry PasswordResetRecord) : Prop :=
  ∃ p, lookup m.pointers m.now u = some p ∧ p.value.tokenHash = tokenHash ∧
    ∀ t ∈ p.expiresAt, ∃ t' ∈ e.expiresAt, t' ≤ t

/-- What a start for the user relies on after it has read the pointer. -/
def ResetCall.Expects (m : ResetStore) : ResetCall → Prop
  | .delPrevious user _ previous =>
    user.id = u → ∀ tokenHash e, Live u m tokenHash e → tokenHash = previous.tokenHash
  | .setToken user _ => user.id = u → ∀ tokenHash e, ¬Live u m tokenHash e
  | .setPointer user _ tokenHash => user.id = u → m.issued u = some tokenHash
  | .getPointer _ _ | .getDel _ | .delPointer _ | .delBoth _ _ => True

structure Pointed (s : State ResetStore ResetCall) : Prop where
  latest : ∀ tokenHash e, Live u s.shared tokenHash e → s.shared.issued u = some tokenHash
  lasting : ∀ tokenHash e, Live u s.shared tokenHash e →
    ∃ t ∈ e.expiresAt, t ≤ s.shared.now + 1000 * RESET_TTL_SECONDS
  pointed : ∀ tokenHash e, Live u s.shared tokenHash e → PointedAt u s.shared tokenHash e ∨
    ∃ c ∈ s.calls, c.startsFor u
  expects : ∀ c ∈ s.calls, c.Expects u s.shared
  one : s.calls.countP (ResetCall.startsFor u) ≤ 1

end Invariant

section Calm

variable {u : String} {s : State ResetStore ResetCall} {i : ℕ} {c : ResetCall}
  {next : ResetStore × Option ResetCall}

theorem ResetCall.Expects.mono {m m' : ResetStore} (h : c.Expects u m)
    (hissued : m'.issued u = m.issued u)
    (hlive : ∀ tokenHash e, Live u m' tokenHash e → Live u m tokenHash e) :
    c.Expects u m' := by
  cases c with
  | delPrevious user startedAt previous =>
    exact fun hu tokenHash e he => h hu tokenHash e (hlive tokenHash e he)
  | setToken user startedAt =>
    exact fun hu tokenHash e he => h hu tokenHash e (hlive tokenHash e he)
  | setPointer user startedAt tokenHash => exact fun hu => hissued.trans (h hu)
  | getPointer user startedAt => trivial
  | getDel token => trivial
  | delPointer userId => trivial
  | delBoth token userId => trivial

/-- What such a command may do: it brings no token of the user to life, leaves the pointer to those
there are, and ends a start of the user's only with the pointer in place. -/
structure Calm (u : String) (s : State ResetStore ResetCall) (c : ResetCall)
    (next : ResetStore × Option ResetCall) : Prop where
  now : next.1.now = s.shared.now
  issued : next.1.issued u = s.shared.issued u
  live : ∀ tokenHash e, Live u next.1 tokenHash e → Live u s.shared tokenHash e
  pointed : ∀ tokenHash e, Live u next.1 tokenHash e → PointedAt u s.shared tokenHash e →
    PointedAt u next.1 tokenHash e
  ends : c.startsFor u = true → (∃ c' ∈ next.2, c'.startsFor u = true) ∨
    ∀ tokenHash e, Live u next.1 tokenHash e → PointedAt u next.1 tokenHash e
  expects : ∀ c' ∈ next.2, c'.Expects u next.1
  one : ∀ c' ∈ next.2, c'.startsFor u = true →
    c.startsFor u = true ∨ s.calls.countP (ResetCall.startsFor u) = 0

theorem Calm.pointed_next (h : Calm u s c next) (hs : Pointed u s) (hc : s.calls[i]? = some c) :
    Pointed u ⟨next.1, s.calls.eraseIdx i ++ next.2.toList⟩ where
  latest tokenHash e he := h.issued.trans (hs.latest tokenHash e (h.live tokenHash e he))
  lasting tokenHash e he := by
    have hlasts := hs.lasting tokenHash e (h.live tokenHash e he)
    rwa [← h.now] at hlasts
  pointed tokenHash e he := by
    rcases hs.pointed tokenHash e (h.live tokenHash e he) with hptr | ⟨c', hc', hstart⟩
    · exact .inl (h.pointed tokenHash e he hptr)
    · rcases (mem_iff_eq_or_mem_eraseIdx hc).mp hc' with rfl | hother
      · rcases h.ends hstart with ⟨c'', hc'', hstart''⟩ | hall
        · exact .inr ⟨c'', List.mem_append_right _ (Option.mem_toList.mpr hc''), hstart''⟩
        · exact .inl (hall tokenHash e he)
      · exact .inr ⟨c', List.mem_append_left _ hother, hstart⟩
  expects c' hc' := by
    rcases List.mem_append.mp hc' with hold | hnew
    · exact (hs.expects c' (List.eraseIdx_subset hold)).mono h.issued h.live
    · exact h.expects c' (Option.mem_toList.mp hnew)
  one := by
    have hcount := countP_advance (p := ResetCall.startsFor u) hc next.2
    have hle := hs.one
    cases hnext : next.2 with
    | none =>
      simp only [hnext, Option.toList_none, List.countP_nil] at hcount ⊢
      split_ifs at hcount <;> omega
    | some c' =>
      simp only [hnext, Option.toList_some, List.countP_singleton] at hcount ⊢
      by_cases hstart : c'.startsFor u = true
      · rcases h.one c' hnext hstart with hown | hzero
        · rw [if_pos hown, if_pos hstart] at hcount
          omega
        · rw [if_pos hstart] at hcount
          omega
      · rw [if_neg hstart] at hcount
        omega

/-- A command that writes no pointer, and moves no start of the user's to its end. -/
theorem calm_of_pointers (hnow : next.1.now = s.shared.now)
    (hissued : next.1.issued u = s.shared.issued u)
    (hpointers : next.1.pointers = s.shared.pointers)
    (hlive : ∀ tokenHash e, Live u next.1 tokenHash e → Live u s.shared tokenHash e)
    (hends : c.startsFor u = true → ∃ c' ∈ next.2, c'.startsFor u = true)
    (hexpects : ∀ c' ∈ next.2, c'.Expects u next.1)
    (hone : ∀ c' ∈ next.2, c'.startsFor u = true →
      c.startsFor u = true ∨ s.calls.countP (ResetCall.startsFor u) = 0) : Calm u s c next where
  now := hnow
  issued := hissued
  live := hlive
  pointed tokenHash e he hptr := by
    rw [PointedAt, hnow, hpointers]
    exact hptr
  ends hstart := .inl (hends hstart)
  expects := hexpects
  one := hone

end Calm

section Commands

variable {u : String} {s : State ResetStore ResetCall} {i : ℕ}

theorem expects_of_not_startsFor {c : ResetCall} (h : c.startsFor u = false) (m : ResetStore) :
    c.Expects u m := by
  cases c with
  | delPrevious user startedAt previous => exact fun hu => by simp [ResetCall.startsFor, hu] at h
  | setToken user startedAt => exact fun hu => by simp [ResetCall.startsFor, hu] at h
  | setPointer user startedAt tokenHash => exact fun hu => by simp [ResetCall.startsFor, hu] at h
  | getPointer user startedAt => trivial
  | getDel token => trivial
  | delPointer userId => trivial
  | delBoth token userId => trivial

/-- Without a start under way the pointer leads to what is live. -/
theorem Pointed.pointedAt (hs : Pointed u s)
    (hnone : s.calls.countP (ResetCall.startsFor u) = 0) {tokenHash : String}
    {e : Entry PasswordResetRecord} (he : Live u s.shared tokenHash e) :
    PointedAt u s.shared tokenHash e := by
  rcases hs.pointed tokenHash e he with hptr | ⟨c, hc, hstart⟩
  · exact hptr
  · exact absurd hstart (List.countP_eq_zero.mp hnone c hc)

theorem calm_getPointer (opts : Options) (hs : Pointed u s) {user : ResetUser} {startedAt : ℤ}
    (hok : ResetCall.Alone opts u s (.getPointer user startedAt)) :
    Calm u s (.getPointer user startedAt)
      (resumeReset opts s.shared (.getPointer user startedAt) ()) := by
  simp only [resumeReset]
  split
  case h_1 hget =>
    have hzero (hu : user.id = u) : s.calls.countP (ResetCall.startsFor u) = 0 := by
      refine (hok hu).resolve_right ?_
      rintro ⟨p, hp, -⟩
      rw [← hu, hget] at hp
      cases hp
    refine calm_of_pointers rfl rfl rfl (fun _ _ h => h) (by simp [ResetCall.startsFor]) ?_ ?_
    · intro c' hc'
      obtain rfl := Option.some.inj hc'
      intro hu tokenHash e he
      obtain ⟨p, hp, -⟩ := hs.pointedAt (hzero hu) he
      rw [get_eq_none, hu, hp] at hget
      cases hget
    · intro c' hc' hstart
      obtain rfl := Option.some.inj hc'
      exact .inr (hzero (by simpa [ResetCall.startsFor] using hstart))
  case h_2 previous hget =>
    split_ifs with hcool
    · exact calm_of_pointers rfl rfl rfl (fun _ _ h => h) (by simp [ResetCall.startsFor])
        (by simp) (by simp)
    · have hzero (hu : user.id = u) : s.calls.countP (ResetCall.startsFor u) = 0 := by
        refine (hok hu).resolve_right ?_
        rintro ⟨p, hp, hcool'⟩
        rw [← hu, hget] at hp
        obtain rfl := Option.some.inj hp
        exact hcool hcool'
      refine calm_of_pointers rfl rfl rfl (fun _ _ h => h) (by simp [ResetCall.startsFor]) ?_ ?_
      · intro c' hc'
        obtain rfl := Option.some.inj hc'
        intro hu tokenHash e he
        obtain ⟨p, hp, rfl, -⟩ := hs.pointedAt (hzero hu) he
        obtain ⟨p', hp', rfl⟩ := get_eq_some.mp hget
        rw [hu, hp] at hp'
        rw [Option.some.inj hp']
      · intro c' hc' hstart
        obtain rfl := Option.some.inj hc'
        exact .inr (hzero (by simpa [ResetCall.startsFor] using hstart))

theorem calm_delPrevious (opts : Options) (hs : Pointed u s) {user : ResetUser} {startedAt : ℤ}
    {previous : UserPointer} (hc : .delPrevious user startedAt previous ∈ s.calls) :
    Calm u s (.delPrevious user startedAt previous)
      (resumeReset opts s.shared (.delPrevious user startedAt previous) ()) := by
  have hlive (tokenHash : String) (e : Entry PasswordResetRecord)
      (he : Live u (resumeReset opts s.shared (.delPrevious user startedAt previous) ()).1
        tokenHash e) : Live u s.shared tokenHash e ∧ tokenHash ≠ previous.tokenHash := by
    obtain ⟨hold, hne⟩ := lookup_del_eq_some.mp he.1
    exact ⟨⟨hold, he.2⟩, by simpa using hne⟩
  refine calm_of_pointers rfl rfl rfl (fun tokenHash e he => (hlive tokenHash e he).1) ?_ ?_ ?_
  · intro hstart
    exact ⟨_, rfl, hstart⟩
  · intro c' hc'
    obtain rfl := Option.some.inj hc'
    intro hu tokenHash e he
    obtain ⟨hold, hne⟩ := hlive tokenHash e he
    exact hne (hs.expects _ hc hu tokenHash e hold)
  · intro c' hc' hstart
    obtain rfl := Option.some.inj hc'
    exact .inl hstart

/-- The token of another user. -/
theorem calm_setToken (opts : Options) {user : ResetUser} {startedAt : ℤ} (hne : user.id ≠ u) :
    Calm u s (.setToken user startedAt)
      (resumeReset opts s.shared (.setToken user startedAt) ()) := by
  have hnot : ResetCall.startsFor u (.setToken user startedAt) = false := by
    simp [ResetCall.startsFor, hne]
  refine calm_of_pointers rfl (Function.update_of_ne (Ne.symm hne) _ _) rfl ?_ ?_ ?_ ?_
  · rintro tokenHash e ⟨he, huser⟩
    simp only [resumeReset] at he
    rw [lookup_setEx (by decide)] at he
    split_ifs at he
    · obtain rfl := Option.some.inj he
      exact absurd huser hne
    · exact ⟨he, huser⟩
  · intro hstart
    rw [hnot] at hstart
    cases hstart
  · intro c' hc'
    obtain rfl := Option.some.inj hc'
    exact fun hu => absurd hu hne
  · intro c' hc' hstart
    obtain rfl := Option.some.inj hc'
    exact absurd (by simpa [ResetCall.startsFor] using hstart) hne

/-- The token of the user: a start has the field to itself, and nothing is live. -/
theorem pointed_setToken (opts : Options) (hs : Pointed u s) {user : ResetUser} {startedAt : ℤ}
    (hc : s.calls[i]? = some (.setToken user startedAt)) (hu : user.id = u) :
    Pointed u ⟨(resumeReset opts s.shared (.setToken user startedAt) ()).1,
      s.calls.eraseIdx i ++
        (resumeReset opts s.shared (.setToken user startedAt) ()).2.toList⟩ := by
  have hstart : ResetCall.startsFor u (.setToken user startedAt) = true := by
    simp [ResetCall.startsFor, hu]
  have hnone := hs.expects _ (List.mem_of_getElem? hc) hu
  have hnew (tokenHash : String) (e : Entry PasswordResetRecord)
      (he : Live u (resumeReset opts s.shared (.setToken user startedAt) ()).1 tokenHash e) :
      tokenHash = opts.hashToken (opts.randomToken s.shared.drawn) ∧
        e.expiresAt = some (s.shared.now + 1000 * RESET_TTL_SECONDS) := by
    obtain ⟨he, huser⟩ := he
    simp only [resumeReset] at he
    rw [lookup_setEx (by decide)] at he
    split_ifs at he with hkey
    · obtain rfl := Option.some.inj he
      exact ⟨hkey, rfl⟩
    · exact absurd ⟨he, huser⟩ (hnone tokenHash e)
  refine ⟨fun tokenHash e he => ?_, fun tokenHash e he => ?_, fun tokenHash e he => ?_, ?_, ?_⟩
  · obtain ⟨rfl, -⟩ := hnew tokenHash e he
    simp [resumeReset, hu]
  · exact ⟨_, (hnew tokenHash e he).2, le_rfl⟩
  · refine .inr ⟨_, List.mem_append_right _ (List.mem_singleton.mpr rfl), ?_⟩
    simp [ResetCall.startsFor, hu]
  · intro c' hc'
    rcases List.mem_append.mp hc' with hold | hnext
    · exact expects_of_not_startsFor (not_of_mem_eraseIdx hs.one hc hstart hold) _
    · obtain rfl := List.mem_singleton.mp hnext
      intro _
      simp [resumeReset, hu]
  · have hcount := countP_advance (p := ResetCall.startsFor u) hc
      (resumeReset opts s.shared (.setToken user startedAt) ()).2
    have hle := hs.one
    have hnext : (resumeReset opts s.shared (.setToken user startedAt) ()).2.toList.countP
        (ResetCall.startsFor u) = 1 := by
      simp [resumeReset, ResetCall.startsFor, hu]
    rw [if_pos hstart, hnext] at hcount
    show List.countP (ResetCall.startsFor u) (s.calls.eraseIdx i ++ _) ≤ 1
    omega

theorem calm_setPointer (opts : Options) (hs : Pointed u s) {user : ResetUser} {startedAt : ℤ}
    {tokenHash : String} (hc : .setPointer user startedAt tokenHash ∈ s.calls) :
    Calm u s (.setPointer user startedAt tokenHash)
      (resumeReset opts s.shared (.setPointer user startedAt tokenHash) ()) := by
  by_cases hu : user.id = u
  · have hall (tokenHash' : String) (e : Entry PasswordResetRecord)
        (he : Live u s.shared tokenHash' e) :
        PointedAt u (resumeReset opts s.shared (.setPointer user startedAt tokenHash) ()).1
          tokenHash' e := by
      have hlatest := hs.latest tokenHash' e he
      rw [hs.expects _ hc hu] at hlatest
      obtain ⟨t', ht', hle⟩ := hs.lasting tokenHash' e he
      refine ⟨⟨⟨tokenHash, startedAt⟩, some (s.shared.now + 1000 * RESET_TTL_SECONDS)⟩, ?_,
        Option.some.inj hlatest, ?_⟩
      · simp only [resumeReset]
        rw [lookup_setEx (by decide), if_pos hu.symm]
      · rintro t ht
        obtain rfl := Option.some.inj ht
        exact ⟨t', ht', hle⟩
    exact ⟨rfl, rfl, fun _ _ h => h, fun tokenHash' e he _ => hall tokenHash' e he,
      fun _ => .inr hall, by simp [resumeReset], by simp [resumeReset]⟩
  · have hnot : ResetCall.startsFor u (.setPointer user startedAt tokenHash) = false := by
      simp [ResetCall.startsFor, hu]
    refine ⟨rfl, rfl, fun _ _ h => h, ?_, by simp [hnot], by simp [resumeReset],
      by simp [resumeReset]⟩
    rintro tokenHash' e - ⟨p, hp, hrest⟩
    refine ⟨p, ?_, hrest⟩
    simp only [resumeReset]
    rw [lookup_setEx (by decide), if_neg (Ne.symm hu)]
    exact hp

theorem calm_getDel (opts : Options) {token : String} :
    Calm u s (.getDel token) (resumeReset opts s.shared (.getDel token) ()) := by
  have hlive (m : ResetStore) (htokens : m.tokens = del s.shared.tokens [opts.hashToken token])
      (hnow : m.now = s.shared.now) (tokenHash : String) (e : Entry PasswordResetRecord)
      (he : Live u m tokenHash e) : Live u s.shared tokenHash e := by
    rw [Live, htokens, hnow] at he
    exact ⟨(lookup_del_eq_some.mp he.1).1, he.2⟩
  simp only [resumeReset]
  split
  case h_1 =>
    exact calm_of_pointers rfl rfl rfl (hlive _ rfl rfl) (by simp [ResetCall.startsFor])
      (by simp) (by simp)
  case h_2 record hget =>
    refine calm_of_pointers rfl rfl rfl (hlive _ rfl rfl) (by simp [ResetCall.startsFor])
      ?_ ?_
    · intro c' hc'
      obtain rfl := Option.some.inj hc'
      trivial
    · intro c' hc' hstart
      obtain rfl := Option.some.inj hc'
      cases hstart

theorem calm_delPointer (opts : Options) {userId : String}
    (hok : ResetCall.Alone opts u s (.delPointer userId)) :
    Calm u s (.delPointer userId) (resumeReset opts s.shared (.delPointer userId) ()) := by
  refine ⟨rfl, rfl, fun _ _ h => h, ?_, by simp [ResetCall.startsFor], by simp [resumeReset],
    by simp [resumeReset]⟩
  rintro tokenHash e ⟨he, -⟩ ⟨p, hp, hhash, hrest⟩
  by_cases hu : userId = u
  · have hdead := hok hu p.value (get_eq_some.mpr ⟨p, hp, rfl⟩)
    rw [get_eq_none, hhash, show lookup s.shared.tokens s.shared.now tokenHash = some e from he]
      at hdead
    cases hdead
  · exact ⟨p, lookup_del_eq_some.mpr ⟨hp, by simpa using Ne.symm hu⟩, hhash, hrest⟩

theorem calm_delBoth (opts : Options) {token userId : String}
    (hok : ResetCall.Alone opts u s (.delBoth token userId)) :
    Calm u s (.delBoth token userId) (resumeReset opts s.shared (.delBoth token userId) ()) := by
  have hlive (tokenHash : String) (e : Entry PasswordResetRecord)
      (he : Live u (resumeReset opts s.shared (.delBoth token userId) ()).1 tokenHash e) :
      Live u s.shared tokenHash e ∧ tokenHash ≠ opts.hashToken token := by
    obtain ⟨hold, hne⟩ := lookup_del_eq_some.mp he.1
    exact ⟨⟨hold, he.2⟩, by simpa using hne⟩
  refine ⟨rfl, rfl, fun tokenHash e he => (hlive tokenHash e he).1, ?_,
    by simp [ResetCall.startsFor], by simp [resumeReset], by simp [resumeReset]⟩
  rintro tokenHash e he ⟨p, hp, hhash, hrest⟩
  obtain ⟨⟨hold, -⟩, hne⟩ := hlive tokenHash e he
  by_cases hu : userId = u
  · rcases hok hu p.value (get_eq_some.mpr ⟨p, hp, rfl⟩) with hown | hdead
    · exact absurd (hhash.symm.trans hown) hne
    · rw [get_eq_none, hhash, hold] at hdead
      cases hdead
  · exact ⟨p, lookup_del_eq_some.mpr ⟨hp, by simpa using Ne.symm hu⟩, hhash, hrest⟩

end Commands

section Run

variable {opts : Options} {u : String} {s t : State ResetStore ResetCall}

theorem pointed_environment (hs : Pointed u s) (milliseconds : ℕ) :
    Pointed u ⟨{ s.shared with now := s.shared.now + milliseconds }, s.calls⟩ := by
  have hle : s.shared.now ≤ s.shared.now + milliseconds := by omega
  have hlive (tokenHash : String) (e : Entry PasswordResetRecord)
      (he : Live u { s.shared with now := s.shared.now + milliseconds } tokenHash e) :
      Live u s.shared tokenHash e := ⟨lookup_anti hle he.1, he.2⟩
  refine ⟨fun tokenHash e he => hs.latest tokenHash e (hlive tokenHash e he),
    fun tokenHash e he => ?_, fun tokenHash e he => ?_,
    fun c hc => (hs.expects c hc).mono rfl hlive, hs.one⟩
  · obtain ⟨t, ht, hbound⟩ := hs.lasting tokenHash e (hlive tokenHash e he)
    exact ⟨t, ht, by dsimp only; omega⟩
  · refine (hs.pointed tokenHash e (hlive tokenHash e he)).imp_left ?_
    rintro ⟨p, hp, hhash, hlasts⟩
    refine ⟨p, lookup_eq_some.mpr ⟨(lookup_eq_some.mp hp).1, live_iff.mpr fun t ht => ?_⟩,
      hhash, hlasts⟩
    obtain ⟨t', ht', hle'⟩ := hlasts t ht
    have hlater := live_iff.mp (lookup_eq_some.mp he.1).2 t' ht'
    exact hlater.trans hle'

theorem pointed_start (hs : Pointed u s) (request : ResetRequest) :
    Pointed u ⟨s.shared, s.calls ++ [firstCommand s.shared request]⟩ := by
  have hnot : (firstCommand s.shared request).startsFor u = false := by
    cases request <;> rfl
  refine ⟨hs.latest, hs.lasting, fun tokenHash e he => ?_, fun c hc => ?_, ?_⟩
  · refine (hs.pointed tokenHash e he).imp_right ?_
    rintro ⟨c, hc, hstart⟩
    exact ⟨c, List.mem_append_left _ hc, hstart⟩
  · rcases List.mem_append.mp hc with hold | hnew
    · exact hs.expects c hold
    · obtain rfl := List.mem_singleton.mp hnew
      exact expects_of_not_startsFor hnot _
  · rw [List.countP_append, List.countP_singleton, if_neg (by simp [hnot])]
    exact hs.one

/-- The step lemma. -/
theorem pointed_step {a : Action ResetRequest Unit ℕ} (hs : Pointed u s)
    (hok : Undisturbed opts u s a) (h : (passwordResets opts).step s a = some t) :
    Pointed u t := by
  cases a with
  | start request =>
    obtain rfl := Option.some.inj h
    exact pointed_start hs request
  | environment milliseconds =>
    obtain rfl := Option.some.inj h
    exact pointed_environment hs milliseconds
  | advance i answer =>
    obtain ⟨c, hc, rfl⟩ := Option.map_eq_some_iff.mp h
    have hmem := List.mem_of_getElem? hc
    have halone : c.Alone opts u s := hok c hc
    cases c with
    | getPointer user startedAt => exact (calm_getPointer opts hs halone).pointed_next hs hc
    | delPrevious user startedAt previous =>
      exact (calm_delPrevious opts hs hmem).pointed_next hs hc
    | setToken user startedAt =>
      by_cases hu : user.id = u
      · exact pointed_setToken opts hs hc hu
      · exact (calm_setToken opts hu).pointed_next hs hc
    | setPointer user startedAt tokenHash => exact (calm_setPointer opts hs hmem).pointed_next hs hc
    | getDel token => exact (calm_getDel opts).pointed_next hs hc
    | delPointer userId => exact (calm_delPointer opts halone).pointed_next hs hc
    | delBoth token userId => exact (calm_delBoth opts halone).pointed_next hs hc

/-- Every token of the user that can be redeemed is the one issued last, and no token has been
redeemed twice. -/
def OneLink (u : String) (s : State ResetStore ResetCall) : Prop :=
  (∀ tokenHash e, Live u s.shared tokenHash e → s.shared.issued u = some tokenHash) ∧
    s.shared.redeemed.Nodup

/-- In all interleavings of the commands of starts, redemptions and discards: while no start of the
user's reads the pointer beside another, and no pointer of the user's is deleted that leads to a
live token of another call, in every state at most one token of the user is live, and it is the
one issued last; and no token is redeemed twice. -/
theorem one_link (opts : Options) (u : String) (now : ℤ)
    (as : List (Action ResetRequest Unit ℕ))
    (hok : Guarded (passwordResets opts).step (Undisturbed opts u) (noLinks now) as) :
    Throughout (passwordResets opts).step (OneLink u) (noLinks now) as := by
  have hdead (tokenHash : String) (e : Entry PasswordResetRecord) :
      ¬Live u (noLinks now).shared tokenHash e := by
    simp [Live, noLinks, lookup]
  have hstart : Pointed u (noLinks now) ∧ SpentOnce opts (noLinks now).shared := by
    constructor
    · refine ⟨fun tokenHash e he => absurd he (hdead tokenHash e),
        fun tokenHash e he => absurd he (hdead tokenHash e),
        fun tokenHash e he => absurd he (hdead tokenHash e), ?_, ?_⟩
      · simp [noLinks]
      · simp [noLinks]
    · refine ⟨?_, ?_, ?_⟩
      · simp [noLinks]
      · simp [noLinks]
      · simp [noLinks, lookup]
  have hrun := throughout_of_guarded (I := fun s => Pointed u s ∧ SpentOnce opts s.shared)
    (fun _ _ _ hI ha h => ⟨pointed_step hI.1 ha h, hI.2.step h⟩) hstart hok
  exact hrun.mono fun s hs => ⟨hs.1.latest, hs.2.redeemed⟩

end Run

section Examples

/-- Tokens that are their own hashes. -/
private def plainTokens : Options where
  randomToken n := String.ofList (List.replicate n 'x')
  hashToken token := token
  distinct m n h := by
    have hlength := congrArg (fun t : String => t.toList.length) h
    simpa using hlength

private def ada : ResetUser := ⟨"u1", "acme", "ada@acme.test"⟩

/-- A link, a minute, and another that takes its place. -/
theorem one_link_replaced :
    Throughout (passwordResets plainTokens).step (OneLink "u1") (noLinks 0)
      [.start (.start ada), .advance 0 (), .advance 0 (), .advance 0 (), .environment 60000,
        .start (.start ada), .advance 0 (), .advance 0 (), .advance 0 (), .advance 0 ()] :=
  one_link plainTokens "u1" 0 _ (by decide +kernel)

/-- Two requests at once: each finds no pointer, and both links are live when both calls are
over. -/
theorem two_links :
    ¬ ∀ as : List (Action ResetRequest Unit ℕ),
      Throughout (passwordResets plainTokens).step
        (fun s => s.calls = [] → OneLink "u1" s) (noLinks 0) as := by
  intro hall
  have hrun := hall [.start (.start ada), .start (.start ada), .advance 0 (), .advance 0 (),
    .advance 0 (), .advance 0 (), .advance 0 (), .advance 0 ()]
  have htwo := hrun.mono (Q := fun s => s.calls = [] →
    ∀ e ∈ lookup s.shared.tokens s.shared.now "", e.value.userId = "u1" →
      ∀ e' ∈ lookup s.shared.tokens s.shared.now "x", e'.value.userId ≠ "u1") ?_
  · revert htwo
    decide +kernel
  · intro s hs hcalls e he hu e' he' hu'
    have hfirst := (hs hcalls).1 "" e ⟨he, hu⟩
    rw [(hs hcalls).1 "x" e' ⟨he', hu'⟩] at hfirst
    simp at hfirst

end Examples

end HeirsOcr.PasswordReset

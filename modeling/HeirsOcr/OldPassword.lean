import HeirsOcr.PasswordChange

/-!
# What the old password still opens

A reset and a self-service change delete the sessions the account's index lists; a change
by the owner deletes none; no change looks at pending challenges or at sign-ins that have
passed the password. In every run where what these commands leave alone is never of an
older password, a completed change leaves nothing behind that opens a session.
-/
namespace HeirsOcr.PasswordChange
open KeyedTable Login StepMachine

variable {s t : Portal} {i n : ℕ} {spared spared' : List String} {c : Call}

/-- The number of the password a sign-in under way was started with. -/
def Call.presented : Call → Option ℕ
  | .isMfaEnabled version | .createChallenge version | .createSession version => some version
  | .verifyMfa challenge _ _ | .spendFactor challenge _ | .rereadUser challenge
  | .consumeChallenge challenge _ => some challenge.version
  | _ => none

/-- The session a request under way has read and not yet answered for. -/
def Call.resolving : Call → Option Handle
  | .revalidate session _ => some session
  | _ => none

/-- After a completed change nothing obtained with an older password opens the account: no
session and no challenge is left while it is enabled, and none has resolved. -/
structure OldCredentialsDead (s : Portal) : Prop where
  sessions : s.enabled → ∀ h ∈ s.sessions.rows, s.completed ≤ h.version
  challenges : s.enabled → ∀ h ∈ s.challenges.rows, s.completed ≤ h.version
  resolved : ∀ r ∈ s.resolved, r.completed ≤ r.version

instance (s : Portal) : Decidable (OldCredentialsDead s) :=
  decidable_of_iff ((s.enabled → ∀ h ∈ s.sessions.rows, s.completed ≤ h.version) ∧
    (s.enabled → ∀ h ∈ s.challenges.rows, s.completed ≤ h.version) ∧
    ∀ r ∈ s.resolved, r.completed ≤ r.version)
    ⟨fun h => ⟨h.1, h.2.1, h.2.2⟩, fun h => ⟨h.sessions, h.challenges, h.resolved⟩⟩

/-- Of the passwords before the `n`th nothing is left but the spared sessions: no other
session, no challenge, no sign-in under way. -/
structure Cut (s : Portal) (n : ℕ) (spared : List String) : Prop where
  sessions : ∀ h ∈ s.sessions.rows, n ≤ h.version ∨ h.token ∈ spared
  challenges : ∀ h ∈ s.challenges.rows, n ≤ h.version
  signIns : ∀ c ∈ s.calls, ∀ v ∈ c.presented, n ≤ v

instance (s : Portal) (n : ℕ) (spared : List String) : Decidable (Cut s n spared) :=
  decidable_of_iff ((∀ h ∈ s.sessions.rows, n ≤ h.version ∨ h.token ∈ spared) ∧
    (∀ h ∈ s.challenges.rows, n ≤ h.version) ∧ ∀ c ∈ s.calls, ∀ v ∈ c.presented, n ≤ v)
    ⟨fun h => ⟨h.1, h.2.1, h.2.2⟩, fun h => ⟨h.sessions, h.challenges, h.signIns⟩⟩

/-- The condition of a step. An owner sets the password of an account that nobody has signed
in to or is signing in to. When another change reads the index, of older passwords there are
only the session it keeps and, if Redis answers, sessions the index lists. And when a change
answers, no session of an older password, but the one it keeps, is being resolved. -/
def Call.Revokes (s : Portal) (up : Bool) : Call → Prop
  | .updateTenantUser change patch => change = .owner → Cut s (s.user.elim 0 patch.issues) []
  | .revokeOthers change version =>
    Cut s version (change.keep.toList ++ if up then s.index else [])
  | .respond change version =>
    ∀ c ∈ s.calls, ∀ h ∈ c.resolving, version ≤ h.version ∨ some h.token = change.keep
  | _ => True

instance (s : Portal) (up : Bool) (c : Call) : Decidable (c.Revokes s up) :=
  match c with
  | .updateTenantUser change patch => inferInstanceAs <| Decidable <|
    change = .owner → Cut s (s.user.elim 0 patch.issues) []
  | .revokeOthers change version => inferInstanceAs <| Decidable <|
    Cut s version (change.keep.toList ++ if up then s.index else [])
  | .respond change version => inferInstanceAs <| Decidable <|
    ∀ c ∈ s.calls, ∀ h ∈ c.resolving, version ≤ h.version ∨ some h.token = change.keep
  | .isMfaEnabled _ | .createChallenge _ | .createSession _ | .indexAdd _ | .verifyMfa ..
  | .spendFactor .. | .rereadUser _ | .consumeChallenge .. | .revalidate .. | .verifyCurrent ..
  | .consumePasswordReset .. | .readResetUser _ | .deleteSessions .. | .indexRemove .. =>
    inferInstanceAs (Decidable True)

def RevokesAll (s : Portal) : Action → Prop
  | .advance i _ up => ∀ c ∈ s.calls[i]?, c.Revokes s up
  | _ => True

instance (s : Portal) (a : Action) : Decidable (RevokesAll s a) :=
  match a with
  | .advance i _ up => inferInstanceAs (Decidable (∀ c ∈ s.calls[i]?, c.Revokes s up))
  | .login .. | .loginMfa .. | .resolveSession _ | .changePassword .. | .resetPassword ..
  | .patchUser .. | .fail _ | .sessionGone _ | .challengeGone _ | .indexGone _ | .linkMailed _
  | .linkGone _ | .setMfa _ | .deleteTenantUser => inferInstanceAs (Decidable True)

/-- A sign-in may carry this number: one under way does, a challenge does, or it is the
number of the password. -/
def Source (s : Portal) (v : ℕ) : Prop :=
  (∃ c ∈ s.calls, v ∈ c.presented) ∨ (∃ h ∈ s.challenges.rows, h.version = v) ∨
    ∃ u ∈ s.user, u.version = v

/-- The password is at least the `n`th, if there is an account. -/
def Portal.Issued (s : Portal) (n : ℕ) : Prop := ∀ u ∈ s.user, n ≤ u.version

/-- What there is in `t` was there in `s` or comes from its sign-ins. -/
structure Derives (s t : Portal) : Prop where
  user : ∀ u' ∈ t.user, ∃ u ∈ s.user, u.version ≤ u'.version
  sessions : ∀ h ∈ t.sessions.rows,
    (∃ h₀ ∈ s.sessions.rows, h₀.token = h.token ∧ h₀.version ≤ h.version) ∨ Source s h.version
  challenges : ∀ h ∈ t.challenges.rows, Source s h.version
  signIns : ∀ c ∈ t.calls, ∀ v ∈ c.presented, Source s v

theorem Portal.Issued.derives (hs : s.Issued n) (hd : Derives s t) : t.Issued n := by
  intro u' hu'
  obtain ⟨u, hu, hle⟩ := hd.user u' hu'
  exact (hs u hu).trans hle

theorem Cut.le_of_source {v : ℕ} (hs : Cut s n spared) (hissued : s.Issued n)
    (hv : Source s v) : n ≤ v := by
  rcases hv with ⟨c, hc, hv⟩ | ⟨h, hh, rfl⟩ | ⟨u, hu, rfl⟩
  · exact hs.signIns c hc v hv
  · exact hs.challenges h hh
  · exact hissued u hu

/-- Once cut, older passwords stay cut: sign-ins only start with the present one. -/
theorem Cut.derives (hs : Cut s n spared) (hissued : s.Issued n) (hd : Derives s t) :
    Cut t n spared where
  sessions h hh := by
    rcases hd.sessions h hh with ⟨h₀, hh₀, htoken, hle⟩ | hsource
    · rcases hs.sessions h₀ hh₀ with hnew | hspared
      · exact .inl (hnew.trans hle)
      · exact .inr (htoken ▸ hspared)
    · exact .inl (hs.le_of_source hissued hsource)
  challenges h hh := hs.le_of_source hissued (hd.challenges h hh)
  signIns c hc _ hv := hs.le_of_source hissued (hd.signIns c hc _ hv)

theorem Cut.spare (hs : Cut s n spared)
    (hsub : ∀ h ∈ s.sessions.rows, h.token ∈ spared → h.token ∈ spared') : Cut s n spared' where
  sessions h hh := (hs.sessions h hh).imp_right (hsub h hh)
  challenges := hs.challenges
  signIns := hs.signIns

theorem Cut.subset (hs : Cut s n spared) (hsessions : t.sessions.rows ⊆ s.sessions.rows)
    (hchallenges : t.challenges.rows ⊆ s.challenges.rows)
    (hcalls : ∀ c ∈ t.calls, c ∈ s.calls ∨ c.presented = none) : Cut t n spared where
  sessions h hh := hs.sessions h (hsessions hh)
  challenges h hh := hs.challenges h (hchallenges hh)
  signIns c hc v hv := by
    rcases hcalls c hc with hold | hnone
    · exact hs.signIns c hold v hv
    · rw [hnone] at hv
      cases hv

/-- A step that adds nothing derives. -/
theorem Derives.of_subset (huser : ∀ u' ∈ t.user, ∃ u ∈ s.user, u.version ≤ u'.version)
    (hsessions : t.sessions.rows ⊆ s.sessions.rows)
    (hchallenges : t.challenges.rows ⊆ s.challenges.rows) (hcalls : t.calls ⊆ s.calls) :
    Derives s t where
  user := huser
  sessions h hh := .inl ⟨h, hsessions hh, rfl, le_rfl⟩
  challenges h hh := .inr (.inl ⟨h, hchallenges hh, rfl⟩)
  signIns c hc _ hv := .inl ⟨c, hcalls hc, hv⟩

/-- What a step does to the index, the links and the logs does not matter. -/
theorem Derives.of_eq {t' : Portal} (hd : Derives s t) (huser : t'.user = t.user)
    (hsessions : t'.sessions = t.sessions) (hchallenges : t'.challenges = t.challenges)
    (hcalls : t'.calls = t.calls) : Derives s t' where
  user := huser ▸ hd.user
  sessions := hsessions ▸ hd.sessions
  challenges := hchallenges ▸ hd.challenges
  signIns := hcalls ▸ hd.signIns

theorem mem_call {c' : Call} : c' ∈ (s.call c).calls ↔ c' ∈ s.calls ∨ c' = c := by
  simp [Portal.call]

/-- When a request moves on, the queue holds what it held and the next command. -/
theorem mem_calls_next {c' : Call} (hc : c' ∈ ((s.leave i).call c).calls) :
    c' ∈ s.calls ∨ c' = c :=
  (mem_call.mp hc).imp_left fun hold => List.eraseIdx_subset hold

theorem Derives.call (hd : Derives s t) (hc : ∀ v ∈ c.presented, Source s v) :
    Derives s (t.call c) where
  user := hd.user
  sessions := hd.sessions
  challenges := hd.challenges
  signIns c' hc' := by
    rcases mem_call.mp hc' with hold | rfl
    · exact hd.signIns c' hold
    · exact hc

/-- A request that carries no password of its own joins the queue. -/
theorem Derives.callOther (hd : Derives s t) (hc : c.presented = none) : Derives s (t.call c) := by
  refine hd.call fun v hv => ?_
  rw [hc] at hv
  cases hv

theorem mem_put {table : Table Handle.token} {h x : Handle} (hx : x ∈ (put table h).rows) :
    x ∈ table.rows ∨ x.version = h.version := by
  rcases Table.mem_upsert hx with ⟨hold, -⟩ | rfl
  · exact .inl hold
  · cases table.find? h.token <;> exact .inr rfl

theorem Derives.putSession (hd : Derives s t) {h : Handle} (hsource : Source s h.version) :
    Derives s { t with sessions := put t.sessions h } where
  user := hd.user
  sessions x hx := by
    rcases mem_put hx with hold | hnew
    · exact hd.sessions x hold
    · exact .inr (hnew ▸ hsource)
  challenges := hd.challenges
  signIns := hd.signIns

theorem Derives.putChallenge (hd : Derives s t) {h : Handle} (hsource : Source s h.version) :
    Derives s { t with challenges := put t.challenges h } where
  user := hd.user
  sessions := hd.sessions
  challenges x hx := by
    rcases mem_put hx with hold | hnew
    · exact hd.challenges x hold
    · exact hnew ▸ hsource
  signIns := hd.signIns

theorem rows_delete_subset (table : Table Handle.token) (p : Handle → Bool) :
    (table.delete p).rows ⊆ table.rows := fun _ hx => (Table.mem_delete.mp hx).1

theorem user_refl (s : Portal) : ∀ u' ∈ s.user, ∃ u ∈ s.user, u.version ≤ u'.version :=
  fun u hu => ⟨u, hu, le_rfl⟩

theorem derives_leave (s : Portal) (i : ℕ) : Derives s (s.leave i) :=
  .of_subset (user_refl s) (List.Subset.refl _) (List.Subset.refl _) List.eraseIdx_subset

theorem version_le_updated (hashPassword : String → String) (patch : UpdateTenantUserInput)
    (u : TenantUser) : u.version ≤ (updated hashPassword patch u).version := le_max_left _ _

theorem issues_le_updated (hashPassword : String → String) (patch : UpdateTenantUserInput)
    (u : TenantUser) : patch.issues u ≤ (updated hashPassword patch u).version := le_max_right _ _

section Step

variable {surface : Surface} {hashPassword : String → String} {token : String} {up : Bool}

theorem mem_complete {change : Change} {version : ℕ} {h : Handle}
    (hh : h ∈ (s.complete change version).sessions.rows) :
    ∃ h₀ ∈ s.sessions.rows, h₀.renew change version = h := by
  obtain ⟨h₀, hh₀, rfl⟩ := List.mem_map.mp hh
  exact ⟨h₀, hh₀, rfl⟩

theorem presented_renew (change : Change) (version : ℕ) (c : Call) :
    (c.renew change version).presented = c.presented := by
  cases c <;> rfl

theorem derives_complete (s : Portal) (i : ℕ) (change : Change) (version : ℕ) :
    Derives s ((s.leave i).complete change version) where
  user := user_refl s
  sessions h hh := by
    obtain ⟨h₀, hh₀, rfl⟩ := mem_complete hh
    exact .inl ⟨h₀, hh₀, (Handle.renew_token ..).symm, Handle.le_renew ..⟩
  challenges h hh := .inr (.inl ⟨h, hh, rfl⟩)
  signIns c hc v hv := by
    obtain ⟨c₀, hc₀, rfl⟩ := List.mem_map.mp hc
    rw [presented_renew] at hv
    exact .inl ⟨c₀, List.eraseIdx_subset hc₀, hv⟩

/-- Each command of a request takes over what the request was started with, at most. -/
theorem derives_resume (hc : s.calls[i]? = some c) :
    Derives s (resume surface hashPassword (s.leave i) token up c) := by
  have hsource : ∀ v ∈ c.presented, Source s v :=
    fun v hv => .inl ⟨c, List.mem_of_getElem? hc, hv⟩
  have hleave := derives_leave s i
  cases c with
  | isMfaEnabled version =>
    refine hleave.call ?_
    split_ifs <;> exact hsource
  | createChallenge version => exact hleave.putChallenge (hsource version rfl)
  | createSession version => exact (hleave.putSession (hsource version rfl)).callOther rfl
  | indexAdd token =>
    simp only [resume]
    split_ifs
    · exact hleave.of_eq rfl rfl rfl rfl
    · exact hleave
  | verifyMfa challenge code at' =>
    simp only [resume]
    split
    · exact hleave.call hsource
    · exact hleave
  | spendFactor challenge write =>
    refine Derives.call (.of_subset ?_ (List.Subset.refl _) (List.Subset.refl _)
      List.eraseIdx_subset) hsource
    intro u' hu'
    obtain ⟨u, hu, rfl⟩ := Option.map_eq_some_iff.mp hu'
    exact ⟨u, hu, le_rfl⟩
  | rereadUser challenge => exact hleave.call hsource
  | consumeChallenge challenge completes =>
    have hspent : Derives s { s.leave i with
        challenges := s.challenges.delete fun h => h.token = challenge.token } :=
      .of_subset (user_refl s) (List.Subset.refl _) (rows_delete_subset ..) List.eraseIdx_subset
    simp only [resume]
    split_ifs
    · exact hspent.call hsource
    · exact hspent
  | revalidate session change =>
    simp only [resume]
    split_ifs
    · cases change with
      | none => exact hleave.of_eq rfl rfl rfl rfl
      | some passwords => exact Derives.callOther (hleave.of_eq rfl rfl rfl rfl) rfl
    · exact hleave
  | verifyCurrent token current next =>
    simp only [resume]
    split_ifs
    · exact hleave.callOther rfl
    · exact hleave
  | consumePasswordReset link password =>
    simp only [resume]
    split_ifs
    · exact Derives.callOther (hleave.of_eq rfl rfl rfl rfl) rfl
    · exact hleave
  | readResetUser password =>
    simp only [resume]
    split_ifs
    · exact hleave.callOther rfl
    · exact hleave
  | updateTenantUser change patch =>
    refine Derives.callOther (.of_subset ?_ (List.Subset.refl _) (List.Subset.refl _)
      List.eraseIdx_subset) ?_
    · intro u' hu'
      obtain ⟨u, hu, rfl⟩ := Option.map_eq_some_iff.mp hu'
      exact ⟨u, hu, version_le_updated ..⟩
    · split_ifs <;> rfl
  | revokeOthers change version =>
    refine hleave.callOther ?_
    split_ifs <;> rfl
  | deleteSessions change version doomed =>
    exact Derives.callOther (.of_subset (user_refl s) (rows_delete_subset ..)
      (List.Subset.refl _) List.eraseIdx_subset) rfl
  | indexRemove change version doomed =>
    exact Derives.callOther (hleave.of_eq rfl rfl rfl rfl) rfl
  | respond change version => exact derives_complete s i change version

theorem derives_elim {α : Type} {o : Option α} {f : α → Call}
    (hf : ∀ x ∈ o, ∀ v ∈ (f x).presented, Source s v) :
    Derives s (o.elim s fun x => s.call (f x)) := by
  have hrefl : Derives s s :=
    .of_subset (user_refl s) (List.Subset.refl _) (List.Subset.refl _) (List.Subset.refl _)
  cases o with
  | none => exact hrefl
  | some x => exact hrefl.call (hf x rfl)

/-- A sign-in starts with the present password, a second factor with its challenge. -/
theorem derives_step {a : Action} (h : step surface hashPassword s a = some t) :
    Derives s t := by
  have hrefl : Derives s s :=
    .of_subset (user_refl s) (List.Subset.refl _) (List.Subset.refl _) (List.Subset.refl _)
  cases a with
  | advance i token up =>
    obtain ⟨c, hc, rfl⟩ := Option.map_eq_some_iff.mp h
    exact derives_resume hc
  | login ip email password =>
    cases h
    refine derives_elim fun u hu v hv => .inr (.inr ⟨u, (Option.filter_eq_some_iff.mp hu).1, ?_⟩)
    exact Option.some.inj hv
  | loginMfa challenge code at' =>
    cases h
    refine derives_elim fun h hh v hv => .inr (.inl ⟨h, Table.mem_of_find? hh, ?_⟩)
    exact Option.some.inj hv
  | resolveSession token =>
    cases h
    exact derives_elim fun h hh v hv => by cases hv
  | changePassword token current next =>
    cases h
    exact derives_elim fun h hh v hv => by cases hv
  | resetPassword link password =>
    cases h
    split_ifs
    · exact hrefl.callOther rfl
    · exact hrefl
  | patchUser patch countOwners =>
    cases h
    cases s.user with
    | none => exact hrefl
    | some target =>
      simp only [Option.elim_some]
      split_ifs
      · exact hrefl
      · exact hrefl.callOther rfl
  | fail i =>
    cases h
    exact derives_leave s i
  | sessionGone token =>
    cases h
    exact .of_subset (user_refl s) (rows_delete_subset ..) (List.Subset.refl _)
      (List.Subset.refl _)
  | challengeGone token =>
    cases h
    exact .of_subset (user_refl s) (List.Subset.refl _) (rows_delete_subset ..)
      (List.Subset.refl _)
  | indexGone tokens =>
    cases h
    exact hrefl.of_eq rfl rfl rfl rfl
  | linkMailed link =>
    cases h
    exact hrefl.of_eq rfl rfl rfl rfl
  | linkGone link =>
    cases h
    exact hrefl.of_eq rfl rfl rfl rfl
  | setMfa row =>
    cases h
    refine .of_subset ?_ (List.Subset.refl _) (List.Subset.refl _) (List.Subset.refl _)
    intro u' hu'
    obtain ⟨u, hu, rfl⟩ := Option.map_eq_some_iff.mp hu'
    exact ⟨u, hu, le_rfl⟩
  | deleteTenantUser =>
    cases h
    exact .of_subset (fun _ hu => by cases hu) (List.Subset.refl _) (List.Subset.refl _)
      (List.Subset.refl _)

/-- What a request under way relies on. A session that has been read is of the password of
the last completed change, or a later one; once a change has read the index, of the passwords
older than its own only what it is about to delete, and the session it keeps, is left. -/
def Call.Sound (s : Portal) : Call → Prop
  | .revalidate session _ => s.completed ≤ session.version
  | .revokeOthers _ version => s.Issued version
  | .deleteSessions change version doomed =>
    s.Issued version ∧ Cut s version (change.keep.toList ++ doomed)
  | .indexRemove change version _ => s.Issued version ∧ Cut s version change.keep.toList
  | .respond change version => s.Issued version ∧ Cut s version change.keep.toList
  | _ => True

structure Kept (s : Portal) : Prop where
  issued : s.Issued s.completed
  cut : Cut s s.completed []
  calls : ∀ c ∈ s.calls, c.Sound s
  resolved : ∀ r ∈ s.resolved, r.completed ≤ r.version

theorem Kept.oldCredentialsDead (hs : Kept s) : OldCredentialsDead s where
  sessions _ h hh := (hs.cut.sessions h hh).resolve_right List.not_mem_nil
  challenges _ h hh := hs.cut.challenges h hh
  resolved := hs.resolved

theorem Call.Sound.le_resolving (hc : c.Sound s) :
    ∀ h ∈ c.resolving, s.completed ≤ h.version := by
  cases c with
  | revalidate session change =>
    intro h hh
    exact Option.some.inj hh ▸ hc
  | _ =>
    intro h hh
    cases hh

theorem Call.Sound.derives (hc : c.Sound s) (hd : Derives s t)
    (hresolving : ∀ h ∈ c.resolving, t.completed ≤ h.version) : c.Sound t := by
  cases c with
  | revalidate session change => exact hresolving session rfl
  | revokeOthers change version => exact Portal.Issued.derives hc hd
  | deleteSessions change version doomed => exact ⟨hc.1.derives hd, hc.2.derives hc.1 hd⟩
  | indexRemove change version doomed => exact ⟨hc.1.derives hd, hc.2.derives hc.1 hd⟩
  | respond change version => exact ⟨hc.1.derives hd, hc.2.derives hc.1 hd⟩
  | _ => trivial

/-- The frame: a step that completes no change keeps the invariant when the requests it
puts on the queue and the sessions it resolves are sound. -/
theorem Kept.derives (hs : Kept s) (hd : Derives s t) (hcompleted : t.completed = s.completed)
    (hcalls : ∀ c ∈ t.calls, c ∈ s.calls ∨ c.Sound t)
    (hresolved : ∀ r ∈ t.resolved, r ∈ s.resolved ∨ r.completed ≤ r.version) : Kept t where
  issued := hcompleted ▸ hs.issued.derives hd
  cut := hcompleted ▸ hs.cut.derives hs.issued hd
  calls c hc := by
    rcases hcalls c hc with hold | hnew
    · have hsound := hs.calls c hold
      exact hsound.derives hd fun h hh => hcompleted.le.trans (hsound.le_resolving h hh)
    · exact hnew
  resolved r hr := (hresolved r hr).elim (hs.resolved r) id

/-- The request moves on to a sound command, and nothing resolves or completes. -/
theorem Kept.next {next : Call} (hs : Kept s) (hd : Derives s t)
    (hcompleted : t.completed = s.completed) (hcalls : t.calls = (s.leave i).calls ++ [next])
    (hnext : next.Sound t) (hresolved : t.resolved = s.resolved) : Kept t := by
  refine hs.derives hd hcompleted (fun c hc => ?_) fun _ hr => .inl (hresolved ▸ hr)
  rw [hcalls] at hc
  rcases mem_calls_next hc with hold | rfl
  · exact .inl hold
  · exact .inr hnext

/-- The request is done, and nothing resolves or completes. -/
theorem Kept.done (hs : Kept s) (hd : Derives s t) (hcompleted : t.completed = s.completed)
    (hcalls : t.calls = (s.leave i).calls) (hresolved : t.resolved = s.resolved) : Kept t :=
  hs.derives hd hcompleted (fun _ hc => .inl (List.eraseIdx_subset (hcalls ▸ hc)))
    fun _ hr => .inl (hresolved ▸ hr)

/-- A change completes when of the older passwords only the session it keeps is left. -/
theorem kept_complete {change : Change} {version : ℕ} (hs : Kept s)
    (hissued : s.Issued version) (hcut : Cut s version change.keep.toList)
    (hresolving : ∀ c ∈ s.calls, ∀ h ∈ c.resolving,
      version ≤ h.version ∨ some h.token = change.keep) :
    Kept ((s.leave i).complete change version) := by
  have hd := derives_complete s i change version
  have hrenewed : ∀ h : Handle, s.completed ≤ h.version →
      version ≤ h.version ∨ some h.token = change.keep →
      max s.completed version ≤ (h.renew change version).version := by
    intro h hcompleted hnew
    refine max_le (hcompleted.trans (h.le_renew ..)) ?_
    rcases hnew with hnew | hkeep
    · exact hnew.trans (h.le_renew ..)
    · exact h.le_renew_of_keep version hkeep
  constructor
  · intro u hu
    exact max_le (hs.issued u hu) (hissued u hu)
  · constructor
    · intro h hh
      obtain ⟨h₀, hh₀, rfl⟩ := mem_complete hh
      refine .inl (hrenewed h₀ ((hs.cut.sessions h₀ hh₀).resolve_right List.not_mem_nil) ?_)
      exact (hcut.sessions h₀ hh₀).imp_right fun hkeep => (Option.mem_toList.mp hkeep).symm
    · exact fun h hh => max_le (hs.cut.challenges h hh) (hcut.challenges h hh)
    · intro c hc v hv
      obtain ⟨c₀, hc₀, rfl⟩ := List.mem_map.mp hc
      rw [presented_renew] at hv
      have hmem : c₀ ∈ s.calls := List.eraseIdx_subset hc₀
      exact max_le (hs.cut.signIns c₀ hmem v hv) (hcut.signIns c₀ hmem v hv)
  · intro c hc
    obtain ⟨c₀, hc₀, rfl⟩ := List.mem_map.mp hc
    have hmem : c₀ ∈ s.calls := List.eraseIdx_subset hc₀
    have hsound := hs.calls c₀ hmem
    cases c₀ with
    | revalidate session next => exact hrenewed session hsound (hresolving _ hmem session rfl)
    | _ =>
      refine hsound.derives hd fun h hh => ?_
      cases hh
  · exact hs.resolved

/-- A session spared so far is the one the change keeps, or on the list it has just read. -/
theorem mem_keep_or_doomed {change : Change}
    (h : token ∈ change.keep.toList ++ (if up then s.index else [])) :
    token ∈ change.keep.toList ∨
      up = true ∧ token ∈ s.index.filter fun token => some token ≠ change.keep := by
  by_cases hkeep : some token = change.keep
  · exact .inl (Option.mem_toList.mpr hkeep.symm)
  rcases List.mem_append.mp h with hkept | hindexed
  · exact .inl hkept
  · cases up with
    | false => cases hindexed
    | true => exact .inr ⟨rfl, List.mem_filter.mpr ⟨hindexed, by simpa using hkeep⟩⟩

/-- A session found current answers its request, or lets a change of the password begin. -/
theorem kept_revalidate {session : Handle} {change : Option (String × String)} (hs : Kept s)
    (hsound : s.completed ≤ session.version)
    (hd : Derives s (resume surface hashPassword (s.leave i) token up
      (.revalidate session change))) :
    Kept (resume surface hashPassword (s.leave i) token up (.revalidate session change)) := by
  simp only [resume] at hd ⊢
  split_ifs at hd ⊢
  · have hresolved : ∀ r ∈ s.resolved ++ [⟨session.version, s.completed⟩],
        r ∈ s.resolved ∨ r.completed ≤ r.version := by
      intro r hr
      rcases List.mem_append.mp hr with hold | hnew
      · exact .inl hold
      · obtain rfl := List.mem_singleton.mp hnew
        exact .inr hsound
    cases change with
    | none => exact hs.derives hd rfl (fun _ hc => .inl (List.eraseIdx_subset hc)) hresolved
    | some passwords =>
      refine hs.derives hd rfl (fun c hc => ?_) hresolved
      rcases mem_calls_next hc with hold | rfl
      · exact .inl hold
      · exact .inr trivial
  · exact hs.done hd rfl rfl rfl

/-- The row is written; a change by an owner is complete with it. -/
theorem kept_updateTenantUser {change : Change} {patch : UpdateTenantUserInput} (hs : Kept s)
    (hrevokes : (Call.updateTenantUser change patch).Revokes s up)
    (hd : Derives s (resume surface hashPassword (s.leave i) token up
      (.updateTenantUser change patch))) :
    Kept (resume surface hashPassword (s.leave i) token up (.updateTenantUser change patch)) := by
  have hissued : Portal.Issued
      (resume surface hashPassword (s.leave i) token up (.updateTenantUser change patch))
      (s.user.elim 0 patch.issues) := by
    intro u' hu'
    obtain ⟨u, hu, rfl⟩ := Option.map_eq_some_iff.mp hu'
    have huser : s.user = some u := hu
    rw [huser]
    exact issues_le_updated hashPassword patch u
  refine hs.next hd rfl rfl ?_ rfl
  split_ifs with howner
  · subst howner
    refine ⟨hissued, (hrevokes rfl).subset (List.Subset.refl _) (List.Subset.refl _) ?_⟩
    intro c hc
    rcases mem_calls_next hc with hold | rfl
    · exact .inl hold
    · exact .inr rfl
  · exact hissued

/-- The index is read. With nothing in it to delete, only the kept session is of an older
password. -/
theorem kept_revokeOthers {change : Change} {version : ℕ} (hs : Kept s)
    (hsound : s.Issued version) (hrevokes : (Call.revokeOthers change version).Revokes s up)
    (hd : Derives s (resume surface hashPassword (s.leave i) token up
      (.revokeOthers change version))) :
    Kept (resume surface hashPassword (s.leave i) token up (.revokeOthers change version)) := by
  refine hs.next hd rfl rfl ?_ rfl
  have hissued := Portal.Issued.derives hsound hd
  split_ifs with hread
  · refine ⟨hissued, (Cut.spare hrevokes fun h _ hspared => ?_).derives hsound hd⟩
    exact List.mem_append.mpr ((mem_keep_or_doomed hspared).imp_right And.right)
  · refine ⟨hissued, (Cut.spare hrevokes fun h _ hspared => ?_).derives hsound hd⟩
    refine (mem_keep_or_doomed hspared).resolve_right fun hdoomed => hread ?_
    rw [hdoomed.1, Bool.true_and]
    exact decide_eq_true (List.ne_nil_of_mem hdoomed.2)

/-- What the index named is deleted. -/
theorem kept_deleteSessions {change : Change} {version : ℕ} {doomed : List String} (hs : Kept s)
    (hsound : s.Issued version ∧ Cut s version (change.keep.toList ++ doomed))
    (hd : Derives s (resume surface hashPassword (s.leave i) token up
      (.deleteSessions change version doomed))) :
    Kept (resume surface hashPassword (s.leave i) token up
      (.deleteSessions change version doomed)) := by
  have hcut := hsound.2.derives hsound.1 hd
  refine hs.next hd rfl rfl ⟨hsound.1.derives hd, hcut.spare fun h hh hspared => ?_⟩ rfl
  have hkept := (Table.mem_delete.mp hh).2
  rcases List.mem_append.mp hspared with hkeep | hdoomed
  · exact hkeep
  · simp [hdoomed] at hkept

theorem kept_resume (hs : Kept s) (hc : s.calls[i]? = some c) (hrevokes : c.Revokes s up) :
    Kept (resume surface hashPassword (s.leave i) token up c) := by
  have hd : Derives s (resume surface hashPassword (s.leave i) token up c) := derives_resume hc
  have hsound : c.Sound s := hs.calls c (List.mem_of_getElem? hc)
  cases c with
  | isMfaEnabled version =>
    refine hs.next hd rfl rfl ?_ rfl
    split_ifs <;> trivial
  | createChallenge version => exact hs.done hd rfl rfl rfl
  | createSession version => exact hs.next hd rfl rfl trivial rfl
  | indexAdd token =>
    simp only [resume] at hd ⊢
    split_ifs at hd ⊢
    · exact hs.done hd rfl rfl rfl
    · exact hs.done hd rfl rfl rfl
  | verifyMfa challenge code at' =>
    simp only [resume] at hd ⊢
    split at hd
    · exact hs.next hd rfl rfl trivial rfl
    · exact hs.done hd rfl rfl rfl
  | spendFactor challenge write => exact hs.next hd rfl rfl trivial rfl
  | rereadUser challenge => exact hs.next hd rfl rfl trivial rfl
  | consumeChallenge challenge completes =>
    simp only [resume] at hd ⊢
    split_ifs at hd ⊢
    · exact hs.next hd rfl rfl trivial rfl
    · exact hs.done hd rfl rfl rfl
  | revalidate session change => exact kept_revalidate hs hsound hd
  | verifyCurrent | consumePasswordReset | readResetUser =>
    simp only [resume] at hd ⊢
    split_ifs at hd ⊢
    · exact hs.next hd rfl rfl trivial rfl
    · exact hs.done hd rfl rfl rfl
  | updateTenantUser change patch => exact kept_updateTenantUser hs hrevokes hd
  | revokeOthers change version => exact kept_revokeOthers hs hsound hrevokes hd
  | deleteSessions change version doomed => exact kept_deleteSessions hs hsound hd
  | indexRemove change version doomed =>
    exact hs.next hd rfl rfl ⟨hsound.1.derives hd, hsound.2.derives hsound.1 hd⟩ rfl
  | respond change version => exact kept_complete hs hsound.1 hsound.2 hrevokes

theorem Kept.call (hs : Kept s) (hd : Derives s (s.call c)) (hc : c.Sound s) :
    Kept (s.call c) := by
  refine hs.derives hd rfl (fun c' hc' => ?_) fun _ hr => .inl hr
  rcases mem_call.mp hc' with hold | rfl
  · exact .inl hold
  · exact .inr (hc.derives hd hc.le_resolving)

/-- A request that starts from what it has read, if it found it. -/
theorem kept_elim {α : Type} {o : Option α} {f : α → Call} (hs : Kept s)
    (hd : Derives s (o.elim s fun x => s.call (f x))) (hf : ∀ x ∈ o, (f x).Sound s) :
    Kept (o.elim s fun x => s.call (f x)) := by
  cases o with
  | none => exact hs
  | some x => exact hs.call hd (hf x rfl)

/-- Every step that meets its condition keeps the invariant. -/
theorem kept_step {a : Action} (hs : Kept s) (hrevokes : RevokesAll s a)
    (h : step surface hashPassword s a = some t) : Kept t := by
  have hd := derives_step h
  have hframe : t.completed = s.completed → t.calls ⊆ s.calls → t.resolved ⊆ s.resolved →
      Kept t := fun hcompleted hcalls hresolved =>
    hs.derives hd hcompleted (fun _ hc => .inl (hcalls hc)) fun _ hr => .inl (hresolved hr)
  have hread : ∀ x ∈ s.sessions.rows, s.completed ≤ x.version := fun x hx =>
    (hs.cut.sessions x hx).resolve_right List.not_mem_nil
  cases a with
  | advance i token up =>
    obtain ⟨c, hc, rfl⟩ := Option.map_eq_some_iff.mp h
    exact kept_resume hs hc (hrevokes c hc)
  | login ip email password =>
    cases h
    exact kept_elim hs hd fun _ _ => trivial
  | loginMfa challenge code at' =>
    cases h
    exact kept_elim hs hd fun _ _ => trivial
  | resolveSession token | changePassword token current next =>
    cases h
    exact kept_elim hs hd fun x hx => hread x (Table.mem_of_find? hx)
  | resetPassword link password =>
    cases h
    split_ifs at hd ⊢
    · exact hs.call hd trivial
    · exact hs
  | patchUser patch countOwners =>
    cases h
    cases hu : s.user with
    | none => exact hs
    | some target =>
      simp only [hu, Option.elim_some] at hd ⊢
      split_ifs at hd ⊢
      · exact hs
      · exact hs.call hd trivial
  | fail i =>
    cases h
    exact hframe rfl List.eraseIdx_subset (List.Subset.refl _)
  | sessionGone | challengeGone | indexGone | linkMailed | linkGone | setMfa | deleteTenantUser =>
    cases h
    exact hframe rfl (List.Subset.refl _) (List.Subset.refl _)

end Step

/-- An account with what it has signed in with so far; no request is under way and no change
has completed. -/
def start (user : Option TenantUser) (challenges sessions : Table Handle.token)
    (index links : List String) : Portal where
  user := user
  challenges := challenges
  sessions := sessions
  index := index
  links := links
  calls := []
  completed := 0
  resolved := []

/-- In every run whose changes find of older passwords only what they delete, nothing
obtained with an older password is left to open the account once a change has completed. -/
theorem old_credentials_dead (surface : Surface) (hashPassword : String → String)
    (user : Option TenantUser) (challenges sessions : Table Handle.token)
    (index links : List String) (as : List Action)
    (hrevokes : Guarded (step surface hashPassword) RevokesAll
      (start user challenges sessions index links) as) :
    Throughout (step surface hashPassword) OldCredentialsDead
      (start user challenges sessions index links) as := by
  have hstart : Kept (start user challenges sessions index links) := by
    constructor
    · exact fun _ _ => Nat.zero_le _
    · exact ⟨fun _ _ => .inl (Nat.zero_le _), fun _ _ => Nat.zero_le _,
        fun _ hc => absurd hc List.not_mem_nil⟩
    · exact fun _ hc => absurd hc List.not_mem_nil
    · exact fun _ hr => absurd hr List.not_mem_nil
  exact (throughout_of_guarded (fun _ _ _ hs ha h => kept_step hs ha h) hstart hrevokes).mono
    fun _ hs => hs.oldCredentialsDead

/-- A portal whose hashes name the password. -/
def acmePortal : Surface where
  scope := "tenant"
  argonVerify hash plain := hash = "hash of " ++ plain
  digests := Mfa.rfcDigests
  ipDenied _ _ := false

def hashOf (plain : String) : String := "hash of " ++ plain

def ada (enrolled : Bool) : TenantUser where
  id := "u1"
  email := "ada@acme.test"
  disabled := false
  passwordHash := "hash of hunter22"
  mfa := ⟨some Mfa.rfcSecret, enrolled, none, none⟩
  role := .owner
  version := 0

/-- One session, in the index, and one mailed link. -/
def signedIn (enrolled : Bool) : Portal :=
  start (some (ada enrolled)) ∅ ⟨[⟨"s1", 0⟩], by decide⟩ ["s1"] ["r1"]

/-- The next `n` commands of the oldest request under way. -/
def commands (n : ℕ) (token : String) : List Action :=
  List.replicate n (.advance 0 token true)

/-- A reset ends the session, and a change from a new one keeps that one. -/
theorem old_credentials_dead_in_turn :
    Throughout (step acmePortal hashOf) OldCredentialsDead (signedIn false)
      (.resetPassword "r1" "correct horse" :: commands 7 "" ++
        .resolveSession "s1" :: .login "203.0.113.9" "ada@acme.test" "correct horse" ::
        commands 3 "s2" ++ .changePassword "s2" "correct horse" "battery staple" ::
        commands 5 "" ++ [.resolveSession "s2", .advance 0 "" true]) :=
  old_credentials_dead acmePortal hashOf (some (ada false)) ∅ ⟨[⟨"s1", 0⟩], by decide⟩ ["s1"]
    ["r1"] _ (by decide)

/-- An owner's change leaves the session; a reset leaves a challenge, which becomes a
session; a self-service change leaves a sign-in under way, which becomes one. -/
theorem old_credentials_survive :
    ¬Throughout (step acmePortal hashOf) OldCredentialsDead (signedIn false)
      (.patchUser ⟨none, none, some "correct horse"⟩ 2 :: commands 2 "" ++
        [.resolveSession "s1", .advance 0 "" true]) ∧
    ¬Throughout (step acmePortal hashOf) OldCredentialsDead (signedIn true)
      (.login "203.0.113.9" "ada@acme.test" "hunter22" :: commands 2 "t1" ++
        .resetPassword "r1" "correct horse" :: commands 7 "" ++
        .loginMfa "t1" "287082" 59000 :: commands 6 "s2") ∧
    ¬Throughout (step acmePortal hashOf) OldCredentialsDead (signedIn false)
      (.changePassword "s1" "hunter22" "correct horse" :: commands 2 "" ++
        .login "203.0.113.9" "ada@acme.test" "hunter22" :: .advance 0 "" true ::
        .advance 1 "" true :: .advance 1 "" true :: commands 2 "s2") := by
  decide

end HeirsOcr.PasswordChange

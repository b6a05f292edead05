import HeirsOcr.SubscriptionTerms
import HeirsOcr.Verification

/-!
# Signups whose requests fail

No transaction spans the stores that `POST /verification` writes to. Below any statement of a
request may fail, or be carried out and be the last its process lives to see. The subscription
comes before the owner, so nobody can sign in to an organisation without one; and the signup is
discarded last, so whoever lost a request can send the code again.
-/
namespace HeirsOcr.ProvisioningFailures
open ExpiringKeys Interleaving KeyedTable StepMachine Verification
open Billing (find?_upsertSubscription)
open Signup (PendingSignup normalizeEmail normalizeEmail_normalizeEmail pendingKey)
open TenantKeys (listKeysForTenant)

/-- How a statement ends for its request. -/
inductive Outcome where
  | answered (answer : Answer)
  /-- It was carried out, and the process died before it heard so. -/
  | unheard (answer : Answer)
  | failed

def Outcome.answer? : Outcome → Option Answer
  | .answered answer | .unheard answer => some answer
  | .failed => none

section System

variable (slugify : String → String)

/-- One statement. One that throws ends its request with a 503, and changes nothing. -/
def resumeFailing (s : Store) (c : VerificationCall) : Outcome → Store × Option VerificationCall
  | .answered answer => resumeVerification slugify s c answer
  | .unheard answer => ((resumeVerification slugify s c answer).1, none)
  | .failed => (s, none)

def failingVerifications : System Store VerificationCall String Outcome ℕ where
  start s email := (s, some (.checkOtp email))
  resume := resumeFailing slugify
  environment s elapsed := { s with now := s.now + elapsed }

end System

/-- The organisation has a subscription, on a plan that was on offer, and it has opened. -/
def Subscribed (m : Store) (tenantId : String) : Prop :=
  ∃ sub, m.subscriptions.find? tenantId = some sub ∧ sub.plan.hidden = false ∧
    (sub.status = .trialing ∨ sub.status = .active)

def HasAccount (m : Store) (email : String) : Prop := ∃ user ∈ m.users, user.email = email

/-- The plan that was asked for is on offer. -/
def Offered (answer : Answer) : Bool := answer.plan.any fun plan => !plan.hidden

/-- No plan is gone when it is asked for. -/
def PlanOffered (_ : State Store VerificationCall) : Action String Outcome ℕ → Prop
  | .advance _ outcome => outcome.answer?.all Offered
  | .start _ | .environment _ => True

instance (s : State Store VerificationCall) : DecidablePred (PlanOffered s)
  | .advance _ _ => inferInstanceAs (Decidable (_ = true))
  | .start _ => inferInstanceAs (Decidable True)
  | .environment _ => inferInstanceAs (Decidable True)

section Invariant

variable (withdrawn : Prop) (before : Store)

/-- What a request relies on before its next statement. Where plans may be `withdrawn`, a signup
may be discarded without an account. -/
def Relies (m : Store) : VerificationCall → Prop
  | .allocateTenantId _ plan _ | .putTenant _ plan _ | .putSubscription _ plan _ =>
    plan.hidden = false
  | .rereadTenantUser _ tenantId | .createTenantUser _ tenantId => Subscribed m tenantId
  | .createSession pending | .discardSignup pending =>
    HasAccount m (normalizeEmail pending.email) ∨ withdrawn
  | .checkOtp _ | .getTenantUserByEmail _ | .getStoredPlan _ => True

/-- Who was made an owner has a subscription, and a signup is there until it has its account. -/
structure Kept (m : Store) : Prop where
  owners : ∀ user ∈ m.users, user ∈ before.users ∨ user.role = .owner ∧ Subscribed m user.tenantId
  signups : ∀ key e, before.keys key = some e → m.keys key = some e ∨
    (∃ user ∈ m.users, key = pendingKey user.email) ∨ withdrawn

/-- Accounts and subscriptions are not taken back. -/
structure Grows (m m' : Store) : Prop where
  users : ∀ user ∈ m.users, user ∈ m'.users
  subscribed : ∀ tenantId, Subscribed m tenantId → Subscribed m' tenantId

structure Advances (m : Store) (next : Store × Option VerificationCall) : Prop where
  grows : Grows m next.1
  kept : Kept withdrawn before next.1
  moved : ∀ d ∈ next.2, Relies withdrawn next.1 d

variable {withdrawn before} {slugify : String → String} {m m' : Store} {c d : VerificationCall}

theorem Grows.refl (m : Store) : Grows m m := ⟨fun _ h => h, fun _ h => h⟩

theorem Relies.mono (h : Relies withdrawn m c) (hgrows : Grows m m') : Relies withdrawn m' c := by
  cases c with
  | rereadTenantUser pending tenantId | createTenantUser pending tenantId =>
    exact hgrows.subscribed tenantId h
  | createSession pending | discardSignup pending =>
    obtain ⟨user, huser, hemail⟩ | hwithdrawn := h
    · exact .inl ⟨user, hgrows.users user huser, hemail⟩
    · exact .inr hwithdrawn
  | allocateTenantId | putTenant | putSubscription => exact h
  | checkOtp | getTenantUserByEmail | getStoredPlan => trivial

/-- A statement that only reads. -/
theorem Advances.read (h : Kept withdrawn before m) {next : Option VerificationCall}
    (hnext : ∀ d ∈ next, Relies withdrawn m d) : Advances withdrawn before m (m, next) :=
  ⟨.refl m, h, hnext⟩

theorem Advances.read_some (h : Kept withdrawn before m) (hd : Relies withdrawn m d) :
    Advances withdrawn before m (m, some d) := by
  apply Advances.read h
  intro d' hd'
  obtain rfl := Option.mem_some.mp hd'
  exact hd

theorem Advances.over (h : Kept withdrawn before m) : Advances withdrawn before m (m, none) :=
  .read h (by simp)

theorem subscribed_putSubscription {pending : PendingSignup} {plan : Billing.SubscriptionPlan}
    {tenantId tenantId' : String} (answer : Answer) (hplan : plan.hidden = false)
    (h : tenantId = tenantId' ∨ Subscribed m tenantId') : Subscribed
      (resumeVerification slugify m (.putSubscription pending plan tenantId) answer).1
      tenantId' := by
  have hopened : (createSubscriptionFromPlan tenantId plan m.now answer).status = .trialing ∨
      (createSubscriptionFromPlan tenantId plan m.now answer).status = .active := by
    simp only [createSubscriptionFromPlan]
    split_ifs
    · exact .inl rfl
    · exact .inr rfl
  simp only [Subscribed, resumeVerification, find?_upsertSubscription]
  by_cases he : tenantId = tenantId'
  · exact ⟨_, if_pos he, hplan, hopened⟩
  · rw [if_neg (show ¬(createSubscriptionFromPlan tenantId plan m.now answer).tenantId = tenantId'
      from he)]
    exact h.resolve_left he

theorem advances_putSubscription (h : Kept withdrawn before m) {pending : PendingSignup}
    {plan : Billing.SubscriptionPlan} (tenantId : String) (answer : Answer)
    (hplan : plan.hidden = false) : Advances withdrawn before m
      (resumeVerification slugify m (.putSubscription pending plan tenantId) answer) := by
  refine ⟨⟨fun _ hu => hu, fun _ hsub => subscribed_putSubscription answer hplan (.inr hsub)⟩,
    ⟨fun user huser => ?_, h.signups⟩, fun d hd => ?_⟩
  · obtain hold | ⟨howner, hsub⟩ := h.owners user huser
    · exact .inl hold
    · exact .inr ⟨howner, subscribed_putSubscription answer hplan (.inr hsub)⟩
  · obtain rfl := Option.mem_some.mp hd
    exact subscribed_putSubscription answer hplan (.inl rfl)

theorem advances_createTenantUser (h : Kept withdrawn before m) {pending : PendingSignup}
    {tenantId : String} (answer : Answer) (hsub : Subscribed m tenantId) :
    Advances withdrawn before m
      (resumeVerification slugify m (.createTenantUser pending tenantId) answer) := by
  simp only [resumeVerification]
  split
  · exact .over h
  · rename_i users hinsert
    have hmem : ∀ user, user ∈ users ↔
        user ∈ m.users ∨ user = ownerRecord pending tenantId answer.userId :=
      fun user => Table.mem_insert hinsert
    refine ⟨⟨fun user hu => (hmem user).mpr (.inl hu), fun _ hsub => hsub⟩, ⟨?_, ?_⟩, ?_⟩
    · intro user huser
      obtain hold | rfl := (hmem user).mp huser
      · exact h.owners user hold
      · exact .inr ⟨rfl, hsub⟩
    · intro key e he
      obtain hkey | ⟨user, huser, hkey⟩ | hwithdrawn := h.signups key e he
      · exact .inl hkey
      · exact .inr (.inl ⟨user, (hmem user).mpr (.inl huser), hkey⟩)
      · exact .inr (.inr hwithdrawn)
    · intro d hd
      obtain rfl := Option.mem_some.mp hd
      exact .inl ⟨_, (hmem _).mpr (.inr rfl), rfl⟩

theorem advances_discardSignup (h : Kept withdrawn before m) {pending : PendingSignup}
    (answer : Answer) (hdone : Relies withdrawn m (.discardSignup pending)) :
    Advances withdrawn before m
      (resumeVerification slugify m (.discardSignup pending) answer) := by
  refine ⟨⟨fun _ hu => hu, fun _ hsub => hsub⟩, ⟨h.owners, ?_⟩, by simp [resumeVerification]⟩
  intro key e he
  obtain hkey | hgone := h.signups key e he
  · by_cases hown : key = pendingKey (normalizeEmail pending.email)
    · obtain ⟨user, huser, hemail⟩ | hwithdrawn := hdone
      · exact .inr (.inl ⟨user, huser, by rw [hown, hemail]⟩)
      · exact .inr (.inr hwithdrawn)
    · left
      simpa [resumeVerification, del, hown] using hkey
  · exact .inr hgone

/-- What one statement keeps, and what it leaves its request to rely on. -/
theorem advances_resume (h : Kept withdrawn before m) (hc : Relies withdrawn m c) (answer : Answer)
    (hoffered : ¬withdrawn → Offered answer = true) :
    Advances withdrawn before m (resumeVerification slugify m c answer) := by
  cases c with
  | checkOtp email =>
    apply Advances.read h
    intro d hd
    obtain ⟨pending, -, rfl⟩ := Option.map_eq_some_iff.mp hd
    trivial
  | getTenantUserByEmail pending =>
    simp only [resumeVerification]
    split
    · rename_i user huser
      exact .read_some h (.inl ⟨user, Table.mem_of_find? huser, Table.key_of_find? huser⟩)
    · exact .read_some h trivial
  | getStoredPlan pending =>
    simp only [resumeVerification]
    have hgone : Offered answer = false →
        Relies withdrawn m (.discardSignup pending) := by
      intro hnot
      refine .inr (by_contra fun hw => ?_)
      rw [hoffered hw] at hnot
      cases hnot
    split
    · rename_i hplan
      exact .read_some h (hgone (by simp [Offered, hplan]))
    · rename_i plan hplan
      split_ifs with hhidden
      · exact .read_some h (hgone (by simp [Offered, hplan, hhidden]))
      · exact .read_some h (Bool.eq_false_of_not_eq_true hhidden)
  | allocateTenantId pending plan attempts =>
    cases attempts with
    | zero => exact .over h
    | succ attempts =>
      simp only [resumeVerification]
      split_ifs
      · exact .read_some h hc
      · exact .read_some h hc
  | putTenant pending plan tenantId =>
    refine ⟨⟨fun _ hu => hu, fun _ hsub => hsub⟩, ⟨h.owners, h.signups⟩, ?_⟩
    intro d hd
    obtain rfl := Option.mem_some.mp hd
    exact hc
  | putSubscription pending plan tenantId => exact advances_putSubscription h tenantId answer hc
  | rereadTenantUser pending tenantId =>
    simp only [resumeVerification]
    split
    · exact .over h
    · exact .read_some h hc
  | createTenantUser pending tenantId => exact advances_createTenantUser h answer hc
  | createSession pending => exact .read_some h hc
  | discardSignup pending => exact advances_discardSignup h answer hc

theorem advances_resumeFailing (h : Kept withdrawn before m) (hc : Relies withdrawn m c)
    (outcome : Outcome) (hoffered : ¬withdrawn → outcome.answer?.all Offered = true) :
    Advances withdrawn before m (resumeFailing slugify m c outcome) := by
  cases outcome with
  | answered answer => exact advances_resume h hc answer hoffered
  | unheard answer =>
    have hadvances : Advances withdrawn before m (resumeVerification slugify m c answer) :=
      advances_resume h hc answer hoffered
    exact ⟨hadvances.grows, hadvances.kept, by simp [resumeFailing]⟩
  | failed => exact .over h

theorem Advances.keeps {next : Store × Option VerificationCall}
    (h : Advances withdrawn before m next) (others : List VerificationCall) :
    Keeps (Kept withdrawn before) (Relies withdrawn) m others next :=
  ⟨h.kept, h.moved, fun _ _ hc => hc.mono h.grows⟩

theorem holds_step_failing {s t : State Store VerificationCall} {a : Action String Outcome ℕ}
    (hs : Holds (Kept withdrawn before) (Relies withdrawn) s)
    (ha : ¬withdrawn → PlanOffered s a) (h : (failingVerifications slugify).step s a = some t) :
    Holds (Kept withdrawn before) (Relies withdrawn) t := by
  apply holds_step _ hs h
  cases a with
  | start email =>
    have hread : Advances withdrawn before s.shared (s.shared, some (.checkOtp email)) :=
      .read_some hs.shared trivial
    exact hread.keeps _
  | advance i outcome =>
    intro c hc
    exact (advances_resumeFailing hs.shared (hs.calls c (List.mem_of_getElem? hc)) outcome
      ha).keeps _
  | environment elapsed =>
    have hwait : Advances withdrawn before s.shared
        ({ s.shared with now := s.shared.now + elapsed }, none) :=
      ⟨⟨fun _ hu => hu, fun _ hsub => hsub⟩, ⟨hs.shared.owners, hs.shared.signups⟩, by simp⟩
    exact hwait.keeps _

theorem holds_unverified (m : Store) :
    Holds (Kept withdrawn m) (Relies withdrawn) (unverified m) :=
  ⟨⟨fun _ hu => .inl hu, fun _ _ he => .inl he⟩, by simp [unverified]⟩

end Invariant

section Run

variable (slugify : String → String)

/-- Wherever requests fail, whoever was made an owner belongs to an organisation that has a
subscription. -/
theorem owners_subscribed (m : Store) (as : List (Action String Outcome ℕ)) :
    Throughout (failingVerifications slugify).step
      (fun t => ∀ user ∈ t.shared.users,
        user ∈ m.users ∨ user.role = .owner ∧ Subscribed t.shared user.tenantId)
      (unverified m) as := by
  have hall : Throughout (failingVerifications slugify).step
      (Holds (Kept True m) (Relies True)) (unverified m) as := by
    apply throughout_of_step
    · exact fun s a t hs h => holds_step_failing hs (fun hnot => absurd trivial hnot) h
    · exact holds_unverified m
  exact hall.mono fun t ht => ht.shared.owners

def candidate (pending : PendingSignup) (answer : Answer) : String :=
  slugify pending.organizationName ++ "-" ++ answer.suffix

/-- A request with the code that nothing disturbs; `i` other requests are under way. -/
def retry (email : String) (i : ℕ) (answer : Answer) : List (Action String Outcome ℕ) :=
  .start email :: List.replicate 10 (.advance i (.answered answer))

variable {slugify} {m m' : Store} {calls : List VerificationCall} {c : VerificationCall}
  {answer : Answer}

theorem step_last {next : Option VerificationCall}
    (h : resumeVerification slugify m c answer = (m', next)) :
    (failingVerifications slugify).step ⟨m, calls ++ [c]⟩
      (.advance calls.length (.answered answer)) = some ⟨m', calls ++ next.toList⟩ := by
  simp [System.step, failingVerifications, resumeFailing, h, List.eraseIdx_append_of_length_le]

theorem exec_last {d : VerificationCall} (h : resumeVerification slugify m c answer = (m', some d))
    (n : ℕ) : exec (failingVerifications slugify).step ⟨m, calls ++ [c]⟩
        (List.replicate (n + 1) (.advance calls.length (.answered answer))) =
      exec (failingVerifications slugify).step ⟨m', calls ++ [d]⟩
        (List.replicate n (.advance calls.length (.answered answer))) := by
  rw [List.replicate_succ, exec_cons_of_step _ (step_last h)]
  rfl

/-- The owner is made, with the password of the form and a subscription, and the code is spent. -/
structure Finished (pending : PendingSignup) (m : Store) : Prop where
  owner : ∃ user ∈ m.users, user.email = normalizeEmail pending.email ∧ user.role = .owner ∧
    user.passwordHash = pending.passwordHash ∧ Subscribed m user.tenantId
  spent : m.keys (pendingKey (normalizeEmail pending.email)) = none

/-- One request that nothing disturbs is enough, whatever an earlier one has left behind. -/
theorem retry_finishes {s : State Store VerificationCall} {email : String} {pending : PendingSignup}
    {plan : Billing.SubscriptionPlan}
    (hpending : get s.shared.keys s.shared.now (pendingKey (normalizeEmail email)) = some pending)
    (hnone : s.shared.users.find? (normalizeEmail pending.email) = none)
    (hplan : answer.plan = some plan) (hoffered : plan.hidden = false)
    (hfresh : listKeysForTenant s.shared.tenants (candidate slugify pending answer) = []) :
    ∃ u, exec (failingVerifications slugify).step s (retry email s.calls.length answer) = some u ∧
      u.calls = s.calls ∧ Finished pending u.shared := by
  obtain ⟨m, calls⟩ := s
  have hinsert : ∃ users, m.users.insert
      (ownerRecord pending (candidate slugify pending answer) answer.userId) = some users := by
    rw [← Option.ne_none_iff_exists']
    intro htaken
    obtain ⟨user, huser⟩ := Table.insert_eq_none.mp htaken
    have hfind : m.users.find? (normalizeEmail pending.email) = some user := huser
    rw [hnone] at hfind
    cases hfind
  obtain ⟨users, hinsert⟩ := hinsert
  have hstart : (failingVerifications slugify).step ⟨m, calls⟩ (.start email) =
      some ⟨m, calls ++ [.checkOtp email]⟩ := rfl
  have hcheck : resumeVerification slugify m (.checkOtp email) answer =
      (m, some (.getTenantUserByEmail pending)) := by
    simp only [resumeVerification, hpending, Option.map_some]
  have hlook : resumeVerification slugify m (.getTenantUserByEmail pending) answer =
      (m, some (.getStoredPlan pending)) := by
    simp only [resumeVerification, hnone]
  have hstored : resumeVerification slugify m (.getStoredPlan pending) answer =
      (m, some (.allocateTenantId pending plan ALLOCATE_ATTEMPTS)) := by
    simp [resumeVerification, hplan, hoffered]
  have hallocate : resumeVerification slugify m
      (.allocateTenantId pending plan ALLOCATE_ATTEMPTS) answer =
      (m, some (.putTenant pending plan (candidate slugify pending answer))) := if_pos hfresh
  obtain ⟨m₁, hm₁⟩ : ∃ m₁, m₁ = (resumeVerification slugify m
      (.putTenant pending plan (candidate slugify pending answer)) answer).1 := ⟨_, rfl⟩
  obtain ⟨m₂, hm₂⟩ : ∃ m₂, m₂ = (resumeVerification slugify m₁
      (.putSubscription pending plan (candidate slugify pending answer)) answer).1 := ⟨_, rfl⟩
  have hput : resumeVerification slugify m
      (.putTenant pending plan (candidate slugify pending answer)) answer =
      (m₁, some (.putSubscription pending plan (candidate slugify pending answer))) := by
    rw [hm₁]
    rfl
  have hsubscribe : resumeVerification slugify m₁
      (.putSubscription pending plan (candidate slugify pending answer)) answer =
      (m₂, some (.rereadTenantUser pending (candidate slugify pending answer))) := by
    rw [hm₂]
    rfl
  have husers : m₂.users = m.users := by
    rw [hm₂, hm₁]
    rfl
  have hreread : resumeVerification slugify m₂
      (.rereadTenantUser pending (candidate slugify pending answer)) answer =
      (m₂, some (.createTenantUser pending (candidate slugify pending answer))) := by
    simp only [resumeVerification, normalizeEmail_normalizeEmail, husers, hnone]
  have hcreate : resumeVerification slugify m₂
      (.createTenantUser pending (candidate slugify pending answer)) answer =
      ({ m₂ with users := users }, some (.createSession pending)) := by
    simp only [resumeVerification, husers, hinsert]
  obtain ⟨m₃, hm₃⟩ : ∃ m₃, m₃ = (resumeVerification slugify { m₂ with users := users }
      (.discardSignup pending) answer).1 := ⟨_, rfl⟩
  have hdiscard : resumeVerification slugify { m₂ with users := users } (.discardSignup pending)
      answer = (m₃, none) := by
    rw [hm₃]
    rfl
  refine ⟨⟨m₃, calls⟩, ?_, rfl, ?_, ?_⟩
  · rw [retry, exec_cons_of_step _ hstart, exec_last hcheck 9, exec_last hlook 8,
      exec_last hstored 7, exec_last hallocate 6, exec_last hput 5, exec_last hsubscribe 4,
      exec_last hreread 3, exec_last hcreate 2, exec_last rfl 1, List.replicate_one,
      exec_cons_of_step _ (step_last hdiscard), exec_nil]
    simp
  · have hsub : Subscribed m₂ (candidate slugify pending answer) :=
      hm₂ ▸ subscribed_putSubscription answer hoffered (.inl rfl)
    rw [hm₃]
    exact ⟨_, (Table.mem_insert hinsert).mpr (.inr rfl), rfl, rfl, rfl, hsub⟩
  · rw [hm₃]
    simp [resumeVerification, del]

/-- The account is there, or sending the code again makes it. -/
def WayBack (slugify : String → String) (t : State Store VerificationCall) (email : String)
    (pending : PendingSignup) : Prop :=
  HasAccount t.shared email ∨ ∀ answer plan, answer.plan = some plan → plan.hidden = false →
    listKeysForTenant t.shared.tenants (candidate slugify pending answer) = [] →
    ∃ u, exec (failingVerifications slugify).step t (retry email t.calls.length answer) = some u ∧
      u.calls = t.calls ∧ Finished pending u.shared

theorem pendingKey_inj {email email' : String} (h : pendingKey email = pendingKey email') :
    email = email' := by
  simpa [pendingKey] using h

/-- Whatever failed in a run, whoever had a code when it began has an account or a way to it, for
as long as the code lives and the plans are on offer. A signup is stored under its own e-mail. -/
theorem way_back_in (m : Store) {as : List (Action String Outcome ℕ)}
    {t : State Store VerificationCall}
    (hplans : Guarded (failingVerifications slugify).step PlanOffered (unverified m) as)
    (h : exec (failingVerifications slugify).step (unverified m) as = some t) {email : String}
    {e : Entry PendingSignup} (he : m.keys (pendingKey email) = some e)
    (hemail : normalizeEmail email = email) (hown : normalizeEmail e.value.email = email)
    (hlive : e.live t.shared.now = true) : WayBack slugify t email e.value := by
  have hrun := throughout_of_guarded (I := Holds (Kept False m) (Relies False))
    (fun s a t hs ha hstep => holds_step_failing hs (fun _ => ha) hstep) (holds_unverified m) hplans
  obtain hkey | ⟨user, huser, hkey⟩ | hfalse := (hrun.exec h).shared.signups _ e he
  · by_cases haccount : HasAccount t.shared email
    · exact .inl haccount
    · refine .inr fun answer plan hplan hoffered hfresh => ?_
      apply retry_finishes _ _ hplan hoffered hfresh
      · rw [hemail]
        exact get_eq_some.mpr ⟨e, lookup_eq_some.mpr ⟨hkey, hlive⟩, rfl⟩
      · rw [hown, Table.find?_eq_none]
        exact fun user huser heq => haccount ⟨user, huser, heq⟩
  · exact .inl ⟨user, huser, (pendingKey_inj hkey).symm⟩
  · exact hfalse.elim

end Run

/-- A request whose process dies behind the subscription: an organisation without an owner. -/
def crashed : List (Action String Outcome ℕ) :=
  .start "a@b.c" :: List.replicate 5 (.advance 0 (.answered (answer "1"))) ++
    [.advance 0 (.unheard (answer "1"))]

theorem crashed_isSome : (exec (failingVerifications fun _ => "analytical").step
    (unverified oneSignup) crashed).isSome = true := by
  decide +kernel

/-- What the form of `oneSignup` left. -/
def adasSignup : Entry PendingSignup :=
  ⟨⟨"a@b.c", "Ada", "Analytical", "starter", "argon2id-password", "argon2id-otp", 0, 0, 0⟩,
    some 900000⟩

theorem adasSignup_kept : oneSignup.keys (pendingKey "a@b.c") = some adasSignup := by
  simp only [oneSignup, Function.update_self, adasSignup]

theorem way_back_in_crashed : WayBack (fun _ => "analytical")
    ((exec (failingVerifications fun _ => "analytical").step (unverified oneSignup) crashed).get
      crashed_isSome) "a@b.c" adasSignup.value :=
  @way_back_in (fun _ => "analytical") oneSignup crashed _ (by decide +kernel)
    (Option.some_get crashed_isSome).symm "a@b.c" adasSignup adasSignup_kept
    (by decide +kernel) (by decide +kernel) (by decide +kernel)

end HeirsOcr.ProvisioningFailures

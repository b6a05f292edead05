import HeirsOcr.Backups
import HeirsOcr.Doubles
import HeirsOcr.JsValue
import HeirsOcr.Subscriptions

/-!
# Subscriptions through a column

A subscription is stored as one JSON document, in which its dates are texts, and the reader makes
dates of the fields it knows to be dates. A subscription here is an object of the program: its date
fields hold valid dates, and nothing else in it is a date.
-/
namespace HeirsOcr.SubscriptionStorage
open Json JsValue IsoDates Doubles KeyedTable StepMachine Backups

abbrev Value := Js Double

def truthy : Value → Bool
  | .undefined | .null => false
  | .bool b => b
  | .number x => decide (x.val ≠ 0)
  | .string s => decide (s ≠ "")
  | .date _ | .array _ | .object _ => true

/-- The time of `new Date(v)`. -/
def timeOf : Value → Option Time
  | .null => timeClip 0
  | .bool b => timeClip (if b then 1 else 0)
  | .number x => timeClip (if x.val < 0 then ⌈x.val⌉ else ⌊x.val⌋)
  | .string s => dateParse s.toList
  | .date time => time
  | .undefined | .array _ | .object _ => none

def newDate (v : Value) : Value := .date (timeOf v)

/-- `v ? new Date(v) : absent`. -/
def dateOr (absent v : Value) : Value := if truthy v then newDate v else absent

/-- The properties a spread copies. -/
def spread : Value → List (String × Value)
  | .object members => members
  | _ => []

/-- A property after a spread: in its place when it is there, at the end when it is not. -/
def setMember (key : String) (v : Value) : List (String × Value) → List (String × Value)
  | [] => [(key, v)]
  | m :: rest => if m.1 = key then (key, v) :: rest else m :: setMember key v rest

def reviveTrial (trial : Value) : Value :=
  if truthy trial then
    .object <|
      setMember "endedAt" (dateOr .undefined (trial.get "endedAt")) <|
      setMember "endsAt" (dateOr .null (trial.get "endsAt")) <|
      setMember "startedAt" (newDate (trial.get "startedAt")) (spread trial)
  else .undefined

def reviveSubscription (raw : Value) : Value :=
  .object <|
    setMember "updatedAt" (newDate (raw.get "updatedAt")) <|
    setMember "createdAt" (newDate (raw.get "createdAt")) <|
    setMember "canceledAt" (dateOr .undefined (raw.get "canceledAt")) <|
    setMember "currentPeriodEnd" (newDate (raw.get "currentPeriodEnd")) <|
    setMember "currentPeriodStart" (newDate (raw.get "currentPeriodStart")) <|
    setMember "trial" (reviveTrial (raw.get "trial")) (spread raw)

def IsDate (v : Value) : Prop := ∃ t, v = .date (some t)

def IsText (v : Value) : Prop := ∃ s, v = .string s

structure IsTrial (trial : List (String × Value)) : Prop where
  nodup : (trial.map Prod.fst).Nodup
  startedAt : IsDate (member trial "startedAt")
  endsAt : member trial "endsAt" = .null ∨ IsDate (member trial "endsAt")
  endedAt : member trial "endedAt" = .undefined ∨ IsDate (member trial "endedAt")
  others : ∀ key, key ∉ ["startedAt", "endsAt", "endedAt"] → Plain (member trial key)

/-- A subscription with valid dates. An optional field that is absent and one that is undefined
are both `undefined` when they are read. -/
structure Subscription where
  members : List (String × Value)
  nodup : (members.map Prod.fst).Nodup
  tenantId : IsText (member members "tenantId")
  planId : IsText ((member members "plan").get "id")
  status : IsText (member members "status")
  trial : member members "trial" = .undefined ∨
    ∃ trial, member members "trial" = .object trial ∧ IsTrial trial
  currentPeriodStart : IsDate (member members "currentPeriodStart")
  currentPeriodEnd : IsDate (member members "currentPeriodEnd")
  canceledAt : member members "canceledAt" = .undefined ∨ IsDate (member members "canceledAt")
  createdAt : IsDate (member members "createdAt")
  updatedAt : IsDate (member members "updatedAt")
  others : ∀ key, key ∉ ["trial", "currentPeriodStart", "currentPeriodEnd", "canceledAt",
    "createdAt", "updatedAt"] → Plain (member members key)

def Subscription.value (sub : Subscription) : Value := .object sub.members

/-- The text of a column. -/
def text : Value → String
  | .string s => s
  | _ => ""

/-- `sub.tenantId`. -/
def Subscription.tenant (sub : Subscription) : String := text (member sub.members "tenantId")

theorem member_setMember (key key' : String) (v : Value) (members : List (String × Value)) :
    member (setMember key v members) key' = if key' = key then v else member members key' := by
  induction members with
  | nil => rw [setMember, member_cons]
  | cons m rest ih =>
    rw [setMember]
    by_cases hm : m.1 = key
    · subst hm
      rw [if_pos rfl, member_cons, member_cons]
      by_cases h : key' = m.1
      · simp [h]
      · simp [h]
    · rw [if_neg hm, member_cons, member_cons, ih]
      by_cases h : key' = m.1
      · have hne : key' ≠ key := h ▸ hm
        simp [h, hm]
      · simp [h]

theorem fst_mem_setMember {key key' : String} {v : Value} {members : List (String × Value)}
    (h : key' ∈ (setMember key v members).map Prod.fst) :
    key' = key ∨ key' ∈ members.map Prod.fst := by
  induction members with
  | nil => simpa [setMember] using h
  | cons m rest ih =>
    rw [setMember] at h
    split_ifs at h with hm
    · subst hm
      simpa using h
    · rcases List.mem_cons.mp h with rfl | hrest
      · exact .inr (by simp)
      · exact (ih hrest).imp_right (List.mem_cons_of_mem _)

theorem nodup_setMember (key : String) (v : Value) {members : List (String × Value)}
    (h : (members.map Prod.fst).Nodup) : ((setMember key v members).map Prod.fst).Nodup := by
  induction members with
  | nil => simp [setMember]
  | cons m rest ih =>
    obtain ⟨hfirst, hrest⟩ := List.nodup_cons.mp h
    rw [setMember]
    split_ifs with hm
    · subst hm
      exact List.nodup_cons.mpr ⟨hfirst, hrest⟩
    · refine List.nodup_cons.mpr ⟨fun hmem => ?_, ih hrest⟩
      exact (fst_mem_setMember hmem).elim hm hfirst

theorem back_date (t : Time) :
    back (.date (some t) : Value) = .string (Authenticity.toISOString t.ms) := rfl

theorem toISOString_ne_empty (t : ℤ) : Authenticity.toISOString t ≠ "" := by
  intro h
  have hlist := congrArg String.toList h
  rw [toISOString_eq] at hlist
  simp at hlist

/-- A date comes back as its text, and the reader makes the same date of it. -/
theorem same_newDate {v : Value} (h : IsDate v) : Same (newDate (back v)) v := by
  obtain ⟨t, rfl⟩ := h
  rw [back_date, newDate, timeOf, dateParse_toISOString]
  exact Same.refl _

theorem truthy_back_date {v : Value} (h : IsDate v) : truthy (back v) = true := by
  obtain ⟨t, rfl⟩ := h
  exact decide_eq_true (toISOString_ne_empty t.ms)

theorem same_dateOr {absent v : Value} (habsent : truthy (back absent) = false)
    (h : v = absent ∨ IsDate v) : Same (dateOr absent (back v)) v := by
  rcases h with rfl | hdate
  · rw [dateOr, habsent]
    exact Same.refl _
  · rw [dateOr, truthy_back_date hdate]
    exact same_newDate hdate

theorem same_reviveTrial {trial : List (String × Value)} (h : IsTrial trial) :
    Same (reviveTrial (back (.object trial))) (.object trial) := by
  have hget : ∀ key, (back (.object trial)).get key = back (member trial key) :=
    fun key => member_backMembers h.nodup key
  have htruthy : truthy (back (.object trial)) = true := rfl
  rw [reviveTrial, htruthy, if_pos rfl, hget, hget, hget, back_object, spread]
  refine same_object ?_ h.nodup fun key => ?_
  · exact nodup_setMember _ _ (nodup_setMember _ _ (nodup_setMember _ _
      (nodup_backMembers h.nodup)))
  simp only [member_setMember]
  split_ifs with hended hends hstarted
  · subst hended
    exact same_dateOr rfl h.endedAt
  · subst hends
    exact same_dateOr rfl h.endsAt
  · subst hstarted
    exact same_newDate h.startedAt
  · rw [member_backMembers h.nodup]
    exact same_back (h.others key (by simp [hended, hends, hstarted]))

/-- What the reader makes of a stored subscription is the subscription. -/
theorem same_reviveSubscription (sub : Subscription) :
    Same (reviveSubscription (back sub.value)) sub.value := by
  have hget : ∀ key, (back sub.value).get key = back (member sub.members key) :=
    fun key => member_backMembers sub.nodup key
  rw [reviveSubscription, hget, hget, hget, hget, hget, hget, Subscription.value, back_object,
    spread]
  refine same_object ?_ sub.nodup fun key => ?_
  · exact nodup_setMember _ _ (nodup_setMember _ _ (nodup_setMember _ _ (nodup_setMember _ _
      (nodup_setMember _ _ (nodup_setMember _ _ (nodup_backMembers sub.nodup))))))
  simp only [member_setMember]
  split_ifs with hupdated hcreated hcanceled hend hstart htrial
  · subst hupdated
    exact same_newDate sub.updatedAt
  · subst hcreated
    exact same_newDate sub.createdAt
  · subst hcanceled
    exact same_dateOr rfl sub.canceledAt
  · subst hend
    exact same_newDate sub.currentPeriodEnd
  · subst hstart
    exact same_newDate sub.currentPeriodStart
  · subst htrial
    rcases sub.trial with hnone | ⟨trial, hsome, hok⟩
    · rw [hnone]
      exact Same.refl _
    · rw [hsome]
      exact same_reviveTrial hok
  · rw [member_backMembers sub.nodup]
    exact same_back (sub.others key (by simp [hupdated, hcreated, hcanceled, hend, hstart, htrial]))

structure CacheEntry where
  subscription : Option Value
  expiresAt : ℤ

/-- The table, the cache of one process, and the time. -/
structure SubscriptionStore where
  subscriptions : Table (SubscriptionRow.tenantId (N := Double) (τ := ℤ))
  cache : String → Option CacheEntry
  now : ℤ

variable (API_KEY_CACHE_TTL_SECONDS : ℕ)

/-- The row `putSubscription` inserts. -/
def rowOf (sub : Subscription) (now : ℤ) : SubscriptionRow Double ℤ where
  tenantId := sub.tenant
  planId := text ((member sub.members "plan").get "id")
  status := text (member sub.members "status")
  data := Jsonb.ofValue ((toJson sub.value).getD .null)
  updatedAt := now

/-- The upsert as the database takes it, and the cache entry dropped. -/
def putSubscription (s : SubscriptionStore) (sub : Subscription) : SubscriptionStore :=
  let row := rowOf sub s.now
  { s with
    subscriptions :=
      s.subscriptions.upsert row mergeSubscription fun old => mergeSubscription_tenantId old row
    cache := Function.update s.cache row.tenantId none }

/-- The subscription a tenant is served under, and the store with the answer cached. -/
def resolveSubscription (s : SubscriptionStore) (tenantId : String) :
    Option Value × SubscriptionStore :=
  match (s.cache tenantId).filter fun e => s.now < e.expiresAt with
  | some hit => (hit.subscription, s)
  | none =>
    let found := (s.subscriptions.find? tenantId).map fun row =>
      reviveSubscription (ofJson row.data.toValue)
    let ttl := if found.isSome then Billing.cacheTtlMs API_KEY_CACHE_TTL_SECONDS
      else Billing.negativeTtlMs API_KEY_CACHE_TTL_SECONDS
    (found, { s with cache := Function.update s.cache tenantId (some ⟨found, s.now + ttl⟩) })

inductive Action where
  | put (sub : Subscription)
  | resolve (tenantId : String)
  | wait (ms : ℕ)

def step (s : SubscriptionStore) : Action → Option SubscriptionStore
  | .put sub => some (putSubscription s sub)
  | .resolve tenantId => some (resolveSubscription API_KEY_CACHE_TTL_SECONDS s tenantId).2
  | .wait ms => some { s with now := s.now + ms }

/-- The action puts no subscription of a tenant. -/
def KeepsTenant (tenantId : String) : Action → Prop
  | .put sub => sub.tenant ≠ tenantId
  | .resolve _ | .wait _ => True

/-- A subscription is stored: the row of its tenant is what was written, and what is cached is
the same. -/
structure Stored (sub : Subscription) (s : SubscriptionStore) : Prop where
  row : ∃ row, s.subscriptions.find? sub.tenant = some row ∧ row.data = (rowOf sub s.now).data
  cached : ∀ e, s.cache sub.tenant = some e → ∃ v, e.subscription = some v ∧ Same v sub.value

theorem stored_putSubscription (s : SubscriptionStore) (sub : Subscription) :
    Stored sub (putSubscription s sub) where
  row := by
    have hkey : (rowOf sub s.now).tenantId = sub.tenant := rfl
    simp only [putSubscription]
    rw [Table.find?_upsert, if_pos hkey]
    cases s.subscriptions.find? sub.tenant with
    | none => exact ⟨_, rfl, rfl⟩
    | some old => exact ⟨_, rfl, rfl⟩
  cached := by
    intro e he
    have hnone : (putSubscription s sub).cache sub.tenant = none := Function.update_self _ _ _
    rw [hnone] at he
    cases he

/-- A tenant whose subscription is stored is served under it, and it stays stored. -/
theorem resolve_of_stored {s : SubscriptionStore} {sub : Subscription} (h : Stored sub s)
    (tenantId : String) :
    (∃ v, (resolveSubscription API_KEY_CACHE_TTL_SECONDS s sub.tenant).1 = some v ∧
      Same v sub.value) ∧
      Stored sub (resolveSubscription API_KEY_CACHE_TTL_SECONDS s tenantId).2 := by
  obtain ⟨row, hfind, hdata⟩ := h.row
  have hread : Same (reviveSubscription (ofJson row.data.toValue)) sub.value := by
    rw [hdata]
    exact same_reviveSubscription sub
  constructor
  · unfold resolveSubscription
    split
    · rename_i hit hhit
      obtain ⟨v, hv, hsame⟩ := h.cached hit (Option.filter_eq_some_iff.mp hhit).1
      exact ⟨v, hv, hsame⟩
    · exact ⟨_, by rw [hfind, Option.map_some], hread⟩
  · unfold resolveSubscription
    split
    · exact h
    · refine ⟨h.row, fun e he => ?_⟩
      dsimp only at he
      by_cases htenant : sub.tenant = tenantId
      · rw [← htenant, hfind, Function.update_self] at he
        obtain rfl := Option.some.inj he
        exact ⟨_, rfl, hread⟩
      · rw [Function.update_of_ne htenant] at he
        exact h.cached e he

theorem stored_step {s t : SubscriptionStore} {sub : Subscription} {a : Action}
    (hs : Stored sub s) (ha : KeepsTenant sub.tenant a)
    (hstep : step API_KEY_CACHE_TTL_SECONDS s a = some t) : Stored sub t := by
  cases a with
  | put other =>
    obtain rfl := Option.some.inj hstep
    have hkey : (rowOf other s.now).tenantId ≠ sub.tenant := ha
    refine ⟨?_, fun e he => ?_⟩
    · simp only [putSubscription]
      rw [Table.find?_upsert, if_neg hkey]
      exact hs.row
    · simp only [putSubscription] at he
      rw [Function.update_of_ne hkey.symm] at he
      exact hs.cached e he
  | resolve tenantId =>
    obtain rfl := Option.some.inj hstep
    exact (resolve_of_stored API_KEY_CACHE_TTL_SECONDS hs tenantId).2
  | wait ms =>
    obtain rfl := Option.some.inj hstep
    exact ⟨hs.row, hs.cached⟩

/-- A stored subscription is read back as it was, and from its put on the tenant is served under
it until another one is put. -/
theorem storage_round_trip (s : SubscriptionStore) (sub : Subscription) (as : List Action)
    (hkeeps : Guarded (step API_KEY_CACHE_TTL_SECONDS) (fun _ a => KeepsTenant sub.tenant a)
      (putSubscription s sub) as) :
    Same (reviveSubscription (ofJson (rowOf sub s.now).data.toValue)) sub.value ∧
      Throughout (step API_KEY_CACHE_TTL_SECONDS)
        (fun t => ∃ v, (resolveSubscription API_KEY_CACHE_TTL_SECONDS t sub.tenant).1 = some v ∧
          Same v sub.value)
        (putSubscription s sub) as := by
  have hstored := throughout_of_guarded (fun _ _ _ => stored_step API_KEY_CACHE_TTL_SECONDS)
    (stored_putSubscription s sub) hkeeps
  exact ⟨same_reviveSubscription sub, hstored.mono fun t ht =>
    (resolve_of_stored API_KEY_CACHE_TTL_SECONDS ht sub.tenant).1⟩

theorem plain_member {members : List (String × Value)} {dates : List String}
    (h : ∀ m ∈ members, m.1 ∈ dates ∨ Plain m.2) {key : String} (hkey : key ∉ dates) :
    Plain (member members key) := by
  cases hlookup : members.lookup key with
  | none =>
    rw [member, hlookup]
    exact .undefined
  | some v =>
    rw [member, hlookup]
    exact (h _ (mem_of_lookup hlookup)).resolve_left hkey

/-- The first of January 2026. -/
def enrolledAt : Time := ⟨1767225600000, by decide⟩

def ownTrial : List (String × Value) :=
  [("startedAt", .date (some enrolledAt)), ("endsAt", .null),
    ("documentsRemaining", .number (Double.ofInt 25 (by decide))), ("endedAt", .undefined)]

def ownMembers : List (String × Value) :=
  [("tenantId", .string "heirs"), ("plan", .object [("id", .string "trial")]),
    ("status", .string "trialing"), ("trial", .object ownTrial),
    ("currentPeriodStart", .date (some enrolledAt)), ("currentPeriodEnd", .date (some enrolledAt)),
    ("createdAt", .date (some enrolledAt)), ("updatedAt", .date (some enrolledAt))]

theorem isTrial_ownTrial : IsTrial ownTrial where
  nodup := by decide
  startedAt := ⟨enrolledAt, rfl⟩
  endsAt := .inl rfl
  endedAt := .inl rfl
  others := by
    refine fun key => plain_member fun m hm => ?_
    simp only [ownTrial, List.mem_cons, List.not_mem_nil, or_false] at hm
    rcases hm with rfl | rfl | rfl | rfl
    · exact .inl (by decide)
    · exact .inl (by decide)
    · exact .inr (.number _)
    · exact .inl (by decide)

def ownSubscription : Subscription where
  members := ownMembers
  nodup := by decide
  tenantId := ⟨"heirs", rfl⟩
  planId := ⟨"trial", rfl⟩
  status := ⟨"trialing", rfl⟩
  trial := .inr ⟨ownTrial, rfl, isTrial_ownTrial⟩
  currentPeriodStart := ⟨enrolledAt, rfl⟩
  currentPeriodEnd := ⟨enrolledAt, rfl⟩
  canceledAt := .inl rfl
  createdAt := ⟨enrolledAt, rfl⟩
  updatedAt := ⟨enrolledAt, rfl⟩
  others := by
    refine fun key => plain_member fun m hm => ?_
    simp only [ownMembers, List.mem_cons, List.not_mem_nil, or_false] at hm
    rcases hm with rfl | rfl | rfl | rfl | rfl | rfl | rfl | rfl
    · exact .inr (.string _)
    · exact .inr (.object _ (by decide) fun m hm => List.mem_singleton.mp hm ▸ .string _)
    · exact .inr (.string _)
    all_goals exact .inl (by decide)

theorem storage_round_trip_trial :
    Throughout (step 60)
      (fun t => ∃ v, (resolveSubscription 60 t "heirs").1 = some v ∧ Same v ownSubscription.value)
      (putSubscription ⟨∅, fun _ => none, 0⟩ ownSubscription)
      [.resolve "heirs", .wait 5000, .resolve "heirs"] :=
  (storage_round_trip 60 ⟨∅, fun _ => none, 0⟩ ownSubscription
    [.resolve "heirs", .wait 5000, .resolve "heirs"]
    ⟨trivial, trivial, trivial, trivial⟩).2

end HeirsOcr.SubscriptionStorage

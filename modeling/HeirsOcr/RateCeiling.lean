import HeirsOcr.DocumentQuota
import HeirsOcr.RateLimit

/-!
# A ceiling per minute

A plan's ceiling is published by one middleware as requests a minute and used by the next as
requests a window, by every counter that answers. It is kept as one a minute exactly when a window
has a minute for each of these counters.
-/
namespace HeirsOcr.RateLimit
open FixedWindow ExpiringKeys Billing

def effectiveRateLimitPerMinute (sub : Subscription) : Option ℤ :=
  sub.plan.entitlements.limits.rateLimitPerMinute

/-- `req.rateLimitMax` behind `requireSubscription`; without a subscription it stays. -/
def publish (sub : Option Subscription) (req : Request) : Request :=
  match sub with
  | none => req
  | some sub => { req with rateLimitMax := (effectiveRateLimitPerMinute sub).or req.rateLimitMax }

/-- Calls with what the limiter answered. -/
abbrev Log := List (Call × Verdict)

/-- The limiter of all processes, one call after the other. -/
def consultAll (env : Env) (s : Counters) : List Call → Log
  | [] => []
  | call :: rest =>
    let result := consult env s call
    (call, result.2) :: consultAll env result.1 rest

/-- An enabled limiter lets a request through exactly when its counter allows it. -/
theorem rateLimit_eq_none_iff {env : Env} (h : env.RATE_LIMIT_ENABLED = true) (s : Counters)
    (call : Call) : (rateLimit env s call).1 = (consult env s call).1 ∧
      ((rateLimit env s call).2 = none ↔ (consult env s call).2.allowed = true) := by
  rw [rateLimit, if_neg (by simp [h])]
  refine ⟨rfl, ?_⟩
  dsimp only
  cases (consult env s call).2.allowed with
  | true => simp
  | false => simp

def keyOf (env : Env) (call : Call) : WindowKey :=
  ⟨idOf call.req, bucketOf env.RATE_LIMIT_WINDOW_SECONDS call.now⟩

/-- The hit that a call is on a counter; Redis has also counted where its answer gets lost, or the
second command throws. -/
def hitOn (env : Env) (c : Counter) (e : Call × Verdict) : Option (Hit WindowKey) :=
  match c with
  | .redis =>
    if e.1.answer = .incrThrows then none
    else some ⟨keyOf env e.1, maxOf env e.1.req, e.2.counter = .redis⟩
  | .process n =>
    if e.2.counter = .process n then some ⟨keyOf env e.1, maxOf env e.1.req, true⟩ else none

def hitsOn (env : Env) (c : Counter) (log : Log) : List (Hit WindowKey) :=
  log.filterMap (hitOn env c)

/-- The hit of a call on the counter that answers it. -/
def askedHit (env : Env) (call : Call) : Hit WindowKey := ⟨keyOf env call, maxOf env call.req, true⟩

/-- Redis counts the hits, and no key runs out before its window. -/
def RedisCounts (window : ℕ+) (redis : Keyspace String ℕ) (hits : List WindowKey) : Prop :=
  ∀ id bucket, match redis ("ratelimit:" ++ bucketKey id bucket) with
    | none => hits.count ⟨id, bucket⟩ = 0
    | some entry => entry.value = hits.count ⟨id, bucket⟩ ∧
        ∀ t ∈ entry.expiresAt, bucketEnd window bucket ≤ t

section Redis

variable {window : ℕ+} {redis : Keyspace String ℕ} {hits : List WindowKey}

theorem redisCounts_empty (window : ℕ+) : RedisCounts window (fun _ => none) [] :=
  fun _ _ => rfl

theorem redisKey_inj {id id' : String} {bucket bucket' : ℤ} :
    "ratelimit:" ++ bucketKey id bucket = "ratelimit:" ++ bucketKey id' bucket' ↔
      id = id' ∧ bucket = bucket' := by
  rw [← bucketKey_inj]
  constructor
  · intro h
    have htext := congrArg String.toList h
    rw [String.toList_append, String.toList_append, List.append_cancel_left_eq] at htext
    exact String.toList_inj.mp htext
  · intro h
    rw [h]

/-- A write to the key of a call that leaves one hit more there. -/
theorem RedisCounts.write (h : RedisCounts window redis hits) {id : String} {bucket : ℤ}
    {redis' : Keyspace String ℕ} {expiresAt : Option ℤ}
    (hother : ∀ key ≠ "ratelimit:" ++ bucketKey id bucket, redis' key = redis key)
    (hself : redis' ("ratelimit:" ++ bucketKey id bucket) =
      some ⟨hits.count ⟨id, bucket⟩ + 1, expiresAt⟩)
    (hlast : ∀ t ∈ expiresAt, bucketEnd window bucket ≤ t) :
    RedisCounts window redis' (hits ++ [⟨id, bucket⟩]) := by
  intro id' bucket'
  rw [List.count_append]
  by_cases hsame : id' = id ∧ bucket' = bucket
  · obtain ⟨rfl, rfl⟩ := hsame
    rw [hself, List.count_singleton_self]
    exact ⟨rfl, hlast⟩
  · have hnone : [WindowKey.mk id bucket].count ⟨id', bucket'⟩ = 0 :=
      List.count_eq_zero.mpr fun hmem => hsame (WindowKey.mk.inj (List.mem_singleton.mp hmem))
    rw [hother _ fun heq => hsame (redisKey_inj.mp heq), hnone, Nat.add_zero]
    exact h id' bucket'

/-- The count `INCR` answers, and what it leaves. -/
theorem RedisCounts.incr (h : RedisCounts window redis hits) (id : String) (now : ℤ) :
    (incr redis now ("ratelimit:" ++ bucketKey id (bucketOf window now))).2 =
        hits.count ⟨id, bucketOf window now⟩ + 1 ∧
      ∃ expiresAt : Option ℤ, (∀ t ∈ expiresAt, bucketEnd window (bucketOf window now) ≤ t) ∧
        (ExpiringKeys.incr redis now ("ratelimit:" ++ bucketKey id (bucketOf window now))).1
            ("ratelimit:" ++ bucketKey id (bucketOf window now)) =
          some ⟨hits.count ⟨id, bucketOf window now⟩ + 1, expiresAt⟩ := by
  have hkey := h id (bucketOf window now)
  set key := "ratelimit:" ++ bucketKey id (bucketOf window now) with hdef
  cases hentry : redis key with
  | none =>
    rw [hentry] at hkey
    have hlookup : lookup redis now key = none := by rw [lookup, hentry, Option.filter_none]
    rw [ExpiringKeys.incr, hlookup, hkey]
    exact ⟨rfl, none, by simp, Function.update_self _ _ _⟩
  | some entry =>
    rw [hentry] at hkey
    obtain ⟨hvalue, hlast⟩ := hkey
    have hlive : entry.live now = true :=
      live_iff.mpr fun t ht => ((lt_bucketEnd window now).trans_le (hlast t ht)).le
    have hlookup : lookup redis now key = some entry := lookup_eq_some.mpr ⟨hentry, hlive⟩
    rw [ExpiringKeys.incr, hlookup, ← hvalue]
    exact ⟨rfl, entry.expiresAt, hlast, Function.update_self _ _ _⟩

/-- `EXPIRE` on a counter of the running window lasts beyond it. -/
theorem expire_self {keys : Keyspace String ℕ} {key : String} {now : ℤ} {value : ℕ}
    {expiresAt : Option ℤ} (hkey : keys key = some ⟨value, expiresAt⟩)
    (hlast : ∀ t ∈ expiresAt, bucketEnd window (bucketOf window now) ≤ t) :
    expire keys now key (window : ℕ) key =
      some ⟨value, some (now + 1000 * (window : ℕ))⟩ := by
  have hlive : (Entry.mk value expiresAt).live now = true :=
    live_iff.mpr fun t ht => ((lt_bucketEnd window now).trans_le (hlast t ht)).le
  have hlookup : lookup keys now key = some ⟨value, expiresAt⟩ :=
    lookup_eq_some.mpr ⟨hkey, hlive⟩
  rw [expire, hlookup]
  exact Function.update_self _ _ _

/-- A call that Redis counts is decided by the hits on its window before, if it is decided. -/
theorem underLimit_spec (h : RedisCounts window redis hits) {answer : RedisAnswer}
    (hanswer : answer ≠ .incrThrows) (now : ℤ) (id : String) (max : ℤ) :
    RedisCounts window (underLimit window redis answer now id max).1
        (hits ++ [⟨id, bucketOf window now⟩]) ∧
      ∀ allowed, (underLimit window redis answer now id max).2 = some allowed →
        ∀ asked, allowed = admits hits ⟨⟨id, bucketOf window now⟩, max, asked⟩ := by
  obtain ⟨hcount, expiresAt, hlast, hself⟩ := h.incr id now
  have hcounted := h.write (fun key hne => incr_of_ne hne) hself hlast
  have hdecision : ∀ asked, decide
      (((ExpiringKeys.incr redis now ("ratelimit:" ++ bucketKey id (bucketOf window now))).2 : ℤ) ≤
        max) = admits hits ⟨⟨id, bucketOf window now⟩, max, asked⟩ := by
    intro asked
    rw [hcount, admits, decide_eq_decide]
    push_cast
    omega
  rw [underLimit, if_neg hanswer]
  dsimp only
  split_ifs
  · exact ⟨hcounted, by simp⟩
  · exact ⟨hcounted, by simp⟩
  · refine ⟨h.write ?_ (expire_self hself hlast) ?_, ?_⟩
    · intro key hne
      exact (expire_of_ne hne _).trans (incr_of_ne hne)
    · intro t ht
      obtain rfl := Option.some_inj.mp ht
      exact bucketEnd_le window now
    · intro allowed hallowed asked
      rw [← Option.some_inj.mp hallowed, hdecision asked]
  · refine ⟨hcounted, fun allowed hallowed asked => ?_⟩
    rw [← Option.some_inj.mp hallowed, hdecision asked]

end Redis

/-- The counters hold what a log has hit. -/
structure Represents (env : Env) (s : Counters) (log : Log) (now : ℤ) : Prop where
  redis : RedisCounts env.RATE_LIMIT_WINDOW_SECONDS s.redis ((hitsOn env .redis log).map Hit.key)
  processes : ∀ n, Counts env.RATE_LIMIT_WINDOW_SECONDS (s.processes n)
    ((hitsOn env (.process n) log).map Hit.key) now

section Step

variable {env : Env} {s : Counters} {log : Log} {now : ℤ} {call : Call}

theorem represents_empty (env : Env) (now : ℤ) : Represents env .empty [] now :=
  ⟨redisCounts_empty _, fun _ => counts_empty _ _⟩

theorem hitsOn_snoc (c : Counter) (e : Call × Verdict) :
    hitsOn env c (log ++ [e]) = hitsOn env c log ++ (hitOn env c e).toList := by
  rw [hitsOn, List.filterMap_append]
  cases hhit : hitOn env c e with
  | none => simp [hitsOn, hhit]
  | some hit => simp [hitsOn, hhit]

theorem Counts.mono {window : ℕ+} {localBuckets : LocalBuckets} {hits : List WindowKey}
    {now now' : ℤ} (h : Counts window localBuckets hits now) (hle : now ≤ now') :
    Counts window localBuckets hits now' := by
  intro id bucket
  have hkey := h id bucket
  cases hentry : localBuckets (bucketKey id bucket) with
  | none =>
    rw [hentry] at hkey
    exact hkey.imp_left fun hover => hover.trans hle
  | some entry =>
    rw [hentry] at hkey
    exact hkey

/-- A call that its process answers is hit there and in no other process. -/
theorem Represents.processes_local (h : Represents env s log now) (hle : now ≤ call.now)
    (allowed : Bool) (n : ℕ) : Counts env.RATE_LIMIT_WINDOW_SECONDS
      (Function.update s.processes call.process (underLimitLocal env.RATE_LIMIT_WINDOW_SECONDS
        (s.processes call.process) call.now (idOf call.req) (maxOf env call.req)).1 n)
      ((hitsOn env (.process n) (log ++ [(call, ⟨.process call.process, allowed⟩)])).map Hit.key)
      call.now := by
  rw [hitsOn_snoc, List.map_append]
  by_cases hn : n = call.process
  · subst hn
    rw [Function.update_self, hitOn, if_pos rfl]
    exact (underLimitLocal_spec (h.processes _) hle _ _ true).2
  · have hother : hitOn env (.process n) (call, ⟨.process call.process, allowed⟩) = none :=
      if_neg fun heq => hn (Counter.process.inj heq).symm
    rw [Function.update_of_ne hn, hother, Option.toList_none, List.map_nil, List.append_nil]
    exact (h.processes n).mono hle

/-- A call that Redis answers is hit in no process. -/
theorem Represents.processes_redis (h : Represents env s log now) (hle : now ≤ call.now)
    (allowed : Bool) (n : ℕ) : Counts env.RATE_LIMIT_WINDOW_SECONDS (s.processes n)
      ((hitsOn env (.process n) (log ++ [(call, ⟨.redis, allowed⟩)])).map Hit.key) call.now := by
  have hother : hitOn env (.process n) (call, ⟨.redis, allowed⟩) = none := by
    simp [hitOn]
  rw [hitsOn_snoc, hother, Option.toList_none, List.append_nil]
  exact (h.processes n).mono hle

/-- A call is hit in Redis unless Redis throws at once. -/
theorem Represents.redis_snoc (h : Represents env s log now) (verdict : Verdict) :
    RedisCounts env.RATE_LIMIT_WINDOW_SECONDS
      (underLimit env.RATE_LIMIT_WINDOW_SECONDS s.redis call.answer call.now (idOf call.req)
        (maxOf env call.req)).1
      ((hitsOn env .redis (log ++ [(call, verdict)])).map Hit.key) := by
  rw [hitsOn_snoc, hitOn]
  dsimp only
  split_ifs with hanswer
  · rw [underLimit, if_pos hanswer, Option.toList_none, List.append_nil]
    exact h.redis
  · rw [List.map_append]
    exact (underLimit_spec h.redis hanswer _ _ _).1

/-- A call hits the counters it should, and the counter that answers decides by the hits on it
before. -/
theorem consult_spec (h : Represents env s log now) (hle : now ≤ call.now) :
    Represents env (consult env s call).1 (log ++ [(call, (consult env s call).2)]) call.now ∧
      hitOn env (consult env s call).2.counter (call, (consult env s call).2) =
        some (askedHit env call) ∧
      (consult env s call).2.allowed =
        admits ((hitsOn env (consult env s call).2.counter log).map Hit.key)
          (askedHit env call) := by
  have hredis := @h.redis_snoc _ _ _ _ call
  rw [consult]
  dsimp only
  cases hresult : underLimit env.RATE_LIMIT_WINDOW_SECONDS s.redis call.answer call.now
      (idOf call.req) (maxOf env call.req) with
  | mk redis answered =>
    rw [hresult] at hredis
    cases answered with
    | none =>
      dsimp only
      exact ⟨⟨hredis _, h.processes_local hle _⟩, if_pos rfl,
        (underLimitLocal_spec (h.processes _) hle _ _ true).1⟩
    | some allowed =>
      dsimp only
      have hanswer : call.answer ≠ .incrThrows := by
        intro heq
        rw [underLimit, if_pos heq] at hresult
        cases hresult
      exact ⟨⟨hredis _, h.processes_redis hle _⟩, if_neg hanswer,
        (underLimit_spec h.redis hanswer _ _ _).2 allowed (by rw [hresult]) true⟩

end Step

section Runs

variable {env : Env} {log : Log} {calls : List Call}

/-- An admitted call of a key and a maximum, by the counter that answered. -/
def admittedBy (env : Env) (c : Counter) (key : WindowKey) (max : ℤ) (e : Call × Verdict) : Bool :=
  e.2.counter = c && keyOf env e.1 = key && maxOf env e.1.req = max && e.2.allowed

/-- The log agrees with counters that decide by the hits on them. -/
def Tallies (env : Env) (log : Log) : Prop :=
  ∀ c key max, log.countP (admittedBy env c key max) =
    (decisions [] (hitsOn env c log)).countP (isAdmitted key max)

theorem Tallies.snoc (h : Tallies env log) {e : Call × Verdict}
    (hhit : hitOn env e.2.counter e = some (askedHit env e.1))
    (hallowed : e.2.allowed =
      admits ((hitsOn env e.2.counter log).map Hit.key) (askedHit env e.1)) :
    Tallies env (log ++ [e]) := by
  intro c key max
  rw [List.countP_append, h c key max, hitsOn_snoc, decisions_append, List.countP_append,
    List.nil_append, List.countP_singleton]
  congr 1
  by_cases hc : e.2.counter = c
  · subst hc
    have hsame : admittedBy env e.2.counter key max e =
        isAdmitted key max (askedHit env e.1, e.2.allowed) := by
      rw [admittedBy, decide_eq_true rfl, Bool.true_and, isAdmitted, askedHit, Bool.and_true]
    rw [hhit, Option.toList_some, decisions, decisions, List.countP_singleton, ← hallowed, hsame]
  · have hleft : admittedBy env c key max e = false := by simp [admittedBy, hc]
    rw [hleft]
    cases hother : hitOn env c e with
    | none => simp
    | some hit =>
      have hasked : hit.asked = false := by
        cases c with
        | redis =>
          rw [hitOn] at hother
          split_ifs at hother
          rw [← Option.some_inj.mp hother]
          simpa using hc
        | process n =>
          rw [hitOn, if_neg hc] at hother
          cases hother
      rw [Option.toList_some, decisions, decisions, List.countP_singleton]
      simp [isAdmitted, hasked]

/-- A run tallies. -/
theorem tallies_consultAll {s : Counters} {now : ℤ} (hs : Represents env s log now)
    (h : Tallies env log) (hnow : ∀ call ∈ calls, now ≤ call.now)
    (hsorted : calls.Pairwise (·.now ≤ ·.now)) :
    Tallies env (log ++ consultAll env s calls) := by
  induction calls generalizing s log now with
  | nil => rwa [consultAll, List.append_nil]
  | cons call rest ih =>
    obtain ⟨hlater, hsorted⟩ := List.pairwise_cons.mp hsorted
    obtain ⟨hrep, hhit, hallowed⟩ := consult_spec hs (hnow call List.mem_cons_self)
    have hrest := ih hrep (h.snoc hhit hallowed) hlater hsorted
    rwa [List.append_assoc, List.singleton_append] at hrest

/-- The log of a run from the start. -/
def logOf (env : Env) (calls : List Call) : Log := consultAll env .empty calls

theorem tallies_logOf (hsorted : calls.Pairwise (·.now ≤ ·.now)) :
    Tallies env (logOf env calls) := by
  have hnil : Tallies env [] := fun _ _ _ => rfl
  cases calls with
  | nil => exact hnil
  | cons call rest =>
    have hnow : ∀ c ∈ call :: rest, call.now ≤ c.now :=
      List.forall_mem_cons.mpr ⟨le_rfl, (List.pairwise_cons.mp hsorted).1⟩
    exact tallies_consultAll (represents_empty env call.now) hnil hnow hsorted

end Runs

/-- The counters that can answer a call, by what Redis does of it. -/
def mayAnswer (call : Call) : Finset Counter :=
  match call.answer with
  | .answers => {.redis}
  | .incrThrows | .incrLost => {.process call.process}
  | .expireThrows => {.redis, .process call.process}

/-- The counters that can answer a run. -/
def AnsweredBy (C : Finset Counter) (calls : List Call) : Prop := ∀ call ∈ calls, mayAnswer call ⊆ C

section Answers

variable {env : Env} {calls : List Call} {C : Finset Counter}

/-- Redis decides unless a command throws. -/
theorem underLimit_eq_none {window : ℕ+} {redis : Keyspace String ℕ} {answer : RedisAnswer}
    {now : ℤ} {id : String} {max : ℤ} (h : (underLimit window redis answer now id max).2 = none) :
    answer ≠ .answers := by
  rintro rfl
  rw [underLimit, if_neg (by decide)] at h
  dsimp only at h
  rw [if_neg (by decide)] at h
  split_ifs at h with hfirst hthrows
  cases hthrows

/-- A counter that can answer does. -/
theorem counter_mem_mayAnswer (env : Env) (s : Counters) (call : Call) :
    (consult env s call).2.counter ∈ mayAnswer call := by
  rw [consult]
  dsimp only
  cases hresult : underLimit env.RATE_LIMIT_WINDOW_SECONDS s.redis call.answer call.now
      (idOf call.req) (maxOf env call.req) with
  | mk redis answered =>
    cases answered with
    | none =>
      have hanswer : call.answer ≠ .answers := underLimit_eq_none (congrArg Prod.snd hresult)
      cases hcall : call.answer with
      | answers => exact absurd hcall hanswer
      | incrThrows => simp [mayAnswer, hcall]
      | incrLost => simp [mayAnswer, hcall]
      | expireThrows => simp [mayAnswer, hcall]
    | some allowed =>
      cases hcall : call.answer with
      | answers => simp [mayAnswer, hcall]
      | incrThrows =>
        rw [underLimit, if_pos hcall] at hresult
        cases hresult
      | incrLost =>
        rw [hcall, underLimit, if_neg (by decide)] at hresult
        dsimp only at hresult
        rw [if_pos rfl] at hresult
        cases hresult
      | expireThrows => simp [mayAnswer, hcall]

@[simp] theorem map_fst_consultAll (s : Counters) :
    (consultAll env s calls).map Prod.fst = calls := by
  induction calls generalizing s with
  | nil => rfl
  | cons call rest ih => rw [consultAll, List.map_cons, ih]

theorem call_mem {s : Counters} {e : Call × Verdict} (he : e ∈ consultAll env s calls) :
    e.1 ∈ calls := by
  have hmem := List.mem_map_of_mem (f := Prod.fst) he
  rwa [map_fst_consultAll] at hmem

/-- The counters of a run. -/
theorem counter_mem (s : Counters) : ∀ e ∈ consultAll env s calls, e.2.counter ∈ mayAnswer e.1 := by
  induction calls generalizing s with
  | nil => simp [consultAll]
  | cons call rest ih =>
    rw [consultAll]
    exact List.forall_mem_cons.mpr ⟨counter_mem_mayAnswer env s call, ih _⟩

theorem AnsweredBy.mem (h : AnsweredBy C calls) {s : Counters} {e : Call × Verdict}
    (he : e ∈ consultAll env s calls) : e.2.counter ∈ C :=
  h e.1 (call_mem he) (counter_mem s e he)

/-- Counting by counters. -/
theorem countP_eq_sum {log : Log} (h : ∀ e ∈ log, e.2.counter ∈ C) (p : Call × Verdict → Bool) :
    log.countP p = ∑ c ∈ C, log.countP fun e => e.2.counter = c && p e := by
  induction log with
  | nil => simp
  | cons e log ih =>
    obtain ⟨he, hlog⟩ := List.forall_mem_cons.mp h
    simp only [List.countP_cons, ih hlog, Finset.sum_add_distrib]
    congr 1
    cases hp : p e with
    | false => simp
    | true => simp [he]

end Answers

/-- The middleware for one request after the other, with whether it lets them through. -/
def rateLimitAll (env : Env) (s : Counters) : List Call → List (Call × Bool)
  | [] => []
  | call :: rest =>
    let result := rateLimit env s call
    (call, result.2.isNone) :: rateLimitAll env result.1 rest

/-- A call of the tenant under a plan whose ceiling is published. -/
def isOfPlan (tenantId : String) (sub : Subscription) (call : Call) : Bool :=
  call.req.tenantId = some tenantId && call.req.rateLimitMax = effectiveRateLimitPerMinute sub

/-- The admitted requests of a tenant under its plan in a window. -/
def admittedIn (env : Env) (tenantId : String) (sub : Subscription) (bucket : ℤ)
    (log : List (Call × Bool)) : ℕ :=
  log.countP fun e => isOfPlan tenantId sub e.1 &&
    bucketOf env.RATE_LIMIT_WINDOW_SECONDS e.1.now = bucket && e.2

/-- At most `r` a minute are admitted: in a window its share, rounded up, and over windows that
are whole minutes exactly as many. -/
structure PerMinute (env : Env) (tenantId : String) (sub : Subscription) (r : ℕ)
    (log : List (Call × Bool)) : Prop where
  window : ∀ bucket, admittedIn env tenantId sub bucket log ≤
    ⌈(r * (env.RATE_LIMIT_WINDOW_SECONDS : ℕ) / 60 : ℚ)⌉₊
  minutes : ∀ (bucket : ℤ) (windows minutes : ℕ),
    windows * (env.RATE_LIMIT_WINDOW_SECONDS : ℕ) = 60 * minutes →
      ∑ i ∈ Finset.range windows, admittedIn env tenantId sub (bucket + i) log ≤ r * minutes

section Ceiling

variable {env : Env} {tenantId : String} {sub : Subscription} {r : ℕ} {C : Finset Counter}
  {calls : List Call}

/-- An enabled limiter lets through what its counters allow. -/
theorem rateLimitAll_eq (h : env.RATE_LIMIT_ENABLED = true) (s : Counters) :
    rateLimitAll env s calls = (consultAll env s calls).map fun e => (e.1, e.2.allowed) := by
  induction calls generalizing s with
  | nil => rfl
  | cons call rest ih =>
    obtain ⟨hcounters, hnone⟩ := rateLimit_eq_none_iff h s call
    have hthrough : (rateLimit env s call).2.isNone = (consult env s call).2.allowed := by
      rw [Bool.eq_iff_iff, Option.isNone_iff_eq_none, hnone]
    rw [rateLimitAll, consultAll, List.map_cons, hthrough, hcounters, ih]

theorem idOf_eq {req : Request} (hid : req.tenantId = some tenantId) (hne : tenantId ≠ "") :
    idOf req = tenantId := by
  have hkept : (some tenantId).filter (· ≠ "") = some tenantId :=
    Option.filter_some_pos (by simpa using hne)
  rw [idOf, hid, hkept]
  rfl

/-- A call of the plan and its counter, as the counter sees it. -/
theorem admittedBy_eq (hne : tenantId ≠ "")
    (hceiling : effectiveRateLimitPerMinute sub = some (r : ℤ)) (c : Counter) (bucket : ℤ)
    {e : Call × Verdict} (h : isOfPlan tenantId sub e.1 = true) :
    admittedBy env c ⟨tenantId, bucket⟩ r e = (e.2.counter = c &&
      (bucketOf env.RATE_LIMIT_WINDOW_SECONDS e.1.now = bucket && e.2.allowed)) := by
  simp only [isOfPlan, Bool.and_eq_true, decide_eq_true_eq, hceiling] at h
  obtain ⟨hid, hmax⟩ := h
  have hkey : (keyOf env e.1 = ⟨tenantId, bucket⟩) =
      (bucketOf env.RATE_LIMIT_WINDOW_SECONDS e.1.now = bucket) := by
    rw [keyOf, idOf_eq hid hne, WindowKey.mk.injEq, eq_self_iff_true, true_and]
  have hown : maxOf env e.1.req = r := by
    rw [maxOf, hmax]
    rfl
  simp [admittedBy, hkey, hown, Bool.and_assoc]

/-- The admitted requests of a window, by the counters that admitted them. -/
theorem admittedIn_eq_sum (henabled : env.RATE_LIMIT_ENABLED = true) (hC : AnsweredBy C calls)
    (bucket : ℤ) : admittedIn env tenantId sub bucket (rateLimitAll env .empty calls) =
      ∑ c ∈ C, (logOf env calls).countP fun e => e.2.counter = c && (isOfPlan tenantId sub e.1 &&
        bucketOf env.RATE_LIMIT_WINDOW_SECONDS e.1.now = bucket && e.2.allowed) := by
  rw [admittedIn, rateLimitAll_eq henabled, List.countP_map]
  exact countP_eq_sum (fun e he => hC.mem he) _

/-- A counter admits no more in a window than the ceiling, and all counters together no more than
each of them. -/
theorem admittedIn_le (henabled : env.RATE_LIMIT_ENABLED = true) (hne : tenantId ≠ "")
    (hceiling : effectiveRateLimitPerMinute sub = some (r : ℤ))
    (hsorted : calls.Pairwise (·.now ≤ ·.now)) (hC : AnsweredBy C calls) (bucket : ℤ) :
    admittedIn env tenantId sub bucket (rateLimitAll env .empty calls) ≤ C.card * r := by
  rw [admittedIn_eq_sum henabled hC]
  apply Finset.sum_le_card_nsmul
  intro c _
  calc _ ≤ (logOf env calls).countP (admittedBy env c ⟨tenantId, bucket⟩ r) := by
        apply List.countP_mono_left
        intro e _ he
        simp only [Bool.and_eq_true] at he
        rw [admittedBy_eq hne hceiling c bucket he.2.1.1]
        simpa only [Bool.and_eq_true] using ⟨he.1, he.2.1.2, he.2.2⟩
    _ = (decisions [] (hitsOn env c (logOf env calls))).countP
          (isAdmitted ⟨tenantId, bucket⟩ r) := tallies_logOf hsorted c ⟨tenantId, bucket⟩ r
    _ ≤ (r : ℤ).toNat - [].count (⟨tenantId, bucket⟩ : WindowKey) := countP_isAdmitted_le _ _ _ _
    _ = r := by simp

/-- A minute for every counter is enough. -/
theorem perMinute_of_le (henabled : env.RATE_LIMIT_ENABLED = true) (hne : tenantId ≠ "")
    (hceiling : effectiveRateLimitPerMinute sub = some (r : ℤ))
    (hsorted : calls.Pairwise (·.now ≤ ·.now)) (hC : AnsweredBy C calls)
    (h : r = 0 ∨ 60 * C.card ≤ (env.RATE_LIMIT_WINDOW_SECONDS : ℕ)) :
    PerMinute env tenantId sub r (rateLimitAll env .empty calls) := by
  have hle := admittedIn_le henabled hne hceiling hsorted hC
  constructor
  · intro bucket
    have hshare : (C.card * r : ℕ) ≤ (r * (env.RATE_LIMIT_WINDOW_SECONDS : ℕ) / 60 : ℚ) := by
      rw [le_div_iff₀ (by norm_num)]
      rcases h with rfl | h
      · simp
      · have hprod : C.card * r * 60 ≤ r * (env.RATE_LIMIT_WINDOW_SECONDS : ℕ) := by nlinarith
        exact_mod_cast hprod
    have hceil := hshare.trans (Nat.le_ceil _)
    exact (hle bucket).trans (by exact_mod_cast hceil)
  · intro bucket windows minutes hwindows
    calc ∑ i ∈ Finset.range windows,
          admittedIn env tenantId sub (bucket + i) (rateLimitAll env .empty calls)
        ≤ (Finset.range windows).card • (C.card * r) :=
          Finset.sum_le_card_nsmul _ _ _ fun i _ => hle _
      _ = windows * C.card * r := by rw [Finset.card_range, smul_eq_mul, mul_assoc]
      _ ≤ r * minutes := by
          rcases h with rfl | h
          · simp
          · have hcounters : windows * (60 * C.card) ≤ 60 * minutes :=
              hwindows ▸ Nat.mul_le_mul_left _ h
            have hle : windows * C.card ≤ minutes := by nlinarith
            nlinarith

end Ceiling

section Burst

variable {env : Env} {tenantId : String} {sub : Subscription} {r : ℕ} {C : Finset Counter}

/-- A request of the tenant under its plan that a counter answers, at a moment. -/
def callTo (tenantId : String) (sub : Subscription) (now : ℤ) (c : Counter) : Call :=
  let req := publish (some sub) ⟨some tenantId, none, none, none⟩
  match c with
  | .redis => ⟨now, 0, .answers, req⟩
  | .process n => ⟨now, n, .incrThrows, req⟩

@[simp] theorem callTo_now (now : ℤ) (c : Counter) : (callTo tenantId sub now c).now = now := by
  cases c with
  | redis => rfl
  | process n => rfl

@[simp] theorem mayAnswer_callTo (now : ℤ) (c : Counter) :
    mayAnswer (callTo tenantId sub now c) = {c} := by
  cases c with
  | redis => rfl
  | process n => rfl

theorem isOfPlan_callTo (now : ℤ) (c : Counter) :
    isOfPlan tenantId sub (callTo tenantId sub now c) = true := by
  cases c with
  | redis => simp [isOfPlan, callTo, publish]
  | process n => simp [isOfPlan, callTo, publish]

/-- As many requests as the ceiling to each counter at the start of a window. -/
noncomputable def burstAt (env : Env) (tenantId : String) (sub : Subscription) (r : ℕ)
    (C : Finset Counter) (window : ℕ) : List Call :=
  C.toList.flatMap fun c => List.replicate r
    (callTo tenantId sub (1000 * (env.RATE_LIMIT_WINDOW_SECONDS : ℕ) * window) c)

/-- The same in each of sixty windows. -/
noncomputable def burst (env : Env) (tenantId : String) (sub : Subscription) (r : ℕ)
    (C : Finset Counter) : List Call := (List.range 60).flatMap (burstAt env tenantId sub r C)

theorem mem_burstAt {window : ℕ} {call : Call} (h : call ∈ burstAt env tenantId sub r C window) :
    ∃ c ∈ C, call =
      callTo tenantId sub (1000 * (env.RATE_LIMIT_WINDOW_SECONDS : ℕ) * window) c := by
  obtain ⟨c, hc, hcall⟩ := List.mem_flatMap.mp h
  exact ⟨c, Finset.mem_toList.mp hc, (List.mem_replicate.mp hcall).2⟩

theorem mem_burst {call : Call} (h : call ∈ burst env tenantId sub r C) :
    ∃ now, ∃ c ∈ C, call = callTo tenantId sub now c := by
  obtain ⟨window, -, hwindow⟩ := List.mem_flatMap.mp h
  obtain ⟨c, hc, hcall⟩ := mem_burstAt hwindow
  exact ⟨_, c, hc, hcall⟩

theorem pairwise_burst : (burst env tenantId sub r C).Pairwise (·.now ≤ ·.now) := by
  rw [burst, List.pairwise_flatMap]
  have hnow : ∀ {window call}, call ∈ burstAt env tenantId sub r C window →
      call.now = 1000 * (env.RATE_LIMIT_WINDOW_SECONDS : ℕ) * window := by
    intro window call hcall
    obtain ⟨c, -, rfl⟩ := mem_burstAt hcall
    exact callTo_now _ _
  constructor
  · intro window _
    apply List.pairwise_of_forall_mem_list
    intro call hcall call' hcall'
    rw [hnow hcall, hnow hcall']
  · refine List.pairwise_lt_range.imp ?_
    intro window window' hlt call hcall call' hcall'
    rw [hnow hcall, hnow hcall']
    gcongr

theorem answeredBy_burst : AnsweredBy C (burst env tenantId sub r C) := by
  intro call hcall
  obtain ⟨now, c, hc, rfl⟩ := mem_burst hcall
  rw [mayAnswer_callTo]
  exact Finset.singleton_subset_iff.mpr hc

/-- The hit of a call on a counter that alone can answer it. -/
def hitFrom (env : Env) (c : Counter) (call : Call) : Option (Hit WindowKey) :=
  if mayAnswer call = {c} then some (askedHit env call) else none

theorem hitOn_eq_hitFrom {e : Call × Verdict} (h : e.2.counter ∈ mayAnswer e.1)
    (hlost : e.1.answer ≠ .incrLost) (hthrows : e.1.answer ≠ .expireThrows) (c : Counter) :
    hitOn env c e = hitFrom env c e.1 := by
  rw [hitFrom]
  cases hanswer : e.1.answer with
  | answers =>
    rw [mayAnswer, hanswer] at h ⊢
    have hcounter := Finset.mem_singleton.mp h
    cases c with
    | redis => simp [hitOn, hanswer, hcounter, askedHit]
    | process n => simp [hitOn, hcounter]
  | incrThrows =>
    rw [mayAnswer, hanswer] at h ⊢
    have hcounter := Finset.mem_singleton.mp h
    cases c with
    | redis => simp [hitOn, hanswer]
    | process n => simp [hitOn, hcounter, askedHit]
  | incrLost => exact absurd hanswer hlost
  | expireThrows => exact absurd hanswer hthrows

/-- The hits of a burst on a counter. -/
theorem hitsOn_burst (c : Counter) :
    hitsOn env c (logOf env (burst env tenantId sub r C)) =
      (burst env tenantId sub r C).filterMap (hitFrom env c) := by
  conv_rhs => rw [← @map_fst_consultAll env (burst env tenantId sub r C) .empty, List.filterMap_map]
  apply List.filterMap_congr
  intro e he
  obtain ⟨now, c', -, hcall⟩ := mem_burst (call_mem he)
  refine hitOn_eq_hitFrom (counter_mem _ e he) ?_ ?_ c
  all_goals
    rw [hcall]
    cases c' with
    | redis => simp [callTo]
    | process n => simp [callTo]

theorem bucketOf_mul (window : ℕ+) (n : ℕ) : bucketOf window (1000 * (window : ℕ) * n) = n := by
  have hpos : (1000 * (window : ℕ) : ℤ) ≠ 0 := by
    have hwindow : (0 : ℤ) < (window : ℕ) := by exact_mod_cast window.pos
    omega
  rw [bucketOf, Int.mul_ediv_cancel_left _ hpos]

theorem askedHit_callTo (hne : tenantId ≠ "")
    (hceiling : effectiveRateLimitPerMinute sub = some (r : ℤ)) (now : ℤ) (c : Counter) :
    askedHit env (callTo tenantId sub now c) =
      ⟨⟨tenantId, bucketOf env.RATE_LIMIT_WINDOW_SECONDS now⟩, r, true⟩ := by
  have hreq : (callTo tenantId sub now c).req = ⟨some tenantId, none, some (r : ℤ), none⟩ := by
    cases c with
    | redis => simp [callTo, publish, hceiling]
    | process n => simp [callTo, publish, hceiling]
  rw [askedHit, keyOf, callTo_now, hreq, idOf_eq rfl hne]
  rfl

/-- In each window of a burst a counter is hit as often as the ceiling. -/
theorem le_hitsOn_burst (hne : tenantId ≠ "")
    (hceiling : effectiveRateLimitPerMinute sub = some (r : ℤ)) {c : Counter} (hc : c ∈ C)
    {window : ℕ} (hwindow : window < 60) :
    r ≤ (hitsOn env c (logOf env (burst env tenantId sub r C))).countP
      fun hit => hit.key = ⟨tenantId, window⟩ := by
  set call := callTo tenantId sub (1000 * (env.RATE_LIMIT_WINDOW_SECONDS : ℕ) * window) c
    with hcall
  have hat : (burstAt env tenantId sub r C window).Sublist (burst env tenantId sub r C) :=
    List.sublist_flatten_of_mem (List.mem_map_of_mem (List.mem_range.mpr hwindow))
  have hthere : (List.replicate r call).Sublist (burstAt env tenantId sub r C window) :=
    List.sublist_flatten_of_mem (List.mem_map.mpr ⟨c, Finset.mem_toList.mpr hc, by rw [hcall]⟩)
  have hhit : hitFrom env c call = some ⟨⟨tenantId, window⟩, r, true⟩ := by
    rw [hcall, hitFrom, if_pos (mayAnswer_callTo _ c), askedHit_callTo hne hceiling, bucketOf_mul]
  have hhits := (hthere.trans hat).filterMap (hitFrom env c)
  rw [List.filterMap_replicate_of_some hhit, ← hitsOn_burst] at hhits
  refine le_trans ?_ hhits.countP_le
  rw [List.countP_replicate, if_pos (decide_eq_true rfl)]

/-- A counter admits all of its requests in each window of a burst. -/
theorem admitted_burst (hne : tenantId ≠ "")
    (hceiling : effectiveRateLimitPerMinute sub = some (r : ℤ)) {c : Counter} (hc : c ∈ C)
    {window : ℕ} (hwindow : window < 60) :
    (logOf env (burst env tenantId sub r C)).countP
      (admittedBy env c ⟨tenantId, window⟩ r) = r := by
  have hasked : ∀ hit ∈ hitsOn env c (logOf env (burst env tenantId sub r C)),
      hit.max = r ∧ hit.asked = true := by
    rw [hitsOn_burst]
    intro hit hhit
    obtain ⟨call, hcall, hsome⟩ := List.mem_filterMap.mp hhit
    obtain ⟨now, c', -, rfl⟩ := mem_burst hcall
    rw [hitFrom] at hsome
    split_ifs at hsome
    rw [← Option.some_inj.mp hsome, askedHit_callTo hne hceiling]
    exact ⟨rfl, rfl⟩
  rw [tallies_logOf pairwise_burst, countP_isAdmitted_eq _ _ hasked, List.count_nil, Nat.sub_zero,
    Int.toNat_natCast]
  exact min_eq_left (le_hitsOn_burst hne hceiling hc hwindow)

/-- In every window of a burst all counters admit as much as the ceiling. -/
theorem le_admittedIn_burst (henabled : env.RATE_LIMIT_ENABLED = true) (hne : tenantId ≠ "")
    (hceiling : effectiveRateLimitPerMinute sub = some (r : ℤ)) {window : ℕ}
    (hwindow : window < 60) : C.card * r ≤ admittedIn env tenantId sub window
      (rateLimitAll env .empty (burst env tenantId sub r C)) := by
  rw [admittedIn_eq_sum henabled answeredBy_burst]
  apply Finset.card_nsmul_le_sum
  intro c hc
  refine (@admitted_burst env _ _ _ _ hne hceiling c hc _ hwindow).ge.trans ?_
  apply List.countP_mono_left
  intro e he hadmitted
  obtain ⟨now, c', -, hcall⟩ := mem_burst (call_mem he)
  have hplan : isOfPlan tenantId sub e.1 = true := hcall ▸ isOfPlan_callTo now c'
  rw [admittedBy_eq hne hceiling c _ hplan] at hadmitted
  rwa [hplan, Bool.true_and]

end Burst

/-- A plan's ceiling is kept per minute exactly when it is zero or a window has a minute for each
counter that can answer. -/
theorem perMinute_iff {env : Env} {tenantId : String} {sub : Subscription} {r : ℕ}
    (henabled : env.RATE_LIMIT_ENABLED = true) (hne : tenantId ≠ "")
    (hceiling : effectiveRateLimitPerMinute sub = some (r : ℤ)) (C : Finset Counter) :
    (∀ calls : List Call, calls.Pairwise (·.now ≤ ·.now) → AnsweredBy C calls →
        PerMinute env tenantId sub r (rateLimitAll env .empty calls)) ↔
      r = 0 ∨ 60 * C.card ≤ (env.RATE_LIMIT_WINDOW_SECONDS : ℕ) := by
  constructor
  · intro h
    have hkept := h (burst env tenantId sub r C) pairwise_burst answeredBy_burst
    have hburst := hkept.minutes 0 60 (env.RATE_LIMIT_WINDOW_SECONDS : ℕ) rfl
    have hleast : 60 * (C.card * r) ≤ ∑ i ∈ Finset.range 60, admittedIn env tenantId sub (0 + i)
        (rateLimitAll env .empty (burst env tenantId sub r C)) := by
      have hsum := Finset.card_nsmul_le_sum (Finset.range 60) (fun i => admittedIn env tenantId sub
        (0 + i) (rateLimitAll env .empty (burst env tenantId sub r C))) (C.card * r) (by
          intro i hi
          rw [zero_add]
          exact le_admittedIn_burst henabled hne hceiling (Finset.mem_range.mp hi))
      rwa [Finset.card_range, smul_eq_mul] at hsum
    have hboth := hleast.trans hburst
    rcases Nat.eq_zero_or_pos r with hzero | hpos
    · exact .inl hzero
    · refine .inr (Nat.le_of_mul_le_mul_left ?_ hpos)
      calc r * (60 * C.card) = 60 * (C.card * r) := by ring
        _ ≤ r * (env.RATE_LIMIT_WINDOW_SECONDS : ℕ) := hboth
  · intro h calls hsorted hC
    exact perMinute_of_le henabled hne hceiling hsorted hC h

/-- A plan with a ceiling of one request a minute. -/
def oneAMinute : Subscription :=
  subscribed { limitedPlan with
    entitlements := ⟨[], .pii, [], ⟨none, none, none, some 1, none, 30⟩⟩ } 0

/-- Windows of so many seconds. -/
def windowsOf (seconds : ℕ+) : Env := ⟨true, 60, seconds⟩

/-- While Redis answers, one request a minute is kept in windows of a minute but not of half. -/
theorem perMinute_oneAMinute :
    (∀ calls : List Call, calls.Pairwise (·.now ≤ ·.now) → AnsweredBy {.redis} calls →
        PerMinute (windowsOf 60) "acme" oneAMinute 1 (rateLimitAll (windowsOf 60) .empty calls)) ∧
      ¬∀ calls : List Call, calls.Pairwise (·.now ≤ ·.now) → AnsweredBy {.redis} calls →
        PerMinute (windowsOf 30) "acme" oneAMinute 1 (rateLimitAll (windowsOf 30) .empty calls) :=
  ⟨(perMinute_iff rfl (by decide) rfl {.redis}).mpr (.inr le_rfl),
    fun h => absurd ((perMinute_iff rfl (by decide) rfl {.redis}).mp h) (by decide)⟩

/-- In windows of half a minute Redis admits two requests in one. -/
theorem two_in_a_minute : ¬PerMinute (windowsOf 30) "acme" oneAMinute 1
    (rateLimitAll (windowsOf 30) .empty
      [callTo "acme" oneAMinute 0 .redis, callTo "acme" oneAMinute 30000 .redis]) := by
  intro h
  have hminute := h.minutes 0 2 1 rfl
  have hadmitted : ∑ i ∈ Finset.range 2, admittedIn (windowsOf 30) "acme" oneAMinute (0 + i)
      (rateLimitAll (windowsOf 30) .empty
        [callTo "acme" oneAMinute 0 .redis, callTo "acme" oneAMinute 30000 .redis]) = 2 := by
    decide +kernel
  omega

end HeirsOcr.RateLimit

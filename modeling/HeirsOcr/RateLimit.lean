import HeirsOcr.DecimalText
import HeirsOcr.Entitlements
import HeirsOcr.Errors
import HeirsOcr.ExpiringKeys
import HeirsOcr.FixedWindow

/-!
# The rate limiter

Requests are counted by id and window, in Redis or, where Redis throws, in a map of the process.
Every call to the map clears out the entries of windows that are over, whichever id calls, and an
entry stays until its window ends, so the map decides as counters that are never cleared would.
-/
namespace HeirsOcr.RateLimit
open DecimalText AddressText JsText FixedWindow ExpiringKeys

structure Env where
  RATE_LIMIT_ENABLED : Bool
  RATE_LIMIT_MAX : ℕ+
  RATE_LIMIT_WINDOW_SECONDS : ℕ+

/-- What the limiter reads of a request. -/
structure Request where
  tenantId : Option String
  ip : Option String
  rateLimitMax : Option ℤ
  tenantRateLimit : Option ℤ

/-- The number of the window a moment lies in. -/
def bucketOf (window : ℕ+) (now : ℤ) : ℤ := now / (1000 * (window : ℕ))

/-- The first moment behind a window. -/
def bucketEnd (window : ℕ+) (bucket : ℤ) : ℤ := (bucket + 1) * (window : ℕ) * 1000

def bucketKey (id : String) (bucket : ℤ) : String := id ++ ":" ++ String.ofList (intText bucket)

/-- An entry of the map. -/
structure Bucket where
  count : ℕ
  expiresAt : ℤ
  deriving DecidableEq, Repr

abbrev LocalBuckets := String → Option Bucket

/-- Drops what has expired. -/
def sweep (localBuckets : LocalBuckets) (now : ℤ) : LocalBuckets :=
  fun key => (localBuckets key).filter fun b => !decide (b.expiresAt ≤ now)

def underLimitLocal (window : ℕ+) (localBuckets : LocalBuckets) (now : ℤ) (id : String) (max : ℤ) :
    LocalBuckets × Bool :=
  let bucket := bucketOf window now
  let key := bucketKey id bucket
  let swept := sweep localBuckets now
  let entry := (swept key).getD ⟨0, bucketEnd window bucket⟩
  let count := entry.count + 1
  (Function.update swept key (some { entry with count := count }), decide ((count : ℤ) ≤ max))

/-- What Redis does of the two commands; an `INCR` that throws may have been carried out. -/
inductive RedisAnswer where
  | answers
  | incrThrows
  | incrLost
  | expireThrows
  deriving DecidableEq, Repr

/-- The counter behind `ratelimit:`; `none` where a command throws. -/
def underLimit (window : ℕ+) (redis : Keyspace String ℕ) (answer : RedisAnswer) (now : ℤ)
    (id : String) (max : ℤ) : Keyspace String ℕ × Option Bool :=
  let key := "ratelimit:" ++ bucketKey id (bucketOf window now)
  if answer = .incrThrows then (redis, none)
  else
    let (counted, count) := incr redis now key
    if answer = .incrLost then (counted, none)
    else if count = 1 then
      if answer = .expireThrows then (counted, none)
      else (expire counted now key (window : ℕ), some (decide ((count : ℤ) ≤ max)))
    else (counted, some (decide ((count : ℤ) ≤ max)))

/-- Redis, which the processes share, and their maps. -/
structure Counters where
  redis : Keyspace String ℕ
  processes : ℕ → LocalBuckets

def Counters.empty : Counters := ⟨fun _ => none, fun _ _ => none⟩

/-- A request that reaches the limiter of a process. -/
structure Call where
  now : ℤ
  process : ℕ
  answer : RedisAnswer
  req : Request

inductive Counter where
  | redis
  | process (n : ℕ)
  deriving DecidableEq, Repr

/-- Which counter answered, and what. -/
structure Verdict where
  counter : Counter
  allowed : Bool
  deriving DecidableEq, Repr

/-- `req.tenantId || req.ip || "anon"`. -/
def idOf (req : Request) : String :=
  ((req.tenantId.filter (· ≠ "")).or (req.ip.filter (· ≠ ""))).getD "anon"

/-- The plan's ceiling, the tenant's own or the default. -/
def maxOf (env : Env) (req : Request) : ℤ :=
  (req.rateLimitMax.or req.tenantRateLimit).getD (env.RATE_LIMIT_MAX : ℕ)

def consult (env : Env) (s : Counters) (call : Call) : Counters × Verdict :=
  let window := env.RATE_LIMIT_WINDOW_SECONDS
  let id := idOf call.req
  let max := maxOf env call.req
  match underLimit window s.redis call.answer call.now id max with
  | (redis, some allowed) => (⟨redis, s.processes⟩, ⟨.redis, allowed⟩)
  | (redis, none) =>
    let (localBuckets, allowed) :=
      underLimitLocal window (s.processes call.process) call.now id max
    (⟨redis, Function.update s.processes call.process localBuckets⟩,
      ⟨.process call.process, allowed⟩)

/-- The middleware, with the error it hands to `next`. -/
def rateLimit (env : Env) (s : Counters) (call : Call) : Counters × Option OcrError :=
  if env.RATE_LIMIT_ENABLED = false then (s, none)
  else
    let (counters, verdict) := consult env s call
    (counters, if verdict.allowed then none
      else some ⟨.RATE_LIMITED, "Rate limit of " ++ String.ofList (intText (maxOf env call.req)) ++
        " requests per " ++ toString (env.RATE_LIMIT_WINDOW_SECONDS : ℕ) ++ "s exceeded", true⟩)

section Keys

variable {window : ℕ+} {now : ℤ}

/-- A moment lies before the end of its window. -/
theorem lt_bucketEnd (window : ℕ+) (now : ℤ) : now < bucketEnd window (bucketOf window now) := by
  have hpos : (0 : ℤ) < 1000 * (window : ℕ) := by
    have hwindow : (0 : ℤ) < (window : ℕ) := by exact_mod_cast window.pos
    omega
  have hlt := Int.lt_ediv_add_one_mul_self now hpos
  calc now < (now / (1000 * (window : ℕ)) + 1) * (1000 * (window : ℕ)) := hlt
    _ = bucketEnd window (bucketOf window now) := by
        rw [bucketEnd, bucketOf]
        ring

/-- A window is not longer than its seconds from any moment in it. -/
theorem bucketEnd_le (window : ℕ+) (now : ℤ) :
    bucketEnd window (bucketOf window now) ≤ now + 1000 * (window : ℕ) := by
  have hpos : (1000 * (window : ℕ) : ℤ) ≠ 0 := by
    have hwindow : (0 : ℤ) < (window : ℕ) := by exact_mod_cast window.pos
    omega
  have hle := Int.ediv_mul_le now hpos
  calc bucketEnd window (bucketOf window now)
      = now / (1000 * (window : ℕ)) * (1000 * (window : ℕ)) + 1000 * (window : ℕ) := by
        rw [bucketEnd, bucketOf]
        ring
    _ ≤ now + 1000 * (window : ℕ) := by omega

theorem colon_notMem_intText (n : ℤ) : ':' ∉ intText n := by
  have hdigits : ∀ k : ℕ, ':' ∉ Nat.toDigits 10 k := by
    intro k hmem
    have hdigit := isDigit_toDigits k ':' hmem
    revert hdigit
    decide
  rw [intText]
  split_ifs
  · simpa using hdigits _
  · exact hdigits _

theorem toDigits_injective : Function.Injective (Nat.toDigits 10) := by
  intro n k h
  have hread := congrArg (fun digits => Nat.ofDigitChars 10 digits 0) h
  simpa using hread

theorem intText_injective : Function.Injective intText := by
  intro n k h
  have hsign : ∀ j l : ℕ, '-' :: Nat.toDigits 10 j ≠ Nat.toDigits 10 l := by
    intro j l heq
    have hdigit := isDigit_toDigits l '-' (heq ▸ List.mem_cons_self)
    revert hdigit
    decide
  rw [intText, intText] at h
  split_ifs at h with hn hk hk
  · have habs := toDigits_injective (List.cons.inj h).2
    omega
  · exact absurd h (hsign _ _)
  · exact absurd h.symm (hsign _ _)
  · have habs := toDigits_injective h
    omega

/-- A mark that is in neither front cuts a text one way only. -/
theorem eq_of_append_mark {mark : Char} {x x' y y' : List Char} (hx : mark ∉ x) (hx' : mark ∉ x')
    (h : x ++ mark :: y = x' ++ mark :: y') : x = x' ∧ y = y' := by
  have hfront : ∀ z rest : List Char, mark ∉ z →
      (z ++ mark :: rest).takeWhile (· != mark) = z := by
    intro z rest hz
    have hpos : ∀ c ∈ z, (c != mark) = true := by
      intro c hc
      rw [bne_iff_ne]
      rintro rfl
      exact hz hc
    rw [List.takeWhile_append_of_pos hpos]
    simp
  have hsame : x = x' := by
    rw [← hfront x y hx, h, hfront x' y' hx']
  subst hsame
  exact ⟨rfl, (List.cons.inj (List.append_cancel_left h)).2⟩

theorem toList_bucketKey (id : String) (bucket : ℤ) :
    (bucketKey id bucket).toList = id.toList ++ ':' :: intText bucket := by
  simp [bucketKey]

/-- A key says whose it is and for which window. -/
theorem bucketKey_inj {id id' : String} {bucket bucket' : ℤ} :
    bucketKey id bucket = bucketKey id' bucket' ↔ id = id' ∧ bucket = bucket' := by
  constructor
  · intro h
    have htext := congrArg String.toList h
    rw [toList_bucketKey, toList_bucketKey] at htext
    have hreverse : (intText bucket).reverse ++ ':' :: id.toList.reverse =
        (intText bucket').reverse ++ ':' :: id'.toList.reverse := by
      simpa using congrArg List.reverse htext
    have hcolon : ∀ n : ℤ, ':' ∉ (intText n).reverse := fun n hmem =>
      colon_notMem_intText n (List.mem_reverse.mp hmem)
    obtain ⟨hbucket, hid⟩ := eq_of_append_mark (hcolon _) (hcolon _) hreverse
    exact ⟨String.toList_inj.mp (List.reverse_injective hid),
      intText_injective (List.reverse_injective hbucket)⟩
  · rintro ⟨rfl, rfl⟩
    rfl

end Keys

/-- Whose hits in which window. -/
structure WindowKey where
  id : String
  bucket : ℤ
  deriving DecidableEq, Repr

/-- The map counts the hits on the windows that are not over. -/
def Counts (window : ℕ+) (localBuckets : LocalBuckets) (hits : List WindowKey) (now : ℤ) :
    Prop :=
  ∀ id bucket, match localBuckets (bucketKey id bucket) with
    | some entry => entry.count = hits.count ⟨id, bucket⟩ ∧
        entry.expiresAt = bucketEnd window bucket
    | none => bucketEnd window bucket ≤ now ∨ hits.count ⟨id, bucket⟩ = 0

section Local

variable {window : ℕ+} {localBuckets : LocalBuckets} {hits : List WindowKey} {now now' : ℤ}

theorem counts_empty (window : ℕ+) (now : ℤ) : Counts window (fun _ => none) [] now :=
  fun _ _ => .inr rfl

/-- Clearing out drops windows that are over, and no more. -/
theorem Counts.sweep (h : Counts window localBuckets hits now') (hle : now' ≤ now) :
    Counts window (sweep localBuckets now) hits now := by
  intro id bucket
  have hkey := h id bucket
  rw [RateLimit.sweep]
  cases hentry : localBuckets (bucketKey id bucket) with
  | none =>
    rw [hentry] at hkey
    rcases hkey with hover | hzero
    · exact .inl (hover.trans hle)
    · exact .inr hzero
  | some entry =>
    rw [hentry] at hkey
    by_cases hexpired : entry.expiresAt ≤ now
    · have hgone : (some entry).filter (fun b => !decide (b.expiresAt ≤ now)) = none := by
        simp [hexpired]
      rw [hgone]
      exact .inl (hkey.2 ▸ hexpired)
    · have hkept : (some entry).filter (fun b => !decide (b.expiresAt ≤ now)) = some entry := by
        simp [hexpired]
      rw [hkept]
      exact hkey

/-- The entry a call finds. -/
theorem Counts.entry (h : Counts window localBuckets hits now) (id : String) :
    (localBuckets (bucketKey id (bucketOf window now))).getD
        ⟨0, bucketEnd window (bucketOf window now)⟩ =
      ⟨hits.count ⟨id, bucketOf window now⟩, bucketEnd window (bucketOf window now)⟩ := by
  have hkey := h id (bucketOf window now)
  cases hentry : localBuckets (bucketKey id (bucketOf window now)) with
  | none =>
    rw [hentry] at hkey
    have hzero : hits.count ⟨id, bucketOf window now⟩ = 0 := by
      rcases hkey with hover | hzero
      · exact absurd (lt_bucketEnd window now) (not_lt.mpr hover)
      · exact hzero
    rw [hzero]
    rfl
  | some entry =>
    rw [hentry] at hkey
    obtain ⟨count, expiresAt⟩ := entry
    obtain ⟨rfl, rfl⟩ := hkey
    rfl

/-- A call is counted, and decided by the hits on its window before. -/
theorem underLimitLocal_spec (h : Counts window localBuckets hits now') (hle : now' ≤ now)
    (id : String) (max : ℤ) (asked : Bool) :
    (underLimitLocal window localBuckets now id max).2 =
        admits hits ⟨⟨id, bucketOf window now⟩, max, asked⟩ ∧
      Counts window (underLimitLocal window localBuckets now id max).1
        (hits ++ [⟨id, bucketOf window now⟩]) now := by
  have hswept := h.sweep hle
  have hentry := hswept.entry id
  have hcall : underLimitLocal window localBuckets now id max =
      (Function.update (RateLimit.sweep localBuckets now) (bucketKey id (bucketOf window now))
        (some ⟨hits.count ⟨id, bucketOf window now⟩ + 1, bucketEnd window (bucketOf window now)⟩),
        decide (((hits.count ⟨id, bucketOf window now⟩ + 1 : ℕ) : ℤ) ≤ max)) := by
    rw [underLimitLocal, hentry]
  rw [hcall]
  constructor
  · dsimp only
    rw [admits, decide_eq_decide]
    push_cast
    omega
  · intro id' bucket
    dsimp only
    rw [List.count_append]
    by_cases hsame : id' = id ∧ bucket = bucketOf window now
    · obtain ⟨rfl, rfl⟩ := hsame
      rw [Function.update_self, List.count_singleton_self]
      exact ⟨rfl, rfl⟩
    · have hkey : bucketKey id' bucket ≠ bucketKey id (bucketOf window now) := fun heq =>
        hsame (bucketKey_inj.mp heq)
      have hother : [WindowKey.mk id (bucketOf window now)].count ⟨id', bucket⟩ = 0 :=
        List.count_eq_zero.mpr fun hmem => hsame (WindowKey.mk.inj (List.mem_singleton.mp hmem))
      rw [Function.update_of_ne hkey, hother, Nat.add_zero]
      exact hswept id' bucket

end Local

/-- A call to `underLimitLocal`. -/
structure LocalCall where
  now : ℤ
  id : String

/-- The decisions of one process, one call after the other. -/
def runLocal (window : ℕ+) (max : ℤ) (localBuckets : LocalBuckets) : List LocalCall → List Bool
  | [] => []
  | call :: rest =>
    let result := underLimitLocal window localBuckets call.now call.id max
    result.2 :: runLocal window max result.1 rest

/-- The hit a call is. -/
def LocalCall.hit (window : ℕ+) (max : ℤ) (call : LocalCall) : Hit WindowKey :=
  ⟨⟨call.id, bucketOf window call.now⟩, max, true⟩

/-- The map decides as counters that are never cleared. -/
theorem runLocal_eq {window : ℕ+} {max : ℤ} {localBuckets : LocalBuckets}
    {hits : List WindowKey} {now : ℤ} {calls : List LocalCall}
    (h : Counts window localBuckets hits now) (hnow : ∀ call ∈ calls, now ≤ call.now)
    (hsorted : calls.Pairwise (·.now ≤ ·.now)) : runLocal window max localBuckets calls =
      (decisions hits (calls.map (LocalCall.hit window max))).map Prod.snd := by
  induction calls generalizing localBuckets hits now with
  | nil => rfl
  | cons call rest ih =>
    obtain ⟨hlater, hsorted⟩ := List.pairwise_cons.mp hsorted
    obtain ⟨hdecision, hcounts⟩ :=
      underLimitLocal_spec h (hnow call List.mem_cons_self) call.id max true
    rw [runLocal, hdecision, ih hcounts hlater hsorted]
    rfl

/-- The decisions on the calls of an id, read off the calls or off their hits. -/
theorem filter_zip_decisions (window : ℕ+) (max : ℤ) (id : String) (before : List WindowKey)
    (calls : List LocalCall) :
    ((calls.zip ((decisions before (calls.map (LocalCall.hit window max))).map Prod.snd)).filter
        (·.1.id = id)).map Prod.snd =
      ((decisions before (calls.map (LocalCall.hit window max))).filter
        (fun d => decide (d.1.key.id = id))).map Prod.snd := by
  induction calls generalizing before with
  | nil => rfl
  | cons call rest ih =>
    rw [List.map_cons, decisions, List.map_cons, List.zip_cons_cons, List.filter_cons,
      List.filter_cons]
    have hkey : (call.hit window max).key.id = call.id := rfl
    by_cases hid : call.id = id
    · simp only [hkey, hid, decide_true, if_true, List.map_cons, ih]
    · simp only [hkey, hid, decide_false, Bool.false_eq_true, if_false, ih]

/-- A call is one of an id in a window. -/
def LocalCall.isIn (window : ℕ+) (id : String) (bucket : ℤ) (call : LocalCall) : Bool :=
  call.id = id && bucketOf window call.now = bucket

/-- Of the calls of an id in a window the first `max` are admitted and the rest refused, and an id's
decisions are those of its calls alone. -/
structure LimitsLocally (window : ℕ+) (max : ℤ) (calls : List LocalCall) : Prop where
  first : ∀ before call after, calls = before ++ call :: after →
    (runLocal window max (fun _ => none) calls)[before.length]? =
      some (decide ((before.countP
        (LocalCall.isIn window call.id (bucketOf window call.now)) : ℤ) < max))
  alone : ∀ id, ((calls.zip (runLocal window max (fun _ => none) calls)).filter
      (·.1.id = id)).map Prod.snd =
    runLocal window max (fun _ => none) (calls.filter (·.id = id))

/-- The map of a process limits calls whose times do not go back. -/
theorem local_limiter (window : ℕ+) (max : ℤ) {calls : List LocalCall}
    (hsorted : calls.Pairwise (·.now ≤ ·.now)) : LimitsLocally window max calls := by
  have hrun : ∀ calls : List LocalCall, calls.Pairwise (·.now ≤ ·.now) →
      runLocal window max (fun _ => none) calls =
        (decisions [] (calls.map (LocalCall.hit window max))).map Prod.snd := by
    intro calls hsorted
    cases calls with
    | nil => rfl
    | cons call rest =>
      refine runLocal_eq (counts_empty window call.now) ?_ hsorted
      exact List.forall_mem_cons.mpr ⟨le_rfl, (List.pairwise_cons.mp hsorted).1⟩
  constructor
  · intro before call after hcalls
    rw [hrun calls hsorted, hcalls, List.map_append, List.map_cons, List.getElem?_map]
    have hplace : before.length = (before.map (LocalCall.hit window max)).length := by simp
    have hcount : ((before.map (LocalCall.hit window max)).map Hit.key).count
        (call.hit window max).key =
        before.countP (LocalCall.isIn window call.id (bucketOf window call.now)) := by
      rw [List.map_map, List.count_eq_countP, List.countP_map]
      apply List.countP_congr
      intro c _
      simp [LocalCall.hit, LocalCall.isIn]
    rw [hplace, getElem?_decisions, Option.map_some, admits, hcount]
    rfl
  · intro id
    rw [hrun calls hsorted, filter_zip_decisions,
      filter_decisions (fun key : WindowKey => decide (key.id = id)), List.filter_nil,
      List.filter_map, hrun _ (hsorted.filter _)]
    rfl

/-- Three calls of one id about the end of a window of a second, one of another between them. -/
theorem local_limiter_second : LimitsLocally 1 1
    [⟨0, "acme"⟩, ⟨999, "other"⟩, ⟨999, "acme"⟩, ⟨1000, "acme"⟩] :=
  local_limiter 1 1 (by simp)

end HeirsOcr.RateLimit

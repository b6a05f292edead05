import HeirsOcr.OcrRoute

/-!
# No document without its gates

Each stage is characterised by what it hands on. Since a document is taken by the handler alone,
and a request reaches the handler only through the stages before it, every document taken has an
authenticated sender with a scope, a plan, a place under the limit and a size that let it through,
each at the time of its stage, whatever ran in between.
-/
namespace HeirsOcr.OcrRoute
open Billing Jobs Pipeline StepMachine StageChain CookieHeader
open Providers (Buffer OcrFunctionKey)

variable {Json Llm : Type} {settings : Settings Json Llm} {s : Gateway Json} {told : Told Llm}
  {req req' : Request Json}

theorem bindParams_call {segment : List Char}
    (h : (bindParams (.call segment) s told req).2 = .ok req') :
    ∃ param, decodeURIComponent segment = some param ∧
      req' = { req with param := String.ofList param } := by
  simp only [bindParams] at h
  cases hparam : decodeURIComponent segment with
  | none => simp [hparam, refuse] at h
  | some param =>
    rw [hparam] at h
    cases h
    exact ⟨param, rfl, rfl⟩

theorem auth_ok (h : (auth settings s told req).2 = .ok req') :
    ∃ who, CookieHeader.auth settings.AUTH_ENABLED (authStores told) req.headers req.cookie =
        .ok who ∧
      req' = { req with
        tenantId := some who.tenantId
        tenant := if settings.AUTH_ENABLED then
          some ⟨who.allowedFunctions, keyRateLimit told req⟩ else none } := by
  simp only [auth] at h
  cases hwho : CookieHeader.auth settings.AUTH_ENABLED (authStores told) req.headers
      req.cookie with
  | error e => simp [hwho, refuse] at h
  | ok who =>
    rw [hwho] at h
    cases h
    exact ⟨who, rfl, rfl⟩

theorem authorizeFunction_ok
    (h : (authorizeFunction s told req).2 = .ok req') :
    req' = req ∧
      req.param ∈ TenantKeys.authority (req.tenant.bind RequestTenant.allowedFunctions) := by
  simp only [authorizeFunction] at h
  cases hscope : TenantKeys.authorizeFunction (req.tenant.bind RequestTenant.allowedFunctions)
      req.param with
  | error e => simp [hscope, refuse] at h
  | ok _ =>
    rw [hscope] at h
    cases h
    exact ⟨rfl, hscope⟩

/-- The plan a request passes on, as the billing store told it. -/
theorem requireSubscription_ok (h : (requireSubscription settings s told req).2 = .ok req') :
    ∃ found, (∀ tenantId, req.tenantId = some tenantId → tenantId ≠ "" →
        told.resolveSubscription tenantId = some found) ∧
      (∀ sub ∈ found, Serves sub req.param (sensitivityOf settings req.param) s.now) ∧
      req' = { req with
        subscription := found.or req.subscription
        rateLimitMax := (found.bind RateLimit.effectiveRateLimitPerMinute).or
          req.rateLimitMax } := by
  simp only [requireSubscription] at h
  cases htenant : req.tenantId.filter (· ≠ "") with
  | none =>
    rw [htenant] at h
    cases h
    refine ⟨none, ?_, by simp, rfl⟩
    intro tenantId hid hne
    rw [hid, Option.filter_some, if_pos (by simpa using hne)] at htenant
    cases htenant
  | some tenantId =>
    obtain ⟨hid, _⟩ := Option.filter_eq_some_iff.mp htenant
    rw [htenant] at h
    cases hfound : told.resolveSubscription tenantId with
    | none => simp [hfound, refuse] at h
    | some found =>
      have htold : ∀ tenantId', req.tenantId = some tenantId' → tenantId' ≠ "" →
          told.resolveSubscription tenantId' = some found := by
        intro tenantId' hid' _
        rw [hid] at hid'
        cases hid'
        exact hfound
      cases found with
      | none =>
        simp only [hfound] at h
        cases h
        exact ⟨none, htold, by simp, rfl⟩
      | some sub =>
        simp only [hfound] at h
        cases hgate : evaluateSubscription sub req.param (sensitivityOf settings req.param)
            s.now with
        | some e => simp [hgate, refuse] at h
        | none =>
          rw [hgate] at h
          cases h
          refine ⟨some sub, htold, ?_, rfl⟩
          intro sub' hsub'
          cases hsub'
          exact evaluateSubscription_eq_none.mp hgate

theorem rateLimit_ok (h : (rateLimit settings s told req).2 = .ok req') :
    req' = req ∧
      (RateLimit.rateLimit settings.limiter s.counters (limiterCall s told req)).2 = none := by
  simp only [rateLimit] at h
  cases hverdict : (RateLimit.rateLimit settings.limiter s.counters
      (limiterCall s told req)).2 with
  | some e => simp [hverdict, refuse] at h
  | none =>
    rw [hverdict] at h
    cases h
    exact ⟨rfl, rfl⟩

theorem sensitivity_ok (h : (sensitivity settings s told req).2 = .ok req') :
    req' = { req with
      noStore := req.noStore || decide (sensitivityOf settings req.param ≠ .standard) } := by
  simp only [sensitivity] at h
  cases hfn : getFunction settings.definitions req.param with
  | none =>
    rw [hfn] at h
    cases h
    simp [sensitivityOf, hfn]
  | some fn =>
    rw [hfn] at h
    cases h
    simp [sensitivityOf, hfn]

theorem uploadSingle_ok (h : (uploadSingle settings s told req).2 = .ok req') :
    ∃ file : Option UploadedFile, settings.upload.single FILE_FIELD req.files = some file ∧
      req' = { req with file := file.or req.file } := by
  simp only [uploadSingle] at h
  split at h
  · cases h
  · rename_i hnone
    cases h
    exact ⟨none, hnone, rfl⟩
  · rename_i file hfile
    cases h
    exact ⟨some file, hfile, rfl⟩

/-- A document that is prepared is the uploaded one, for a function of the catalog and within the
plan's cap. -/
theorem prepare_ok {now : ℤ} {fn : AnyOcrFunctionDefinition Json Llm} {request : OcrRequest Json}
    (h : prepare settings now req = .ok (fn, request)) :
    getFunction settings.definitions req.param = some fn ∧
      request.tenantId = req.tenantId.getD "" ∧
      ∃ file, req.file = some file ∧ request.buffer = file.buffer ∧
        ∀ sub ∈ req.subscription, ∀ cap ∈ (effectiveLimits sub now).maxFileSizeBytes,
          (file.buffer.length : ℤ) ≤ cap := by
  simp only [prepare] at h
  cases hfn : getFunction settings.definitions req.param with
  | none => simp [hfn] at h
  | some fn' =>
    cases hfile : req.file with
    | none => simp [hfn, hfile] at h
    | some file =>
      simp only [hfn, hfile] at h
      cases hsize : checkFileSize (req.subscription.map fun sub => effectiveLimits sub now)
          file with
      | error e => simp [hsize] at h
      | ok _ =>
        simp only [hsize] at h
        cases hargs : parseArgsField settings.parseJson req.args with
        | error e => simp [hargs, Except.map] at h
        | ok args =>
          simp only [hargs, Except.map, Except.ok.injEq, Prod.mk.injEq] at h
          obtain ⟨rfl, rfl⟩ := h
          refine ⟨rfl, rfl, file, rfl, rfl, ?_⟩
          intro sub hsub cap hcap
          simp only [checkFileSize, Option.mem_def.mp hsub, Option.map_some, Option.bind_some,
            Option.mem_def.mp hcap] at hsize
          split_ifs at hsize with hlt
          exact not_lt.mp hlt

/-- What the handler takes is one document, prepared; it is queued only for a standard
function. -/
theorem runFunction_worked [EmptyCollection Json] {w : Worked Json}
    (hin : w ∈ (runFunction settings s told req).1.worked) (hout : w ∉ s.worked) :
    ∃ fn, prepare settings s.now req = .ok (fn, w.request) ∧
      w.function = fn.definition.key ∧
      ∀ jobId, w.work = .queued jobId → fn.definition.sensitivity = .standard := by
  simp only [runFunction] at hin
  cases hprepared : prepare settings s.now req with
  | error e =>
    rw [hprepared] at hin
    exact absurd hin hout
  | ok prepared =>
    obtain ⟨fn, request⟩ := prepared
    simp only [hprepared] at hin
    split_ifs at hin with hasync
    · have hnew : w ∈ s.worked ++ [⟨fn.definition.key, request,
          .queued (toString (s.lastJob + 1))⟩] := by
        simp only [enqueue] at hin
        split at hin
        · exact absurd hin hout
        · exact hin
        · exact hin
      rcases List.mem_append.mp hnew with hbefore | hnew
      · exact absurd hbefore hout
      · obtain rfl := List.mem_singleton.mp hnew
        exact ⟨fn, rfl, rfl, fun _ _ => hasync.1⟩
    · have hworked : w ∈ s.worked ++ [⟨fn.definition.key, request, .ran
          (runPipeline settings.environment fn.definition request told.deps
            s.cache).response.toBool⟩] := by
        simp only [runNow] at hin
        split at hin
        · exact hin
        · exact hin
      rcases List.mem_append.mp hworked with hbefore | hnew
      · exact absurd hbefore hout
      · obtain rfl := List.mem_singleton.mp hnew
        refine ⟨fn, rfl, rfl, ?_⟩
        intro jobId hjob
        cases hjob

/-- The record is of the job a request names, and its tenant may see it. -/
def IsFound (s : Gateway Json) (req : Request Json) (record : JobRecord Json) : Prop :=
  ∃ job ∈ s.jobs, job.id = some req.param ∧ record = toJobRecord job req.param ∧
    crossTenant record (req.tenantId.getD "") = false

/-- What the stages of a route before the handler answer from the state. -/
def Reads : Route → ℕ → Gateway Json → Request Json → Reply Json → Prop
  | .functions, k, _, _, reply => 2 ≤ k ∧ reply = .catalog
  | .call _, _, _, _, _ => False
  | .job _, k, s, req, reply => 3 ≤ k ∧ ∃ record, IsFound s req record ∧ reply = .job record

/-- A stage that touches the counters of the limiter at most. It refuses a request or answers it
with what it `reads`. -/
structure Quiet (reads : Gateway Json → Request Json → Reply Json → Prop)
    (stage : OcrStage Json Llm) : Prop where
  state : ∀ s told req, ∃ counters, (stage s told req).1 = { s with counters := counters }
  reply : ∀ s told req a, (stage s told req).2 = .error a →
    (∃ e, a.reply = .refused e) ∨ (a.request = req ∧ reads s req a.reply)

/-- A stage that answers nothing from the state. -/
abbrev Silent (stage : OcrStage Json Llm) : Prop := Quiet (fun _ _ _ => False) stage

section Quiet

theorem Quiet.mono {reads reads' : Gateway Json → Request Json → Reply Json → Prop}
    {stage : OcrStage Json Llm} (h : Quiet reads stage)
    (himp : ∀ s req reply, reads s req reply → reads' s req reply) : Quiet reads' stage where
  state := h.state
  reply s told req a ha :=
    (h.reply s told req a ha).imp_right fun hread => ⟨hread.1, himp _ _ _ hread.2⟩

theorem Quiet.of_silent {reads : Gateway Json → Request Json → Reply Json → Prop}
    {stage : OcrStage Json Llm} (h : Silent stage) : Quiet reads stage :=
  h.mono fun _ _ _ => False.elim

theorem refused_of_refuse {e : OcrError} {a : Answered Json} {other : Prop}
    (h : refuse req e = .error a) : (∃ e, a.reply = .refused e) ∨ other := by
  cases h
  exact .inl ⟨e, rfl⟩

theorem quiet_requestLog (route : Route) :
    Silent (@requestLog Json Llm route) where
  state s _ _ := ⟨s.counters, rfl⟩
  reply _ _ _ _ h := by cases h

theorem quiet_bindParams (route : Route) : Silent (@bindParams Json Llm route) where
  state s told req := by
    refine ⟨s.counters, ?_⟩
    cases route with
    | functions => rfl
    | call segment => simp only [bindParams]; split <;> rfl
    | job segment => simp only [bindParams]; split <;> rfl
  reply s told req a h := by
    cases route with
    | functions => cases h
    | call segment =>
      simp only [bindParams] at h
      split at h
      · exact refused_of_refuse h
      · cases h
    | job segment =>
      simp only [bindParams] at h
      split at h
      · exact refused_of_refuse h
      · cases h

theorem quiet_auth (settings : Settings Json Llm) : Silent (auth settings) where
  state s told req := by
    refine ⟨s.counters, ?_⟩
    simp only [auth]
    split <;> rfl
  reply s told req a h := by
    simp only [auth] at h
    split at h
    · exact refused_of_refuse h
    · cases h

theorem quiet_authorizeFunction : Silent (@authorizeFunction Json Llm) where
  state s told req := by
    refine ⟨s.counters, ?_⟩
    simp only [authorizeFunction]
    split <;> rfl
  reply s told req a h := by
    simp only [authorizeFunction] at h
    split at h
    · exact refused_of_refuse h
    · cases h

theorem quiet_requireSubscription (settings : Settings Json Llm) :
    Silent (requireSubscription settings) where
  state s told req := by
    refine ⟨s.counters, ?_⟩
    simp only [requireSubscription]
    split
    · rfl
    · split
      · rfl
      · rfl
      · split <;> rfl
  reply s told req a h := by
    simp only [requireSubscription] at h
    split at h
    · cases h
    · split at h
      · exact refused_of_refuse h
      · cases h
      · split at h
        · exact refused_of_refuse h
        · cases h

theorem quiet_rateLimit (settings : Settings Json Llm) : Silent (rateLimit settings) where
  state s told req := by
    refine ⟨(RateLimit.rateLimit settings.limiter s.counters (limiterCall s told req)).1, ?_⟩
    simp only [rateLimit]
    split <;> rfl
  reply s told req a h := by
    simp only [rateLimit] at h
    split at h
    · exact refused_of_refuse h
    · cases h

theorem quiet_sensitivity (settings : Settings Json Llm) : Silent (sensitivity settings) where
  state s told req := by
    refine ⟨s.counters, ?_⟩
    simp only [sensitivity]
    split <;> rfl
  reply s told req a h := by
    simp only [sensitivity] at h
    split at h
    · cases h
    · cases h

theorem quiet_uploadSingle (settings : Settings Json Llm) : Silent (uploadSingle settings) where
  state s told req := by
    refine ⟨s.counters, ?_⟩
    simp only [uploadSingle]
    split <;> rfl
  reply s told req a h := by
    simp only [uploadSingle] at h
    split at h
    · exact refused_of_refuse h
    · cases h
    · cases h

theorem quiet_catalog : Quiet (fun _ _ reply => reply = .catalog) (@catalog Json Llm) where
  state s _ _ := ⟨s.counters, rfl⟩
  reply _ _ _ _ h := by
    cases h
    exact .inr ⟨rfl, rfl⟩

theorem quiet_getJob : Quiet (fun s req reply => ∃ record, IsFound s req record ∧
    reply = .job record) (@getJob Json Llm) where
  state s told req := by
    refine ⟨s.counters, ?_⟩
    simp only [getJob]
    split
    · rfl
    · split <;> rfl
  reply s told req a h := by
    simp only [getJob] at h
    split at h
    · exact refused_of_refuse h
    · rename_i job hjob
      split_ifs at h with hcross
      · exact refused_of_refuse h
      · cases h
        exact .inr ⟨rfl, _, ⟨job, List.mem_of_find?_eq_some hjob, by
          simpa using List.find?_some hjob, rfl, by simpa using hcross⟩, rfl⟩

/-- Every stage is quiet but the handler, which stands last on its route. -/
theorem quiet_or_runFunction [EmptyCollection Json] {route : Route} {k : ℕ}
    {stage : OcrStage Json Llm} (h : (stages settings route)[k]? = some stage) :
    Quiet (Reads route k) stage ∨
      (∃ segment, route = .call segment) ∧ k = 8 ∧ stage = runFunction settings := by
  match k, h with
  | 0, h =>
    obtain rfl := Option.some.inj h
    exact .inl (.of_silent (quiet_requestLog route))
  | 1, h =>
    obtain rfl := Option.some.inj h
    exact .inl (.of_silent (quiet_bindParams route))
  | k + 2, h =>
    cases route with
    | functions =>
      obtain rfl := List.mem_singleton.mp (List.mem_of_getElem? h)
      exact .inl (quiet_catalog.mono fun _ _ _ hreply => ⟨by omega, hreply⟩)
    | job segment =>
      match k, h with
      | 0, h =>
        obtain rfl := Option.some.inj h
        exact .inl (.of_silent (quiet_auth settings))
      | k + 1, h =>
        have hmem : stage ∈ [rateLimit settings, getJob] := List.mem_of_getElem? h
        rcases List.mem_pair.mp hmem with rfl | rfl
        · exact .inl (.of_silent (quiet_rateLimit settings))
        · exact .inl (quiet_getJob.mono fun _ _ _ hreply => ⟨by omega, hreply⟩)
    | call segment =>
      match k, h with
      | 0, h =>
        obtain rfl := Option.some.inj h
        exact .inl (.of_silent (quiet_auth settings))
      | 1, h =>
        obtain rfl := Option.some.inj h
        exact .inl (.of_silent quiet_authorizeFunction)
      | 2, h =>
        obtain rfl := Option.some.inj h
        exact .inl (.of_silent (quiet_requireSubscription settings))
      | 3, h =>
        obtain rfl := Option.some.inj h
        exact .inl (.of_silent (quiet_rateLimit settings))
      | 4, h =>
        obtain rfl := Option.some.inj h
        exact .inl (.of_silent (quiet_sensitivity settings))
      | 5, h =>
        obtain rfl := Option.some.inj h
        exact .inl (.of_silent (quiet_uploadSingle settings))
      | 6, h =>
        obtain rfl := Option.some.inj h
        exact .inr ⟨⟨segment, rfl⟩, rfl, rfl⟩
      | k + 7, h =>
        have hlength := (List.getElem?_eq_some_iff.mp h).1
        simp [stages] at hlength
        omega

end Quiet

/-- What no stage behind `auth` changes, and what none takes back. -/
structure Continues (req req' : Request Json) : Prop where
  functionKey : req'.functionKey = req.functionKey
  param : req'.param = req.param
  tenantId : req'.tenantId = req.tenantId
  noStore : req.noStore = true → req'.noStore = true

theorem runFunction_ne_ok [EmptyCollection Json] :
    (runFunction settings s told req).2 ≠ .ok req' := by
  intro h
  simp only [runFunction] at h
  split at h
  · cases h
  · split at h
    · simp only [enqueue] at h
      split at h
      · cases h
      · cases h
      · cases h
    · simp only [runNow] at h
      split at h
      · cases h
      · cases h

theorem getJob_ne_ok : (getJob s told req).2 ≠ .ok req' := by
  intro h
  simp only [getJob] at h
  split at h
  · cases h
  · split at h
    · cases h
    · cases h

/-- Behind its parameters a request is authenticated first, if its route does not end there. -/
theorem auth_or_catalog [EmptyCollection Json] {route : Route} {stage : OcrStage Json Llm}
    (h : (stages settings route)[2]? = some stage) : stage = auth settings ∨ stage = catalog := by
  cases route with
  | functions => exact .inr (Option.some.inj h).symm
  | call segment => exact .inl (Option.some.inj h).symm
  | job segment => exact .inl (Option.some.inj h).symm

theorem continues_of_stage [EmptyCollection Json] {route : Route} {k : ℕ}
    {stage : OcrStage Json Llm} (h : (stages settings route)[k + 3]? = some stage)
    (hok : (stage s told req).2 = .ok req') : Continues req req' := by
  have hmem : stage ∈ [authorizeFunction, requireSubscription settings, rateLimit settings,
      sensitivity settings, uploadSingle settings, runFunction settings, getJob] := by
    cases route with
    | functions => cases h
    | call segment =>
      have hcall : stage ∈ [authorizeFunction, requireSubscription settings, rateLimit settings,
          sensitivity settings, uploadSingle settings, runFunction settings] :=
        List.mem_of_getElem? h
      exact List.mem_append_left [getJob] hcall
    | job segment =>
      have hjob : stage ∈ [rateLimit settings, getJob] := List.mem_of_getElem? h
      rcases List.mem_pair.mp hjob with rfl | rfl
      · simp
      · simp
  simp only [List.mem_cons, List.not_mem_nil, or_false] at hmem
  rcases hmem with rfl | rfl | rfl | rfl | rfl | rfl | rfl
  · obtain ⟨rfl, _⟩ := authorizeFunction_ok hok
    exact ⟨rfl, rfl, rfl, id⟩
  · obtain ⟨found, _, _, rfl⟩ := requireSubscription_ok hok
    exact ⟨rfl, rfl, rfl, id⟩
  · obtain ⟨rfl, _⟩ := rateLimit_ok hok
    exact ⟨rfl, rfl, rfl, id⟩
  · obtain rfl := sensitivity_ok hok
    exact ⟨rfl, rfl, rfl, fun h => by simp [h]⟩
  · obtain ⟨file, _, rfl⟩ := uploadSingle_ok hok
    exact ⟨rfl, rfl, rfl, id⟩
  · exact absurd hok runFunction_ne_ok
  · exact absurd hok getJob_ne_ok

/-- The closing of an answer writes to its own logs alone. -/
theorem close_eq (s : Gateway Json) (ending : Ending) (a : Answered Json) :
    ∃ log unsent unrecorded, close s ending a =
      { s with requestLog := log, unsent := unsent, unrecorded := unrecorded } := by
  cases ending with
  | closed => exact ⟨s.requestLog, _, s.unrecorded, rfl⟩
  | finish inserted =>
    simp only [close]
    cases inputOf a with
    | none => exact ⟨s.requestLog, s.unsent, s.unrecorded, rfl⟩
    | some input =>
      cases inserted with
      | none => exact ⟨s.requestLog, s.unsent, _, rfl⟩
      | some dbNow => exact ⟨_, s.unsent, s.unrecorded, rfl⟩

theorem worked_close (s : Gateway Json) (ending : Ending) (a : Answered Json) :
    (close s ending a).worked = s.worked := by
  obtain ⟨log, unsent, unrecorded, hclose⟩ := close_eq s ending a
  rw [hclose]

/-- Without authentication everyone is anonymous, and nobody has a scope. -/
theorem scope_of_auth {headers : KeyHeaders} {cookie : Option (List Char)} {stores : AuthStores}
    {who : TenantAuth.Authenticated} {limit : Option ℤ}
    (h : CookieHeader.auth settings.AUTH_ENABLED stores headers cookie = .ok who) :
    (if settings.AUTH_ENABLED then some (RequestTenant.mk who.allowedFunctions limit)
      else none).bind RequestTenant.allowedFunctions = who.allowedFunctions := by
  cases henabled : settings.AUTH_ENABLED with
  | true => simp
  | false =>
    rw [henabled] at h
    simp only [CookieHeader.auth, Bool.false_eq_true, if_false, Except.ok.injEq] at h
    subst h
    rfl

section Admission

variable [EmptyCollection Json] (settings : Settings Json Llm) (s₀ : Gateway Json)
  (as : List (OcrAction Json Llm))

/-- Request `id` went through one stage at time `n`, in the state `u`. -/
def Went (id n : ℕ) (u : Gateway Json) (told : Told Llm) : Prop :=
  ∃ v, v.shared = u ∧ Taken (ocrRouter settings) (start s₀) as n v (.advance id told)

/-- What let a document through: the request it came with, and each gate it passed at its time. -/
structure Admission (w : Worked Json) where
  id : ℕ
  segment : List Char
  sent : Sent Json
  fn : AnyOcrFunctionDefinition Json Llm
  who : TenantAuth.Authenticated
  subscription : Option Subscription
  file : UploadedFile
  arrival : ℕ
  authentication : ℕ
  authorization : ℕ
  payment : ℕ
  limit : ℕ
  upload : ℕ
  work : ℕ
  ordered : arrival < authentication ∧ authentication < authorization ∧ authorization < payment ∧
    payment < limit ∧ limit < upload ∧ upload < work
  arrived : ∃ u, Taken (ocrRouter settings) (start s₀) as arrival u
    (.arrive id (.call segment) sent)
  named : (decodeURIComponent segment).map String.ofList = some w.function.toText
  known : getFunction settings.definitions w.function.toText = some fn
  authenticated : ∃ u told, Went settings s₀ as id authentication u told ∧
    CookieHeader.auth settings.AUTH_ENABLED (authStores told) sent.headers sent.cookie = .ok who
  authorized : (∃ u told, Went settings s₀ as id authorization u told) ∧
    w.function.toText ∈ TenantKeys.authority who.allowedFunctions
  paid : ∃ u told, Went settings s₀ as id payment u told ∧
    (who.tenantId ≠ "" → told.resolveSubscription who.tenantId = some subscription) ∧
    ∀ sub ∈ subscription, Serves sub w.function.toText fn.definition.sensitivity u.now
  limited : ∃ u told call, Went settings s₀ as id limit u told ∧
    call.now = u.now ∧ call.req.tenantId = some who.tenantId ∧
    call.req.rateLimitMax = subscription.bind RateLimit.effectiveRateLimitPerMinute ∧
    (RateLimit.rateLimit settings.limiter u.counters call).2 = none
  uploaded : (∃ u told, Went settings s₀ as id upload u told) ∧ file ∈ sent.files ∧
    file.field = FILE_FIELD ∧ file.buffer.length ≤ settings.MAX_FILE_SIZE_BYTES
  worked : ∃ u told, Went settings s₀ as id work u told ∧
    w.request.tenantId = who.tenantId ∧ w.request.buffer = file.buffer ∧
    (∀ sub ∈ subscription, ∀ cap ∈ (effectiveLimits sub u.now).maxFileSizeBytes,
      (file.buffer.length : ℤ) ≤ cap) ∧
    ∀ jobId, w.work = .queued jobId → fn.definition.sensitivity = .standard

end Admission

section Gates

variable [EmptyCollection Json] {s₀ : Gateway Json}
  {as : List (OcrAction Json Llm)} {id n k : ℕ}
  {segment : List Char}

@[simp] theorem receive_ocrRouter (sent : Sent Json) :
    (ocrRouter settings).receive sent = received sent := rfl

/-- The stage a request has passed last, where the route has that stage. -/
theorem passed (stage : OcrStage Json Llm) (hstage : (stages settings (.call segment))[k]? =
      some stage)
    (h : Reached (ocrRouter settings) (start s₀) as id n (.call segment) (k + 1) req') :
    ∃ m < n, ∃ u told req, Went settings s₀ as id m u told ∧ (stage u told req).2 = .ok req' ∧
      ∃ n' ≤ m, Reached (ocrRouter settings) (start s₀) as id n' (.call segment) k req := by
  obtain ⟨m, hm, u, told, stage', req, htaken, hstage', hpass, n', hn', hreached⟩ := h.last
  have hsame : (stages settings (.call segment))[k]? = some stage' := hstage'
  obtain rfl := Option.some.inj (hstage.symm.trans hsame)
  exact ⟨m, hm, u.shared, told, req, ⟨u, rfl, htaken⟩, hpass, n', hn', hreached⟩

/-- The worker and the clock leave the books of the requests alone. -/
theorem books_meanwhile {a : Meanwhile Llm} {s' : Gateway Json}
    (h : meanwhile settings s a = some s') : s'.worked = s.worked ∧
      s'.unacknowledged = s.unacknowledged ∧ s'.unsent = s.unsent ∧
        s'.unrecorded = s.unrecorded ∧ s'.metered = s.metered ∧
          List.Perm (s'.requestLog ++ s'.purged) (s.requestLog ++ s.purged) := by
  cases a with
  | wait ms =>
    cases h
    exact ⟨rfl, rfl, rfl, rfl, rfl, .refl _⟩
  | deliver k deps storageKey =>
    simp only [meanwhile] at h
    split at h
    · cases h
    · split_ifs at h
      cases h
      exact ⟨rfl, rfl, rfl, rfl, rfl, .refl _⟩
  | remove k =>
    simp only [meanwhile] at h
    split at h
    · cases h
    · split_ifs at h
      cases h
      exact ⟨rfl, rfl, rfl, rfl, rfl, .refl _⟩
  | purgeRequestLogsOlderThan cutoff =>
    cases h
    refine ⟨rfl, rfl, rfl, rfl, rfl, ?_⟩
    have hsplit := List.filter_append_perm (fun row => decide (row.createdAt < cutoff)) s.requestLog
    refine List.Perm.trans ?_ (hsplit.append_right s.purged)
    simp only [decide_not, List.append_assoc]
    rw [← List.append_assoc]
    exact List.perm_append_comm

/-- Every document the handler has taken, in every run, was let through by every gate. -/
theorem worked_behind_gates {now : ℤ}
    {t : State ℕ Route (Gateway Json) (Request Json) (Answered Json)}
    (h : exec (step (ocrRouter settings)) (start (.initial now)) as = some t) {w : Worked Json}
    (hw : w ∈ t.shared.worked) : Nonempty (Admission settings (.initial now) as w) := by
  have hmeanwhile : ∀ s a s', (ocrRouter settings).meanwhile s a = some s' →
      s'.worked = s.worked := fun _ _ _ h => (books_meanwhile h).1
  obtain ⟨work, u, id, told, f, stage, htaken, hf, hnext, hin, hout, m, hm, hreached⟩ :=
    written_by_stage (fun _ => rfl) worked_close hmeanwhile h hw
      (by simp [start, Gateway.initial])
  obtain hquiet | ⟨⟨segment, hroute⟩, hpassed, rfl⟩ :=
    quiet_or_runFunction (next?_eq_some.mp hnext).2
  · obtain ⟨counters, hstate⟩ := hquiet.state u.shared told f.request
    rw [hstate] at hin
    exact absurd hin hout
  rw [hroute, hpassed] at hreached
  obtain ⟨fn, hprepared, hfunction, hqueued⟩ := runFunction_worked hin hout
  obtain ⟨hfn, htenant, file, hfile, hbuffer, hcap⟩ := prepare_ok hprepared
  obtain ⟨n₇, hn₇, u₇, told₇, r₇, hwent₇, hupload, m₇, hm₇, hreached⟩ :=
    passed (uploadSingle settings) rfl hreached
  obtain ⟨n₆, hn₆, _, _, r₆, _, hsensitivity, m₆, hm₆, hreached⟩ :=
    passed (sensitivity settings) rfl hreached
  obtain ⟨n₅, hn₅, u₅, told₅, r₅, hwent₅, hlimit, m₅, hm₅, hreached⟩ :=
    passed (rateLimit settings) rfl hreached
  obtain ⟨n₄, hn₄, u₄, told₄, r₄, hwent₄, hplan, m₄, hm₄, hreached⟩ :=
    passed (requireSubscription settings) rfl hreached
  obtain ⟨n₃, hn₃, u₃, told₃, r₃, hwent₃, hscope, m₃, hm₃, hreached⟩ :=
    passed authorizeFunction rfl hreached
  obtain ⟨n₂, hn₂, u₂, told₂, r₂, hwent₂, hauth, m₂, hm₂, hreached⟩ :=
    passed (auth settings) rfl hreached
  obtain ⟨n₁, hn₁, _, _, r₁, _, hbind, m₁, hm₁, hreached⟩ :=
    passed (bindParams (.call segment)) rfl hreached
  obtain ⟨n₀, hn₀, _, _, r₀, _, hlog, m₀, hm₀, hreached⟩ :=
    passed (requestLog (.call segment)) rfl hreached
  obtain ⟨arrival, harrival, v, sent, harrived, rfl⟩ := hreached.arrival
  obtain rfl := Except.ok.inj hlog
  obtain ⟨param, hparam, rfl⟩ := bindParams_call hbind
  obtain ⟨who, hwho, rfl⟩ := auth_ok hauth
  obtain ⟨rfl, hauthorized⟩ := authorizeFunction_ok hscope
  obtain ⟨found, htold, hserves, rfl⟩ := requireSubscription_ok hplan
  obtain ⟨rfl, hunder⟩ := rateLimit_ok hlimit
  obtain rfl := sensitivity_ok hsensitivity
  obtain ⟨uploaded, huploaded, hrequest⟩ := uploadSingle_ok hupload
  rw [hrequest] at hfn htenant hfile hcap
  obtain rfl : uploaded = some file := by simpa [received] using hfile
  have hkey : w.function.toText = String.ofList param := by
    rw [hfunction]
    exact toText_of_getFunction hfn
  have hsensitive : sensitivityOf settings (String.ofList param) = fn.definition.sensitivity := by
    have hfn' : getFunction settings.definitions (String.ofList param) = some fn := hfn
    rw [sensitivityOf, hfn', Option.elim_some]
  exact ⟨{
    id := id
    segment := segment
    sent := sent
    fn := fn
    who := who
    subscription := found
    file := file
    arrival := arrival
    authentication := n₂
    authorization := n₃
    payment := n₄
    limit := n₅
    upload := n₇
    work := work
    ordered := by omega
    arrived := ⟨v, harrived⟩
    named := by rw [hparam, hkey, Option.map_some]
    known := by
      rw [hkey]
      exact hfn
    authenticated := ⟨u₂, told₂, hwent₂, hwho⟩
    authorized := ⟨⟨u₃, told₃, hwent₃⟩, by
      rw [hkey]
      simpa only [scope_of_auth hwho] using hauthorized⟩
    paid := ⟨u₄, told₄, hwent₄, htold who.tenantId rfl, by
      rw [hkey, ← hsensitive]
      exact hserves⟩
    limited := ⟨u₅, told₅, _, hwent₅, rfl, rfl, by simp [limiterCall, received], hunder⟩
    uploaded := ⟨⟨u₇, told₇, hwent₇⟩, settings.upload.sent _ _ _ huploaded,
      settings.upload.named _ _ _ huploaded, settings.upload.bounded _ _ _ huploaded⟩
    worked := ⟨u.shared, told, ⟨u, rfl, htaken⟩, htenant, hbuffer, by
      simpa [received] using hcap, hqueued⟩ }⟩

end Gates

section Example

/-- A function of raw bytes, for whoever may call it. -/
def plainFunction : OcrFunctionDefinition (List ℕ) Unit Unit Unit where
  key := .TEXT_EXTRACTION
  accepts := [.text]
  requires := []
  sensitivity := .standard
  prefers := []
  maxPages := 1
  skipExtraction := true
  argsSchema _ := some ()
  resultSchema _ _ := some ()
  execute _ _ := .ok ()
  confidenceOf _ _ := ⟨1, []⟩

/-- At most one file, in its field and within the limit. -/
def takeSingle (fileSize : ℕ) (field : String) :
    List UploadedFile → Option (Option UploadedFile)
  | [] => some none
  | [file] => if file.field = field ∧ file.buffer.length ≤ fileSize then some (some file) else none
  | _ => none

theorem takeSingle_eq_some {fileSize : ℕ} {field : String} {files : List UploadedFile}
    {file : UploadedFile} (h : takeSingle fileSize field files = some (some file)) :
    file ∈ files ∧ file.field = field ∧ file.buffer.length ≤ fileSize := by
  match files, h with
  | [f], h =>
    simp only [takeSingle, Option.ite_none_right_eq_some, Option.some.injEq] at h
    obtain ⟨hfile, rfl⟩ := h
    exact ⟨List.mem_singleton_self f, hfile⟩

def plainUpload (fileSize : ℕ) : Multer fileSize where
  single := takeSingle fileSize
  sent _ _ _ h := (takeSingle_eq_some h).1
  named _ _ _ h := (takeSingle_eq_some h).2.1
  bounded _ _ _ h := (takeSingle_eq_some h).2.2

/-- A service with one function, where every file of more than two bytes is queued. -/
def plainSettings : Settings (List ℕ) Unit where
  AUTH_ENABLED := true
  MAX_FILE_SIZE_BYTES := 10
  upload := plainUpload 10
  limiter := RateLimit.windowsOf (Nat.toPNat' 60)
  async := ⟨2, 1, fun _ => none⟩
  environment := ⟨fun _ => some ⟨"text/plain", .text⟩, fun _ => "sha", 2, 19 / 20⟩
  definitions := [⟨Unit, Unit, plainFunction⟩]
  parseJson _ := none
  render _ _ := []

/-- Every store answers, and one key is known. -/
def plainTold : Told Unit where
  resolveTenant key := some (if key = "k".toList then
    some ⟨"acme", none, none, none, none, none, none, none⟩ else none)
  resolveSession _ := some none
  key_named key tenant h := by
    split_ifs at h
    · cases h
      decide
    · cases h
  session_named _ _ h := by cases h
  isTenantOrgDisabled _ := some false
  resolveSubscription _ := some (some RateLimit.oneAMinute)
  process := 0
  redis := .answers
  queue := .added
  deps := ⟨(), [], ⟨⟨"", []⟩, ⟨"", []⟩, fun _ => none⟩, false, false⟩
  storageKey := none

def plainSent : Sent (List ℕ) where
  requestId := "req_1"
  headers := ⟨none, some "k".toList⟩
  cookie := none
  ip := none
  query := []
  files := [⟨"file", "a.txt", [1, 2, 3]⟩]
  args := .absent

def plainRun : List (OcrAction (List ℕ) Unit) :=
  .arrive 0 (.call "TEXT_EXTRACTION".toList) plainSent :: List.replicate 9 (.advance 0 plainTold)

theorem plainRun_isSome : (exec (step (ocrRouter plainSettings))
    (start (.initial 0)) plainRun).isSome = true := by
  decide +kernel

def plainState : State ℕ Route (Gateway (List ℕ)) (Request (List ℕ)) (Answered (List ℕ)) :=
  (exec (step (ocrRouter plainSettings)) (start (.initial 0)) plainRun).get plainRun_isSome

theorem plainState_worked : plainState.shared.worked.length = 1 := by
  decide +kernel

theorem worked_behind_gates_plain : ∃ w ∈ plainState.shared.worked,
    Nonempty (Admission plainSettings (.initial 0) plainRun w) := by
  have hrun : exec (step (ocrRouter plainSettings)) (start (.initial 0)) plainRun =
      some plainState := (Option.some_get plainRun_isSome).symm
  obtain ⟨w, hw⟩ := List.exists_mem_of_length_pos (plainState_worked.symm ▸ Nat.one_pos)
  exact ⟨w, hw, worked_behind_gates hrun hw⟩

end Example

end HeirsOcr.OcrRoute

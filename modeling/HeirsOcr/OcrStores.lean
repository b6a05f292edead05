import HeirsOcr.CacheSoundness
import HeirsOcr.OcrAccounts

/-!
# What the stores hold, and for whom

A document of a `pii` or `restricted` function is run at once and kept nowhere: the queue, the
extraction cache and the document registry hold what came with standard functions, and an answer
with a sensitive result is not to be cached. What the queue does hold is handed out to the tenant
that sent it and to nobody else.
-/
namespace HeirsOcr.OcrRoute
open Billing Jobs Pipeline StepMachine StageChain CookieHeader

variable {Json Llm : Type} {settings : Settings Json Llm}
  {s : Gateway Json} {told : Told Llm} {req req' : Request Json}

/-- A document whose function is a standard one. -/
def Worked.IsStandard (settings : Settings Json Llm) (w : Worked Json) : Prop :=
  sensitivityOf settings w.function.toText = .standard

/-- The job is a document that was queued for a standard function, and its result, if it has one,
is what the pipeline makes of that document. -/
def IsQueued [EmptyCollection Json] (settings : Settings Json Llm) (worked : List (Worked Json))
    (job : ScannedJob Json Json) : Prop :=
  ∃ fn request jobId, getFunction settings.definitions fn.definition.key.toText = some fn ∧
    fn.definition.sensitivity = .standard ∧
    ⟨fn.definition.key, request, .queued jobId⟩ ∈ worked ∧ job.id = some jobId ∧
    job.data = jobData fn.definition.key.toText request ∧
    ∀ answer, job.returnvalue = some answer → ∃ deps cache result responseMeta,
      (runPipeline settings.environment fn.definition request deps cache).response =
          .ok (result, responseMeta) ∧
        answer = (some (settings.render fn result), some responseMeta)

/-- The entry is for the bytes of a document that came with a standard function. -/
def IsExtracted (settings : Settings Json Llm) (worked : List (Worked Json)) (key : String) :
    Prop :=
  ∃ w ∈ worked, w.IsStandard settings ∧ ∃ provider,
    key = extractionCacheKey (settings.environment.sha256 w.request.buffer) provider none

structure Held [EmptyCollection Json] (settings : Settings Json Llm) (s : Gateway Json) : Prop where
  jobs : ∀ job ∈ s.jobs, IsQueued settings s.worked job
  cache : ∀ key doc, s.cache key = some doc → IsExtracted settings s.worked key
  documents : ∀ row ∈ s.documents, row.sensitivity = .standard

theorem IsQueued.mono [EmptyCollection Json] {worked worked' : List (Worked Json)}
    {job : ScannedJob Json Json} (h : IsQueued settings worked job) (hsub : worked ⊆ worked') :
    IsQueued settings worked' job := by
  obtain ⟨fn, request, jobId, hfn, hstandard, hmem, hid, hdata, hreturn⟩ := h
  exact ⟨fn, request, jobId, hfn, hstandard, hsub hmem, hid, hdata, hreturn⟩

theorem IsExtracted.mono {worked worked' : List (Worked Json)} {key : String}
    (h : IsExtracted settings worked key) (hsub : worked ⊆ worked') :
    IsExtracted settings worked' key := by
  obtain ⟨w, hw, hstandard, provider, hkey⟩ := h
  exact ⟨w, hsub hw, hstandard, provider, hkey⟩

/-- A run adds an entry for its own bytes to the cache, and only a standard function's does. -/
theorem runPipeline_cache [EmptyCollection Json] {TArgs TResult : Type} {env : Environment}
    {fn : OcrFunctionDefinition Json Llm TArgs TResult} {request : OcrRequest Json}
    {deps : PipelineDeps Llm} {cache : ExtractionCache} {key : String}
    {doc : Providers.RecognizedDocument}
    (h : (runPipeline env fn request deps cache).cache key = some doc) :
    cache key = some doc ∨ (fn.sensitivity = .standard ∧
      ∃ provider, key = extractionCacheKey (env.sha256 request.buffer) provider none) := by
  by_cases hstandard : fn.sensitivity = .standard
  · let r : Pipeline.Request := ⟨Json, Llm, TArgs, TResult, inferInstance, fn, request, deps⟩
    obtain ⟨hcache, _⟩ | ⟨input, opts, e, hinput, hextract, hcache, _⟩ :=
      @runPipeline_cases env r cache _ rfl
    · exact .inl (hcache ▸ h)
    · have hentry : e.cache key = some doc := hcache ▸ h
      obtain ⟨_, _, hsame⟩ | ⟨_, stored, _, ⟨_, hsame, _⟩ | ⟨_, hsame, _⟩⟩ :=
        extractDocument_cases hextract
      · exact .inl (hsame ▸ hentry)
      · exact .inl (hsame ▸ hentry)
      · rw [hsame] at hentry
        obtain hbefore | ⟨hkey, _⟩ := storeDocument_some hentry
        · exact .inl hbefore
        · refine .inr ⟨hstandard, stored.provider, ?_⟩
          rw [hkey, sha256_of_ingest hinput]
  · rw [runPipeline_of_sensitive hstandard request deps cache cache] at h
    exact .inl h

theorem archived_standard {TArgs TResult : Type}
    {fn : OcrFunctionDefinition Json Llm TArgs TResult} {request : OcrRequest Json}
    {storageKey : Option String} {data : ArchiveData} {row : RecordDocumentInput}
    (h : row ∈ (archiveAndRecord fn request storageKey data).2.toList) :
    row.sensitivity = .standard := by
  simp only [archiveAndRecord] at h
  split_ifs at h with hstandard
  · obtain rfl := List.mem_singleton.mp h
    simpa [isRecordable] using hstandard
  · cases h

/-- An attempt changes the result of a job only to what the pipeline answered. -/
theorem returnvalue_attempted {job : ScannedJob Json Json} {now : ℤ}
    {response : Except OcrError (Json × OcrResponseMeta)}
    {answer : Option Json × Option OcrResponseMeta}
    (h : (attempted job now response).returnvalue = some answer) :
    job.returnvalue = some answer ∨
      ∃ result, response = .ok result ∧ answer = (some result.1, some result.2) := by
  simp only [attempted] at h
  split at h
  · exact .inr ⟨_, rfl, (Option.some.inj h).symm⟩
  · split at h
    · exact .inl h
    · exact .inl h
    · exact .inl h

theorem attempted_id (job : ScannedJob Json Json) (now : ℤ)
    (response : Except OcrError (Json × OcrResponseMeta)) :
    (attempted job now response).id = job.id ∧ (attempted job now response).data = job.data := by
  simp only [attempted]
  split
  · exact ⟨rfl, rfl⟩
  · split
    · exact ⟨rfl, rfl⟩
    · exact ⟨rfl, rfl⟩
    · exact ⟨rfl, rfl⟩

section Steps

variable [EmptyCollection Json]

/-- The worker runs what was queued. -/
theorem workerRun_jobData {fn : AnyOcrFunctionDefinition Json Llm} {request : OcrRequest Json}
    (hfn : getFunction settings.definitions fn.definition.key.toText = some fn)
    (d : Delivery Llm) :
    let ran := runPipeline settings.environment fn.definition request d.deps d.cache
    let told := archiveAndRecord fn.definition request d.storageKey ran.archived
    workerRun settings (jobData fn.definition.key.toText request) d =
      ⟨ran.response.map fun answer => (settings.render fn answer.1, answer.2), ran.cache,
        [told.1], told.2.toList⟩ := by
  have hfunction : getFunction settings.definitions
      (jobData fn.definition.key.toText request).function = some fn := hfn
  simp only [workerRun, hfunction, reviveRequest_jobData]

/-- A document is queued for a standard function. -/
theorem Held.queued (h : Held settings s) {fn : AnyOcrFunctionDefinition Json Llm}
    (hfn : getFunction settings.definitions fn.definition.key.toText = some fn)
    (hstandard : fn.definition.sensitivity = .standard) (request : OcrRequest Json) :
    Held settings { s with
      jobs := s.jobs ++ [newJob (toString (s.lastJob + 1))
        (jobData fn.definition.key.toText request) s.now]
      lastJob := s.lastJob + 1
      worked := s.worked ++
        [⟨fn.definition.key, request, .queued (toString (s.lastJob + 1))⟩] } := by
  refine ⟨?_, ?_, h.documents⟩
  · intro job hjob
    rcases List.mem_append.mp hjob with hbefore | hnew
    · exact (h.jobs job hbefore).mono (List.subset_append_left _ _)
    · obtain rfl := List.mem_singleton.mp hnew
      exact ⟨fn, request, _, hfn, hstandard,
        List.mem_append_right _ (List.mem_singleton_self _), rfl, rfl,
        fun answer hanswer => by cases hanswer⟩
  · exact fun key doc hdoc => (h.cache key doc hdoc).mono (List.subset_append_left _ _)

/-- A document is run. -/
theorem Held.ran (h : Held settings s) {fn : AnyOcrFunctionDefinition Json Llm}
    (hfn : getFunction settings.definitions fn.definition.key.toText = some fn)
    (request : OcrRequest Json) (deps : PipelineDeps Llm) (storageKey : Option String) :
    let ran := runPipeline settings.environment fn.definition request deps s.cache
    Held settings { s with
      cache := ran.cache
      documents := s.documents ++
        (archiveAndRecord fn.definition request storageKey ran.archived).2.toList
      worked := s.worked ++ [⟨fn.definition.key, request, .ran ran.response.toBool⟩] } := by
  refine ⟨?_, ?_, ?_⟩
  · exact fun job hjob => (h.jobs job hjob).mono (List.subset_append_left _ _)
  · intro key doc hdoc
    obtain hbefore | ⟨hstandard, provider, hkey⟩ := runPipeline_cache hdoc
    · exact (h.cache key doc hbefore).mono (List.subset_append_left _ _)
    · refine ⟨_, List.mem_append_right _ (List.mem_singleton_self _), ?_, provider, hkey⟩
      rw [Worked.IsStandard, sensitivityOf, hfn, Option.elim_some, hstandard]
  · intro row hrow
    rcases List.mem_append.mp hrow with hbefore | hnew
    · exact h.documents row hbefore
    · exact archived_standard hnew

theorem Held.runFunction (h : Held settings s) (told : Told Llm) (req : Request Json) :
    Held settings (runFunction settings s told req).1 := by
  simp only [OcrRoute.runFunction]
  cases hprepared : prepare settings s.now req with
  | error e => exact h
  | ok prepared =>
    obtain ⟨fn, request⟩ := prepared
    have hfn : getFunction settings.definitions fn.definition.key.toText = some fn := by
      have hparam := (prepare_ok hprepared).1
      rw [toText_of_getFunction hparam]
      exact hparam
    dsimp only
    split
    · rename_i hasync
      have hqueued := h.queued hfn hasync.1 request
      simp only [enqueue]
      split
      · exact h
      · exact ⟨hqueued.jobs, hqueued.cache, hqueued.documents⟩
      · exact hqueued
    · have hran := h.ran hfn request told.deps told.storageKey
      simp only [runNow]
      split
      · exact ⟨hran.jobs, hran.cache, hran.documents⟩
      · exact ⟨hran.jobs, hran.cache, hran.documents⟩

theorem Held.deliver (h : Held settings s) {k : ℕ} {job : ScannedJob Json Json}
    (hjob : s.jobs[k]? = some job) (deps : PipelineDeps Llm) (storageKey : Option String) :
    let run := workerRun settings job.data ⟨deps, s.cache, storageKey⟩
    Held settings { s with
      cache := run.cache
      events := s.events ++ run.events
      documents := s.documents ++ run.rows
      jobs := s.jobs.set k (attempted job s.now run.response) } := by
  obtain ⟨fn, request, jobId, hfn, hstandard, hmem, hid, hdata, hreturn⟩ :=
    h.jobs job (List.mem_of_getElem? hjob)
  dsimp only
  rw [hdata, workerRun_jobData hfn]
  refine ⟨?_, ?_, ?_⟩
  · intro job' hjob'
    obtain hbefore | rfl := List.mem_or_eq_of_mem_set hjob'
    · exact h.jobs job' hbefore
    · obtain ⟨hid', hdata'⟩ := attempted_id job s.now
        ((runPipeline settings.environment fn.definition request deps s.cache).response.map
          fun answer => (settings.render fn answer.1, answer.2))
      refine ⟨fn, request, jobId, hfn, hstandard, hmem, hid'.trans hid, hdata'.trans hdata, ?_⟩
      intro answer hanswer
      obtain hold | ⟨result, hresult, rfl⟩ := returnvalue_attempted hanswer
      · exact hreturn answer hold
      · cases hresponse : (runPipeline settings.environment fn.definition request deps
            s.cache).response with
        | error e =>
          rw [hresponse] at hresult
          cases hresult
        | ok value =>
          rw [hresponse] at hresult
          cases hresult
          exact ⟨deps, s.cache, value.1, value.2, hresponse, rfl⟩
  · intro key doc hdoc
    obtain hbefore | ⟨_, provider, hkey⟩ := runPipeline_cache hdoc
    · exact h.cache key doc hbefore
    · refine ⟨_, hmem, ?_, provider, hkey⟩
      rw [Worked.IsStandard, sensitivityOf, hfn, Option.elim_some, hstandard]
  · intro row hrow
    rcases List.mem_append.mp hrow with hbefore | hnew
    · exact h.documents row hbefore
    · exact archived_standard hnew

theorem Held.meanwhile (h : Held settings s) {a : Meanwhile Llm} {s' : Gateway Json}
    (hstep : meanwhile settings s a = some s') : Held settings s' := by
  cases a with
  | wait ms =>
    cases hstep
    exact ⟨h.jobs, h.cache, h.documents⟩
  | deliver k deps storageKey =>
    simp only [OcrRoute.meanwhile] at hstep
    split at hstep
    · cases hstep
    · rename_i job hjob
      split_ifs at hstep
      cases hstep
      exact h.deliver hjob deps storageKey
  | remove k =>
    simp only [OcrRoute.meanwhile] at hstep
    split at hstep
    · cases hstep
    · split_ifs at hstep
      cases hstep
      exact ⟨fun job hjob => h.jobs job (List.mem_of_mem_eraseIdx hjob), h.cache, h.documents⟩
  | purgeRequestLogsOlderThan cutoff =>
    cases hstep
    exact ⟨h.jobs, h.cache, h.documents⟩

end Steps

/-- Behind `auth` a request has a tenant, and behind `sensitivity` it is marked if what its
function makes is not to be kept. -/
structure Identified (settings : Settings Json Llm) (route : Route) (k : ℕ) (req : Request Json) :
    Prop where
  tenant : 3 ≤ k → ∃ tenantId ≠ "", req.tenantId = some tenantId
  marked : ∀ segment, route = .call segment → 7 ≤ k →
    sensitivityOf settings req.param ≠ .standard → req.noStore = true

/-- What a sensitive function made is not to be cached by anyone on the way. -/
def IsMarked (settings : Settings Json Llm) (a : Answered Json) : Prop :=
  ∀ key result responseMeta, a.reply = .success key result responseMeta →
    sensitivityOf settings key.toText ≠ .standard → a.request.noStore = true

theorem tenantId_ne_of_authSession {cookie : Option (List Char)} {who : TenantAuth.Authenticated}
    (h : authSession (authStores told) cookie = .ok who) : who.tenantId ≠ "" := by
  simp only [authSession, authStores] at h
  split at h
  · cases h
  · cases h
  · rename_i token _
    split at h
    · cases h
    · cases h
    · rename_i tenantId hsession
      split at h
      · cases h
      · cases h
      · cases h
        exact told.session_named token tenantId hsession

/-- Whoever is authenticated has a name. -/
theorem tenantId_ne_of_auth {headers : KeyHeaders} {cookie : Option (List Char)}
    {who : TenantAuth.Authenticated}
    (h : CookieHeader.auth settings.AUTH_ENABLED (authStores told) headers cookie = .ok who) :
    who.tenantId ≠ "" := by
  simp only [CookieHeader.auth] at h
  split_ifs at h with henabled
  · cases hkey : (extractApiKey headers).filter (· ≠ []) with
    | some key =>
      simp only [hkey, authStores] at h
      cases hfound : told.resolveTenant key with
      | none => simp [hfound] at h
      | some found =>
        cases found with
        | none => simp [hfound] at h
        | some tenant =>
          simp only [hfound, Option.map_some, Except.ok.injEq] at h
          subst h
          exact told.key_named key tenant hfound
    | none =>
      simp only [hkey] at h
      exact tenantId_ne_of_authSession h
  · cases h
    decide

theorem Identified.handed [EmptyCollection Json] {route : Route} {k : ℕ}
    {stage : OcrStage Json Llm} (h : (stages settings route)[k]? = some stage)
    (hid : Identified settings route k req) (hok : (stage s told req).2 = .ok req') :
    Identified settings route (k + 1) req' := by
  match k, h with
  | 0, _ => exact ⟨fun hk => absurd hk (by omega), fun _ _ hk => absurd hk (by omega)⟩
  | 1, _ => exact ⟨fun hk => absurd hk (by omega), fun _ _ hk => absurd hk (by omega)⟩
  | 2, h =>
    refine ⟨fun _ => ?_, fun _ _ hk => absurd hk (by omega)⟩
    obtain rfl | rfl := auth_or_catalog h
    · obtain ⟨who, hwho, rfl⟩ := auth_ok hok
      exact ⟨who.tenantId, tenantId_ne_of_auth hwho, rfl⟩
    · cases hok
  | k + 3, h =>
    have hcontinues := continues_of_stage h hok
    refine ⟨fun _ => ?_, ?_⟩
    · rw [hcontinues.tenantId]
      exact hid.tenant (by omega)
    · intro segment hroute hk hsensitive
      rw [hcontinues.param] at hsensitive
      by_cases hbehind : 7 ≤ k + 3
      · exact hcontinues.noStore (hid.marked segment hroute hbehind hsensitive)
      · -- The stage that marks is the seventh.
        obtain rfl : k = 3 := by omega
        subst hroute
        obtain rfl := Option.some.inj h
        obtain rfl := sensitivity_ok hok
        simp [hsensitive]

/-- The record is of a job that the tenant queued, and its result is what the pipeline makes of
the document it was queued with. -/
def IsOwn [EmptyCollection Json] (settings : Settings Json Llm) (worked : List (Worked Json))
    (tenantId : String) (record : JobRecord Json) : Prop :=
  ∃ fn request, getFunction settings.definitions fn.definition.key.toText = some fn ∧
    ⟨fn.definition.key, request, .queued record.jobId⟩ ∈ worked ∧
    request.tenantId = tenantId ∧ record.function = fn.definition.key.toText ∧
    ∀ result, record.result = some result → ∃ deps cache value responseMeta,
      (runPipeline settings.environment fn.definition request deps cache).response =
          .ok (value, responseMeta) ∧
        result = settings.render fn value

/-- A job is told of to the tenant that queued it. -/
def IsAddressed [EmptyCollection Json] (settings : Settings Json Llm) (s : Gateway Json)
    (a : Answered Json) : Prop :=
  ∀ record, a.reply = .job record → ∃ tenantId, a.request.tenantId = some tenantId ∧
    IsOwn settings s.worked tenantId record

/-- The stores hold what they may, and whatever was worked on has a tenant. -/
structure Kept [EmptyCollection Json] (settings : Settings Json Llm) (s : Gateway Json) : Prop
    extends Held settings s where
  tenant : ∀ w ∈ s.worked, w.request.tenantId ≠ ""

theorem IsAddressed.mono [EmptyCollection Json] {s' : Gateway Json} {a : Answered Json}
    (h : IsAddressed settings s a) (hsub : s.worked ⊆ s'.worked) : IsAddressed settings s' a := by
  intro record hrecord
  obtain ⟨tenantId, htenant, fn, request, hfn, hmem, hown⟩ := h record hrecord
  exact ⟨tenantId, htenant, fn, request, hfn, hsub hmem, hown⟩

theorem toJobRecord_isOwn [EmptyCollection Json] {worked : List (Worked Json)}
    {job : ScannedJob Json Json} (h : IsQueued settings worked job) {jobId : String}
    (hid : job.id = some jobId) :
    IsOwn settings worked (toJobRecord job jobId).tenantId (toJobRecord job jobId) := by
  obtain ⟨fn, request, jobId', hfn, hstandard, hmem, hid', hdata, hreturn⟩ := h
  obtain rfl : jobId = jobId' := Option.some.inj (hid.symm.trans hid')
  refine ⟨fn, request, hfn, hmem, by simp [toJobRecord, hdata, jobData],
    by simp [toJobRecord, hdata, jobData], ?_⟩
  intro result hresult
  simp only [toJobRecord] at hresult
  split_ifs at hresult
  obtain ⟨answer, hanswer, hfst⟩ := Option.bind_eq_some_iff.mp hresult
  obtain ⟨deps, cache, value, responseMeta, hran, rfl⟩ := hreturn answer hanswer
  exact ⟨deps, cache, value, responseMeta, hran, (Option.some.inj hfst).symm⟩

/-- The handler takes nothing back, and what it takes is of the tenant that asks. -/
theorem worked_runFunction [EmptyCollection Json] (settings : Settings Json Llm)
    (s : Gateway Json) (told : Told Llm) (req : Request Json) :
    s.worked ⊆ (runFunction settings s told req).1.worked ∧
      ∀ w ∈ (runFunction settings s told req).1.worked, w ∈ s.worked ∨
        w.request.tenantId = req.tenantId.getD "" := by
  obtain ⟨ws, us, ms, reply, _, hworked, _⟩ := (runFunction_handles settings s told req).outcome
  refine ⟨by rw [hworked]; exact List.subset_append_left _ _, ?_⟩
  intro w hw
  by_cases hbefore : w ∈ s.worked
  · exact .inl hbefore
  · obtain ⟨fn, hprepared, _⟩ := runFunction_worked hw hbefore
    exact .inr (prepare_ok hprepared).2.1

theorem typed_identified [EmptyCollection Json] (settings : Settings Json Llm) :
    Typed (ocrRouter settings) (Identified settings) (IsMarked settings) where
  arrives _ _ := ⟨fun hk => absurd hk (by omega), fun _ _ hk => absurd hk (by omega)⟩
  handed hstage _ _ _ _ hid hok := hid.handed hstage hok
  answered := by
    intro route k stage hstage s told req a hid herror key result responseMeta hreply hsensitive
    obtain hquiet | ⟨⟨segment, rfl⟩, rfl, rfl⟩ := quiet_or_runFunction hstage
    · have htaking := taking_of_quiet hquiet herror
      rw [hreply] at htaking
      cases htaking
    · obtain ⟨ws, us, ms, reply, hhandled, _, _, _, hanswer⟩ :=
        (runFunction_handles settings s told req).outcome
      rw [hanswer] at herror
      cases herror
      dsimp only at hreply
      subst hreply
      cases hhandled with
      | success result responseMeta hprepare _ _ =>
        refine hid.marked segment rfl (by omega) ?_
        rwa [← toText_of_getFunction (prepare_ok hprepare).1]

/-- Whoever is shown a job has queued it. -/
theorem Kept.isOwn [EmptyCollection Json] (h : Kept settings s) {job : ScannedJob Json Json}
    (hjob : job ∈ s.jobs) {jobId tenantId : String} (hid : job.id = some jobId)
    (hne : tenantId ≠ "") (hcross : crossTenant (toJobRecord job jobId) tenantId = false) :
    IsOwn settings s.worked tenantId (toJobRecord job jobId) := by
  have hown := toJobRecord_isOwn (h.jobs job hjob) hid
  have hsame : (toJobRecord job jobId).tenantId = tenantId := by
    obtain ⟨fn, request, _, hmem, howner, _⟩ := hown
    have hnamed := howner ▸ h.tenant _ hmem
    simpa [crossTenant, hne, hnamed] using hcross
  rwa [hsame] at hown

/-- The handler shows no job. -/
theorem runFunction_ne_job [EmptyCollection Json] {a : Answered Json}
    (h : (runFunction settings s told req).2 = .error a) (record : JobRecord Json) :
    a.reply ≠ .job record := by
  intro hrecord
  obtain ⟨ws, us, ms, reply, hhandled, _, _, _, hanswer⟩ :=
    (runFunction_handles settings s told req).outcome
  rw [hanswer] at h
  cases h
  dsimp only at hrecord
  subst hrecord
  cases hhandled

theorem keeping [EmptyCollection Json] (settings : Settings Json Llm) :
    Keeping (ocrRouter settings) (Identified settings) (IsMarked settings) (Kept settings)
      (IsAddressed settings) where
  toTyped := typed_identified settings
  staged := by
    intro route k stage hstage s told req hkept hid
    obtain hquiet | ⟨⟨segment, rfl⟩, rfl, rfl⟩ := quiet_or_runFunction hstage
    · obtain ⟨counters, hstate⟩ := hquiet.state s told req
      rw [hstate]
      refine ⟨⟨fun _ => ⟨⟨hkept.jobs, hkept.cache, hkept.documents⟩, hkept.tenant⟩,
        fun _ hbacks => hbacks⟩, ?_⟩
      intro a herror record hrecord
      obtain ⟨e, he⟩ | ⟨hrequest, hreads⟩ := hquiet.reply s told req a herror
      · rw [he] at hrecord
        cases hrecord
      · rw [hrequest]
        cases route with
        | functions =>
          rw [hreads.2] at hrecord
          cases hrecord
        | call segment => exact hreads.elim
        | job segment =>
          obtain ⟨hk, record', ⟨job, hjob, hjobId, rfl, hcross⟩, hreply⟩ := hreads
          rw [hreply] at hrecord
          cases hrecord
          obtain ⟨tenantId, hne, htenant⟩ := hid.tenant hk
          rw [htenant, Option.getD_some] at hcross
          exact ⟨tenantId, htenant, hkept.isOwn hjob hjobId hne hcross⟩
    · obtain ⟨hsub, hfresh⟩ := worked_runFunction settings s told req
      refine ⟨⟨fun _ => ⟨hkept.toHeld.runFunction told req, ?_⟩,
        fun a hbacks => hbacks.mono hsub⟩, ?_⟩
      · intro w hw
        obtain hbefore | htenant := hfresh w hw
        · exact hkept.tenant w hbefore
        · obtain ⟨tenantId, hne, hreq⟩ := hid.tenant (by omega)
          rw [htenant, hreq, Option.getD_some]
          exact hne
      · exact fun a herror record hrecord => absurd hrecord (runFunction_ne_job herror record)
  closed := by
    intro s ending a
    obtain ⟨log, unsent, unrecorded, hclose⟩ := close_eq s ending a
    show Follows (Kept settings) (IsAddressed settings) s (close s ending a)
    rw [hclose]
    exact ⟨fun hkept => ⟨⟨hkept.jobs, hkept.cache, hkept.documents⟩, hkept.tenant⟩,
      fun b hbacks => hbacks⟩
  changed := by
    intro s a s' hstep hkept
    have hworked := (books_meanwhile hstep).1
    refine ⟨fun _ => ⟨hkept.toHeld.meanwhile hstep, ?_⟩, fun b hbacks => hbacks.mono ?_⟩
    · rw [hworked]
      exact hkept.tenant
    · rw [hworked]
      exact List.Subset.refl _

theorem kept_initial [EmptyCollection Json] (settings : Settings Json Llm) (now : ℤ) :
    Kept settings (.initial now) := by
  refine ⟨⟨?_, ?_, ?_⟩, ?_⟩
  · intro job hjob
    cases hjob
  · intro key doc hdoc
    cases hdoc
  · intro row hrow
    cases hrow
  · intro w hw
    cases hw

section Runs

variable [EmptyCollection Json] (settings : Settings Json Llm) (now : ℤ)
  (as : List (OcrAction Json Llm))

/-- In every state of every run, no queue, cache or registry holds a document of a sensitive
function, and every answer with what such a function made is marked. -/
theorem sensitive_kept_nowhere : Throughout (step (ocrRouter settings))
    (fun t => Held settings t.shared ∧ ∀ a ∈ t.answers, IsMarked settings a)
    (start (.initial now)) as :=
  (sound_backed_throughout (keeping settings) (kept_initial settings now) as).mono
    fun _ ⟨hmarked, hbacked⟩ => ⟨hbacked.shared.toHeld, hmarked⟩

/-- In every state of every run, an answer about a job goes to the tenant that queued it, and its
result is what the pipeline makes of that tenant's document. -/
theorem job_answers_own : Throughout (step (ocrRouter settings))
    (fun t => ∀ a ∈ t.answers, IsAddressed settings t.shared a) (start (.initial now)) as :=
  (sound_backed_throughout (keeping settings) (kept_initial settings now) as).mono
    fun _ ⟨_, hbacked⟩ => hbacked.answers

end Runs

end HeirsOcr.OcrRoute

import HeirsOcr.OcrGates

/-!
# What the request log accounts for

Usage of a tenant is to be reconciled from the request log. A document that was processed or
queued has a row with its status and its function until the sweep takes it, except where the
answer still waits to be sent or its connection closed first, where the INSERT of the row failed,
and where a job was added whose sender was told that it could not be. Nothing that was refused,
and no other route, leaves such a row.
-/
namespace HeirsOcr.OcrRoute
open Billing Jobs Pipeline StepMachine StageChain CookieHeader
open Providers (OcrFunctionKey)

variable {Json Llm : Type} {settings : Settings Json Llm} {s : Gateway Json} {told : Told Llm}
  {req req' : Request Json} {tenantId : String}

/-- The two ways the handler takes a document. -/
inductive Taking where
  | processed
  | queued
  deriving DecidableEq, Repr

def Taking.status : Taking → ℕ
  | .processed => 200
  | .queued => 202

def Work.taking : Work → Option Taking
  | .queued _ => some .queued
  | .ran true => some .processed
  | .ran false => none

def Reply.taking : Reply Json → Option Taking
  | .success _ _ _ => some .processed
  | .accepted _ => some .queued
  | .catalog | .job _ | .refused _ => none

/-- The documents of a tenant that were processed, or queued. -/
def taken (tenantId : String) (kind : Taking) (s : Gateway Json) : ℕ :=
  s.worked.countP fun w => w.request.tenantId = tenantId ∧ w.work.taking = some kind

/-- A record of a tenant with the status and a function. -/
def isRow (tenantId : String) (kind : Taking) (row : RecordRequestInput) : Bool :=
  row.tenantId = tenantId ∧ row.statusCode = kind.status ∧ row.functionKey.isSome

def logged (tenantId : String) (kind : Taking) (s : Gateway Json) : ℕ :=
  s.requestLog.countP fun row => isRow tenantId kind row.toRecordRequestInput

def purged (tenantId : String) (kind : Taking) (s : Gateway Json) : ℕ :=
  s.purged.countP fun row => isRow tenantId kind row.toRecordRequestInput

def unrecorded (tenantId : String) (kind : Taking) (s : Gateway Json) : ℕ :=
  s.unrecorded.countP (isRow tenantId kind)

def isAnswer (tenantId : String) (kind : Taking) (a : Answered Json) : Bool :=
  a.request.tenantId = some tenantId ∧ a.reply.taking = some kind

/-- The documents whose answer did not reach the tenant. -/
def unsent (tenantId : String) (kind : Taking) (s : Gateway Json) : ℕ :=
  s.unsent.countP (isAnswer tenantId kind)

/-- The jobs of a tenant that it was told could not be added. -/
def unacknowledged (tenantId : String) (kind : Taking) (s : Gateway Json) : ℕ :=
  match kind with
  | .processed => 0
  | .queued => s.unacknowledged.countP fun w => w.request.tenantId = tenantId

/-- What is settled of the documents of a tenant: their rows, and what has none. -/
def settled (tenantId : String) (kind : Taking) (s : Gateway Json) : ℕ :=
  logged tenantId kind s + purged tenantId kind s + unrecorded tenantId kind s +
    unsent tenantId kind s + unacknowledged tenantId kind s

def metered (tenantId : String) (s : Gateway Json) : ℕ :=
  s.metered.countP fun m => m.tenantId = tenantId

/-- The log accounts for what a tenant had taken: there is a row for it, or was until the sweep, or
its INSERT failed, or its answer got lost or waits, or the answer of the queue got lost. No document
is metered that was not processed. -/
structure Accounts (tenantId : String)
    (t : State ℕ Route (Gateway Json) (Request Json) (Answered Json)) : Prop where
  taken_eq : ∀ kind, taken tenantId kind t.shared =
    logged tenantId kind t.shared + purged tenantId kind t.shared +
      unrecorded tenantId kind t.shared + unsent tenantId kind t.shared +
        unacknowledged tenantId kind t.shared + t.answers.countP (isAnswer tenantId kind)
  metered_le : metered tenantId t.shared ≤ taken tenantId .processed t.shared

/-- An outcome of the handler, with what it adds to the documents taken, to those of them whose
sender was not told, and to those metered. -/
inductive Handled (settings : Settings Json Llm) (s : Gateway Json) (req : Request Json) :
    List (Worked Json) → List (Worked Json) → List Metered → Reply Json → Prop
  | refused (e : OcrError) : Handled settings s req [] [] [] (.refused e)
  | failed (w : Worked Json) (e : OcrError) : w.work = .ran false →
    Handled settings s req [w] [] [] (.refused e)
  | accepted {fn : AnyOcrFunctionDefinition Json Llm} {request : OcrRequest Json}
    (jobId : String) : prepare settings s.now req = .ok (fn, request) →
      Handled settings s req [⟨fn.definition.key, request, .queued jobId⟩] [] [] (.accepted jobId)
  | lost (w : Worked Json) (jobId : String) (e : OcrError) : w.work = .queued jobId →
    Handled settings s req [w] [w] [] (.refused e)
  | success {fn : AnyOcrFunctionDefinition Json Llm} {request : OcrRequest Json} (result : Json)
    (responseMeta : OcrResponseMeta) {ms : List Metered} :
      prepare settings s.now req = .ok (fn, request) → ms.length ≤ 1 →
        (∀ m ∈ ms, m.tenantId = request.tenantId) →
          Handled settings s req [⟨fn.definition.key, request, .ran true⟩] [] ms
            (.success fn.definition.key result responseMeta)

/-- The handler answers, and leaves the log of requests alone. -/
structure Handles (settings : Settings Json Llm) (s : Gateway Json) (req : Request Json)
    (result : Gateway Json × Except (Answered Json) (Request Json)) : Prop where
  outcome : ∃ ws us ms reply, Handled settings s req ws us ms reply ∧
    result.1.worked = s.worked ++ ws ∧ result.1.unacknowledged = s.unacknowledged ++ us ∧
      result.1.metered = s.metered ++ ms ∧ result.2 = .error ⟨req, reply⟩
  requestLog : result.1.requestLog = s.requestLog
  purged : result.1.purged = s.purged
  unrecorded : result.1.unrecorded = s.unrecorded
  unsent : result.1.unsent = s.unsent

theorem runFunction_handles [EmptyCollection Json] (settings : Settings Json Llm)
    (s : Gateway Json) (told : Told Llm) (req : Request Json) :
    Handles settings s req (runFunction settings s told req) := by
  simp only [runFunction]
  cases hprepared : prepare settings s.now req with
  | error e =>
    exact ⟨⟨[], [], [], _, .refused e, by simp, by simp, by simp, rfl⟩, rfl, rfl, rfl, rfl⟩
  | ok prepared =>
    obtain ⟨fn, request⟩ := prepared
    dsimp only
    split
    · simp only [enqueue]
      split
      · exact ⟨⟨[], [], [], _, .refused _, by simp, by simp, by simp, rfl⟩, rfl, rfl, rfl, rfl⟩
      · exact ⟨⟨_, _, [], _, .lost _ _ _ rfl, rfl, rfl, by simp, rfl⟩, rfl, rfl, rfl, rfl⟩
      · exact ⟨⟨_, [], [], _, .accepted _ hprepared, rfl, by simp, by simp, rfl⟩, rfl, rfl, rfl,
          rfl⟩
    · simp only [runNow]
      cases hran : (runPipeline settings.environment fn.definition request told.deps
          s.cache).response with
      | error e =>
        exact ⟨⟨_, [], [], _, .failed _ e rfl, rfl, by simp, by simp, rfl⟩, rfl, rfl, rfl, rfl⟩
      | ok answer =>
        obtain ⟨result, responseMeta⟩ := answer
        refine ⟨⟨_, [], _, _, .success _ responseMeta hprepared ?_ ?_, rfl, by simp, rfl, rfl⟩, rfl,
          rfl, rfl, rfl⟩
        · split
          · simp
          · simp
        · intro m hm
          split at hm
          · obtain rfl := List.mem_singleton.mp hm
            rfl
          · cases hm

/-- The function a request is noted with, and the one its path names. -/
def Carries (route : Route) (k : ℕ) (req : Request Json) : Prop :=
  (1 ≤ k → req.functionKey = functionKeyOf route) ∧
    ∀ segment, route = .call segment → 2 ≤ k →
      (decodeURIComponent segment).map String.ofList = some req.param

/-- Only the answer to a document that was taken comes with a function and no error. -/
structure Fair (a : Answered Json) : Prop where
  function : ∀ kind, a.reply.taking = some kind → a.request.functionKey.isSome = true
  error : a.request.functionKey.isSome = true →
    a.reply.taking.isSome = true ∨ ∃ e, a.reply = .refused e

/-- Behind the first two stages the two fields stay. -/
theorem fields_of_stage [EmptyCollection Json] {route : Route} {k : ℕ}
    {stage : OcrStage Json Llm} (h : (stages settings route)[k + 2]? = some stage)
    (hok : (stage s told req).2 = .ok req') :
    req'.functionKey = req.functionKey ∧ req'.param = req.param := by
  cases k with
  | zero =>
    obtain rfl | rfl := auth_or_catalog h
    · obtain ⟨who, _, rfl⟩ := auth_ok hok
      exact ⟨rfl, rfl⟩
    · cases hok
  | succ k =>
    have hcontinues := continues_of_stage h hok
    exact ⟨hcontinues.functionKey, hcontinues.param⟩

theorem Carries.handed [EmptyCollection Json] {route : Route} {k : ℕ}
    {stage : OcrStage Json Llm} (h : (stages settings route)[k]? = some stage)
    (hcarries : Carries route k req) (hok : (stage s told req).2 = .ok req') :
    Carries route (k + 1) req' := by
  match k, h with
  | 0, h =>
    obtain rfl := Option.some.inj h
    cases hok
    exact ⟨fun _ => rfl, fun _ _ hk => absurd hk (by omega)⟩
  | 1, h =>
    obtain rfl := Option.some.inj h
    cases route with
    | functions =>
      cases hok
      exact ⟨fun _ => hcarries.1 le_rfl, fun _ hroute => by cases hroute⟩
    | call segment =>
      obtain ⟨param, hparam, rfl⟩ := bindParams_call hok
      refine ⟨fun _ => hcarries.1 le_rfl, ?_⟩
      intro segment' hroute _
      cases hroute
      rw [hparam, Option.map_some]
    | job segment =>
      refine ⟨fun _ => ?_, fun _ hroute => by cases hroute⟩
      simp only [bindParams] at hok
      split at hok
      · cases hok
      · cases hok
        exact hcarries.1 le_rfl
  | k + 2, h =>
    obtain ⟨hkey, hparam⟩ := fields_of_stage h hok
    refine ⟨fun _ => ?_, ?_⟩
    · rw [hkey]
      exact hcarries.1 (by omega)
    · intro segment hroute _
      rw [hparam]
      exact hcarries.2 segment hroute (by omega)

/-- A path that names a function of the catalog is noted with a function. -/
theorem functionKeyOf_isSome {segment : List Char} {key : OcrFunctionKey}
    (h : (decodeURIComponent segment).map String.ofList = some key.toText) :
    (functionKeyOf (.call segment)).isSome = true := by
  have hne : ∀ text : String, (decodeURIComponent text.toList).map String.ofList = some text →
      (∀ key : OcrFunctionKey, key.toText ≠ text) → String.ofList segment ≠ text := by
    intro text hdecoded hno heq
    have hsegment : segment = text.toList := by rw [← heq, String.toList_ofList]
    rw [hsegment, hdecoded] at h
    exact hno key (Option.some.inj h).symm
  have hempty := hne "" (by decide +kernel) (by intro key; cases key <;> decide)
  have hfunctions := hne "functions" (by decide +kernel) (by intro key; cases key <;> decide)
  have hjobs := hne "jobs" (by decide +kernel) (by intro key; cases key <;> decide)
  simp [functionKeyOf, hempty, hfunctions, hjobs]

theorem fair_of_refused {a : Answered Json} (h : ∃ e, a.reply = .refused e) : Fair a := by
  refine ⟨fun kind hkind => ?_, fun _ => .inr h⟩
  obtain ⟨e, he⟩ := h
  rw [he] at hkind
  cases hkind

theorem taking_of_quiet {route : Route} {k : ℕ} {stage : OcrStage Json Llm}
    (h : Quiet (Reads route k) stage) {a : Answered Json}
    (herror : (stage s told req).2 = .error a) : a.reply.taking = none := by
  obtain ⟨e, he⟩ | ⟨_, hreads⟩ := h.reply s told req a herror
  · rw [he]
    rfl
  · cases route with
    | functions =>
      rw [hreads.2]
      rfl
    | call segment => exact hreads.elim
    | job segment =>
      obtain ⟨_, record, _, hjob⟩ := hreads
      rw [hjob]
      rfl

/-- An answer that was read comes from another route, and with no function. -/
theorem fair_of_quiet {route : Route} {k : ℕ} {stage : OcrStage Json Llm}
    (hquiet : Quiet (Reads route k) stage) (hcarries : Carries route k req) {a : Answered Json}
    (herror : (stage s told req).2 = .error a) : Fair a := by
  obtain hrefused | ⟨hrequest, hreads⟩ := hquiet.reply s told req a herror
  · exact fair_of_refused hrefused
  · have hnone : a.request.functionKey = none := by
      rw [hrequest]
      cases route with
      | functions => exact hcarries.1 ((by omega : 1 ≤ 2).trans hreads.1)
      | call segment => exact hreads.elim
      | job segment => exact hcarries.1 ((by omega : 1 ≤ 3).trans hreads.1)
    refine ⟨fun kind hkind => ?_, fun hsome => ?_⟩
    · rw [taking_of_quiet hquiet herror] at hkind
      cases hkind
    · rw [hnone] at hsome
      cases hsome

theorem status_refused_ne (e : OcrError) (kind : Taking) :
    (Reply.refused e : Reply Json).status ≠ kind.status := by
  show STATUS_BY_CODE e.code ≠ kind.status
  cases e.code <;> cases kind <;> decide

theorem status_of_taking {reply : Reply Json} {kind : Taking} (h : reply.taking = some kind) :
    reply.status = kind.status := by
  cases reply with
  | success _ _ _ =>
    cases h
    rfl
  | accepted _ =>
    cases h
    rfl
  | catalog => cases h
  | job _ => cases h
  | refused _ => cases h

/-- The row of a fair answer tells its kind. -/
theorem taking_iff_row (kind : Taking) {a : Answered Json} (hfair : Fair a) :
    a.reply.taking = some kind ↔
      a.reply.status = kind.status ∧ a.request.functionKey.isSome = true := by
  constructor
  · exact fun h => ⟨status_of_taking h, hfair.function kind h⟩
  · intro ⟨hstatus, hsome⟩
    obtain htaken | ⟨e, he⟩ := hfair.error hsome
    · obtain ⟨kind', hkind'⟩ := Option.isSome_iff_exists.mp htaken
      rw [status_of_taking hkind'] at hstatus
      rw [hkind']
      cases kind <;> cases kind' <;> first | rfl | cases hstatus
    · rw [he] at hstatus
      exact absurd hstatus (status_refused_ne e kind)

/-- A fair answer of the tenant is counted by what is recorded of it. -/
theorem countP_inputOf (hne : tenantId ≠ "") (kind : Taking) {a : Answered Json} (hfair : Fair a) :
    (inputOf a).toList.countP (isRow tenantId kind) =
      if isAnswer tenantId kind a then 1 else 0 := by
  have hkind := taking_iff_row kind hfair
  unfold inputOf isAnswer
  obtain htenant | ⟨id, htenant⟩ := Option.eq_none_or_eq_some a.request.tenantId
  · simp [htenant]
  · by_cases hid : id = tenantId
    · subst hid
      simp [htenant, Option.filter_some, hne, hkind, isRow]
    · by_cases hempty : id = ""
      · simp [htenant, Option.filter_some, hempty, Ne.symm hne]
      · simp [htenant, Option.filter_some, hempty, hid, isRow]

/-- An answer is settled when it is closed, in whichever way. -/
theorem settled_close (hne : tenantId ≠ "") (kind : Taking) (s : Gateway Json) (ending : Ending)
    {a : Answered Json} (hfair : Fair a) : settled tenantId kind (close s ending a) =
      settled tenantId kind s + if isAnswer tenantId kind a then 1 else 0 := by
  cases ending with
  | closed =>
    simp only [close, settled, logged, purged, unrecorded, unsent, unacknowledged,
      List.countP_append, List.countP_singleton]
    omega
  | finish inserted =>
    rw [← countP_inputOf hne kind hfair]
    simp only [close]
    cases inputOf a with
    | none => rfl
    | some input =>
      have hone : [input].countP (isRow tenantId kind) =
          if isRow tenantId kind input then 1 else 0 := List.countP_singleton
      cases inserted with
      | none =>
        simp only [Option.elim_some, recordApiRequest, settled, logged, purged, unrecorded, unsent,
          unacknowledged, List.countP_append, Option.toList_some]
        omega
      | some dbNow =>
        have hrow : [rowOf input dbNow].countP
            (fun row => isRow tenantId kind row.toRecordRequestInput) =
              if isRow tenantId kind input then 1 else 0 := List.countP_singleton
        simp only [Option.elim_some, recordApiRequest, settled, logged, purged, unrecorded, unsent,
          unacknowledged, List.countP_append, Option.toList_some]
        omega

theorem isAnswer_of_quiet {route : Route} {k : ℕ} {stage : OcrStage Json Llm}
    (h : Quiet (Reads route k) stage) {a : Answered Json}
    (herror : (stage s told req).2 = .error a) (tenantId : String) (kind : Taking) :
    isAnswer tenantId kind a = false := by
  simp [isAnswer, taking_of_quiet h herror]

theorem fair_of_handles {segment : List Char} (hcarries : Carries (.call segment) 8 req)
    {result : Gateway Json × Except (Answered Json) (Request Json)}
    (h : Handles settings s req result) {a : Answered Json} (herror : result.2 = .error a) :
    Fair a := by
  obtain ⟨ws, us, ms, reply, hhandled, _, _, _, hanswer⟩ := h.outcome
  rw [hanswer] at herror
  cases herror
  have hprepared : ∀ {fn : AnyOcrFunctionDefinition Json Llm} {request : OcrRequest Json},
      prepare settings s.now req = .ok (fn, request) → req.functionKey.isSome = true := by
    intro fn request hprepare
    have hkey := hcarries.2 segment rfl (by omega)
    rw [← toText_of_getFunction (prepare_ok hprepare).1] at hkey
    rw [hcarries.1 (by omega)]
    exact functionKeyOf_isSome hkey
  cases hhandled with
  | refused e => exact fair_of_refused ⟨e, rfl⟩
  | failed w e hw => exact fair_of_refused ⟨e, rfl⟩
  | lost w jobId e hw => exact fair_of_refused ⟨e, rfl⟩
  | accepted jobId hprepare => exact ⟨fun _ _ => hprepared hprepare, fun _ => .inl rfl⟩
  | success result responseMeta hprepare _ _ =>
    exact ⟨fun _ _ => hprepared hprepare, fun _ => .inl rfl⟩

/-- What the handler adds to the documents of a tenant is what it answers, or is settled at once:
a job added without an answer of the queue. -/
theorem taken_of_handles (hne : tenantId ≠ "") (kind : Taking)
    {result : Gateway Json × Except (Answered Json) (Request Json)}
    (h : Handles settings s req result) {a : Answered Json} (herror : result.2 = .error a) :
    ∃ atOnce, taken tenantId kind result.1 =
        taken tenantId kind s + (if isAnswer tenantId kind a then 1 else 0) + atOnce ∧
      settled tenantId kind result.1 = settled tenantId kind s + atOnce := by
  obtain ⟨ws, us, ms, reply, hhandled, hworked, hunacknowledged, _, hanswer⟩ := h.outcome
  rw [hanswer] at herror
  cases herror
  have htenant : ∀ {fn : AnyOcrFunctionDefinition Json Llm} {request : OcrRequest Json},
      prepare settings s.now req = .ok (fn, request) →
        (request.tenantId = tenantId ↔ req.tenantId = some tenantId) := by
    intro fn request hprepare
    rw [(prepare_ok hprepare).2.1]
    cases req.tenantId with
    | none => simp [Ne.symm hne]
    | some id => simp
  refine ⟨us.countP fun w => w.request.tenantId = tenantId ∧ w.work.taking = some kind, ?_, ?_⟩
  · rw [taken, hworked, List.countP_append, add_assoc]
    congr 1
    cases hhandled with
    | refused e => simp [isAnswer, Reply.taking]
    | failed w e hw => simp [isAnswer, Reply.taking, hw, Work.taking]
    | lost w jobId e hw => simp [isAnswer, Reply.taking]
    | accepted jobId hprepare =>
      simp [isAnswer, Reply.taking, List.countP_singleton, Work.taking, htenant hprepare]
    | success result responseMeta hprepare _ _ =>
      simp [isAnswer, Reply.taking, List.countP_singleton, Work.taking, htenant hprepare]
  · have hqueued : unacknowledged tenantId kind result.1 = unacknowledged tenantId kind s +
        us.countP fun w => w.request.tenantId = tenantId ∧ w.work.taking = some kind := by
      have hlost : ∀ w ∈ us, w.work.taking = some .queued := by
        cases hhandled with
        | lost w jobId e hw => simp [hw, Work.taking]
        | refused | failed | accepted | success => simp
      cases kind with
      | processed =>
        have hnone : us.countP (fun w => w.request.tenantId = tenantId ∧
            w.work.taking = some .processed) = 0 := by
          rw [List.countP_eq_zero]
          intro w hw
          simp [hlost w hw]
        rw [hnone]
        rfl
      | queued =>
        simp only [unacknowledged, hunacknowledged, List.countP_append]
        congr 1
        apply List.countP_congr
        intro w hw
        simp [hlost w hw]
    simp only [settled, logged, purged, unrecorded, unsent, h.requestLog, h.purged, h.unrecorded,
      h.unsent]
    omega

theorem typed [EmptyCollection Json] (settings : Settings Json Llm) :
    Typed (ocrRouter settings) Carries Fair where
  arrives route sent := ⟨fun h => absurd h (by omega), fun _ _ h => absurd h (by omega)⟩
  handed hstage _ _ _ _ hcarries hok := hcarries.handed hstage hok
  answered := by
    intro route k stage hstage s told req a hcarries herror
    obtain hquiet | ⟨⟨segment, rfl⟩, rfl, rfl⟩ := quiet_or_runFunction hstage
    · exact fair_of_quiet hquiet hcarries herror
    · exact fair_of_handles hcarries (runFunction_handles settings s told req) herror

/-- The books of one tenant and one kind of answer. -/
theorem booked [EmptyCollection Json] (settings : Settings Json Llm) (hne : tenantId ≠ "")
    (kind : Taking) :
    Booked (ocrRouter settings) Carries Fair (taken tenantId kind) (settled tenantId kind)
      (fun a => if isAnswer tenantId kind a then 1 else 0) where
  toTyped := typed settings
  given_handed := by
    intro route k stage hstage s told req req' hok
    obtain hquiet | ⟨_, _, rfl⟩ := quiet_or_runFunction hstage
    · obtain ⟨counters, hstate⟩ := hquiet.state s told req
      rw [hstate]
      exact ⟨rfl, rfl⟩
    · exact absurd hok runFunction_ne_ok
  given_answered := by
    intro route k stage hstage s told req a hcarries herror
    obtain hquiet | ⟨⟨segment, rfl⟩, rfl, rfl⟩ := quiet_or_runFunction hstage
    · obtain ⟨counters, hstate⟩ := hquiet.state s told req
      rw [hstate, isAnswer_of_quiet hquiet herror tenantId kind]
      exact ⟨0, rfl, rfl⟩
    · exact taken_of_handles hne kind (runFunction_handles settings s told req) herror
  close := by
    intro s ending a hfair
    refine ⟨?_, settled_close hne kind s ending hfair⟩
    show taken tenantId kind (close s ending a) = taken tenantId kind s
    rw [taken, worked_close, taken]
  meanwhile := by
    intro s a s' h
    obtain ⟨hworked, hunacknowledged, hunsent, hunrecorded, _, hlog⟩ := books_meanwhile h
    have hcount := hlog.countP_eq fun row => isRow tenantId kind row.toRecordRequestInput
    simp only [List.countP_append] at hcount
    have hunknown : unacknowledged tenantId kind s' = unacknowledged tenantId kind s := by
      cases kind with
      | processed => rfl
      | queued => simp only [unacknowledged, hunacknowledged]
    simp only [taken, settled, logged, purged, unsent, unrecorded, hworked, hunsent, hunrecorded,
      hunknown]
    exact ⟨trivial, by omega⟩

/-- A document is metered once at most, and only when it was processed. -/
theorem metered_of_handles {result : Gateway Json × Except (Answered Json) (Request Json)}
    (h : Handles settings s req result)
    (hle : metered tenantId s ≤ taken tenantId .processed s) :
    metered tenantId result.1 ≤ taken tenantId .processed result.1 := by
  obtain ⟨ws, us, ms, reply, hhandled, hworked, _, hmetered, _⟩ := h.outcome
  unfold metered taken at *
  rw [hworked, hmetered, List.countP_append, List.countP_append]
  have hadded : ms.countP (fun m => m.tenantId = tenantId) ≤
      ws.countP fun w => w.request.tenantId = tenantId ∧ w.work.taking = some .processed := by
    cases hhandled with
    | refused e => simp
    | failed w e hw => simp
    | lost w jobId e hw => simp
    | accepted jobId hprepare => simp
    | @success fn request result responseMeta ms hprepare hlength htenant =>
      by_cases hid : request.tenantId = tenantId
      · have hle := List.countP_le_length (l := ms) (p := fun m => decide (m.tenantId = tenantId))
        simp only [List.countP_singleton, hid, Work.taking, and_self, decide_true, if_true]
        omega
      · have hnone : ms.countP (fun m => m.tenantId = tenantId) = 0 := by
          rw [List.countP_eq_zero]
          intro m hm
          simpa [htenant m hm] using hid
        omega
  omega

theorem metering [EmptyCollection Json] (settings : Settings Json Llm) (tenantId : String) :
    Keeping (ocrRouter settings) Carries Fair
      (fun s => metered tenantId s ≤ taken tenantId .processed s) (fun _ _ => True) where
  toTyped := typed settings
  staged := by
    intro route k stage hstage s told req _ _
    refine ⟨⟨fun hle => ?_, fun _ _ => trivial⟩, fun _ _ => trivial⟩
    obtain hquiet | ⟨_, _, rfl⟩ := quiet_or_runFunction hstage
    · obtain ⟨counters, hstate⟩ := hquiet.state s told req
      rw [hstate]
      exact hle
    · exact metered_of_handles (runFunction_handles settings s told req) hle
  closed := by
    intro s ending answer
    refine ⟨fun hle => ?_, fun _ _ => trivial⟩
    obtain ⟨log, unsent, unrecorded, hclose⟩ := close_eq s ending answer
    show metered tenantId (close s ending answer) ≤
      taken tenantId .processed (close s ending answer)
    rw [hclose]
    exact hle
  changed := by
    intro s a s' hchange _
    refine ⟨fun hle => ?_, fun _ _ => trivial⟩
    obtain ⟨hworked, _, _, _, hmetered, _⟩ := books_meanwhile hchange
    simpa only [metered, taken, hworked, hmetered] using hle

/-- In every state of every run, the log accounts for every document taken of every tenant. -/
theorem log_accounts [EmptyCollection Json] (settings : Settings Json Llm) (now : ℤ)
    (as : List (OcrAction Json Llm)) :
    Throughout (step (ocrRouter settings)) (fun t => ∀ tenantId ≠ "", Accounts tenantId t)
      (start (.initial now)) as := by
  have hbooks : Throughout (step (ocrRouter settings)) (fun t => Sound Carries Fair t ∧
      ∀ tenantId ≠ "", (∀ kind, Balanced (taken tenantId kind) (settled tenantId kind)
        (fun a => if isAnswer tenantId kind a then 1 else 0) t) ∧
      Backed (fun s => metered tenantId s ≤ taken tenantId .processed s) (fun _ _ => True) t)
      (start (.initial now)) as := by
    apply throughout_of_step
    · intro t a t' ⟨hsound, h⟩ hstep
      refine ⟨hsound.step (typed settings) hstep, fun tenantId hne => ?_⟩
      obtain ⟨hbalanced, hmetered⟩ := h tenantId hne
      exact ⟨fun kind => (hbalanced kind).step (booked settings hne kind) hsound hstep,
        hmetered.step (metering settings tenantId) hsound hstep⟩
    · exact ⟨sound_start Carries Fair _, fun tenantId hne =>
        ⟨fun kind => by cases kind <;> rfl, le_rfl, fun _ _ => trivial⟩⟩
  refine hbooks.mono fun t ⟨_, h⟩ tenantId hne => ?_
  obtain ⟨hbalanced, hmetered⟩ := h tenantId hne
  refine ⟨fun kind => ?_, hmetered.shared⟩
  rw [← sum_map_indicator]
  exact hbalanced kind

end HeirsOcr.OcrRoute

import HeirsOcr.NumberText
import HeirsOcr.ProviderRegistry
import HeirsOcr.Signing
import HeirsOcr.WorkerPool

/-!
# Pages sent to GLM-OCR

A page is posted again after a network error, a time-out of its own or a status that may pass, a
bounded number of times with a bounded wait between. The pages of a document are posted side by
side, no more than a limit at once. Whatever order the answers come in, the document is the one
that posting page after page recognizes.
-/
namespace HeirsOcr.GlmClient
open JsText NumberText Providers StepMachine WorkerPool

/-- An answer of the endpoint; `text` is `none` where the body cannot be read. -/
structure Response where
  status : ℕ
  statusText : String
  retryAfter : Option String
  text : Option String
  json : Except String LayoutParsingResponse

inductive Fetched where
  | response (r : Response)
  | rejected (err : String) (aborted : Bool)

/-- What a turn of the loop meets: the answer, what `Math.random` draws, and the reason of a caller
who aborts the wait after it. -/
structure Attempt where
  fetched : Fetched
  random : ℚ
  random_nonneg : 0 ≤ random
  random_lt : random < 1
  reason : Option String

def DEFAULT_MAX_RETRIES : ℕ := 3

def RETRYABLE_STATUS : List ℕ := [429, 500, 502, 503, 504]

def BACKOFF_BASE_MS : ℚ := 500

def BACKOFF_MAX_MS : ℚ := 8000

def Response.ok (r : Response) : Bool := 200 ≤ r.status && r.status ≤ 299

def backoffMs (attempt : ℕ) (retryAfter : Option String) (random : ℚ) : ℚ :=
  let ceiling := min (BACKOFF_BASE_MS * 2 ^ attempt) BACKOFF_MAX_MS
  let jittered := ceiling / 2 + random * (ceiling / 2)
  match (retryAfter.filter (· ≠ "")).map fun text => toNumber text.toList with
  | some (.finite secs) => if 0 ≤ secs.val then min (secs.val * 1000) BACKOFF_MAX_MS else jittered
  | some .nan | some (.infinity _) | none => jittered

def failedMessage (r : Response) : String :=
  let body := JsText.slice (r.text.getD "") 500
  "GLM layout_parsing failed: " ++ toString r.status ++ " " ++ r.statusText ++
    if body = "" then "" else " — " ++ body

/-- The end of a turn. A status that is tried again is not reported: another turn follows. -/
inductive Turn where
  | done (result : Except String LayoutParsingResponse)
  | again (ms : ℚ)

/-- The wait; a caller's abort ends it. -/
def pause (a : Attempt) (ms : ℚ) : Turn :=
  match a.reason with
  | some reason => .done (.error reason)
  | none => .again ms

def turn (maxRetries attempt : ℕ) (a : Attempt) : Turn :=
  match a.fetched with
  | .rejected err aborted =>
    if aborted then .done (.error err)
    else if maxRetries ≤ attempt then .done (.error err)
    else pause a (backoffMs attempt none a.random)
  | .response r =>
    if r.ok then .done r.json
    else if r.status ∈ RETRYABLE_STATUS ∧ attempt < maxRetries then
      pause a (backoffMs attempt r.retryAfter a.random)
    else .done (.error (failedMessage r))

/-- The posts of a call, the waits between them, and what it returns or throws. -/
structure Calls where
  posts : ℕ
  waits : List ℚ
  result : Except String LayoutParsingResponse

theorem lt_of_again {maxRetries attempt : ℕ} {a : Attempt} {ms : ℚ}
    (h : turn maxRetries attempt a = .again ms) : attempt < maxRetries := by
  simp only [turn] at h
  split at h
  · split_ifs at h with haborted hlast
    exact not_le.mp hlast
  · split_ifs at h with hok hretry
    exact hretry.2

/-- The loop, from one attempt on. -/
def layoutParsingFrom (maxRetries : ℕ) (told : ℕ → Attempt) (attempt : ℕ) : Calls :=
  match h : turn maxRetries attempt (told attempt) with
  | .done result => ⟨1, [], result⟩
  | .again ms =>
    let rest := layoutParsingFrom maxRetries told (attempt + 1)
    ⟨rest.posts + 1, ms :: rest.waits, rest.result⟩
termination_by maxRetries - attempt
decreasing_by
  have hlt := lt_of_again h
  omega

def layoutParsing (maxRetries : Option ℕ) (told : ℕ → Attempt) : Calls :=
  layoutParsingFrom (maxRetries.getD DEFAULT_MAX_RETRIES) told 0

/-- A failure that may pass. -/
def Transient (a : Attempt) : Prop :=
  (∃ err, a.fetched = .rejected err false) ∨
    ∃ r, a.fetched = .response r ∧ r.status ∈ RETRYABLE_STATUS

/-- The page is tried again, if that is still allowed. -/
def GoesOn (a : Attempt) : Prop := Transient a ∧ a.reason = none

/-- The endpoint answered, and the body was read. -/
def Answers (a : Attempt) (value : LayoutParsingResponse) : Prop :=
  ∃ r, a.fetched = .response r ∧ r.ok = true ∧ r.json = .ok value

/-- A call, from one attempt on: it goes on from each post but the last, and from that one only if
no retry is left. -/
structure Tries (maxRetries : ℕ) (told : ℕ → Attempt) (attempt : ℕ) (c : Calls) : Prop where
  posted : 1 ≤ c.posts
  bounded : attempt + c.posts ≤ max maxRetries attempt + 1
  went_on : ∀ n, n + 1 < c.posts → GoesOn (told (attempt + n))
  stopped : attempt + c.posts ≤ maxRetries → ¬GoesOn (told (attempt + (c.posts - 1)))
  answered : ∀ value, c.result = .ok value ↔ Answers (told (attempt + (c.posts - 1))) value
  waited : c.waits.length + 1 = c.posts
  short : ∀ ms ∈ c.waits, 0 ≤ ms ∧ ms ≤ BACKOFF_MAX_MS

theorem backoffMs_bounds (attempt : ℕ) (retryAfter : Option String) {random : ℚ}
    (h0 : 0 ≤ random) (h1 : random < 1) :
    0 ≤ backoffMs attempt retryAfter random ∧
      backoffMs attempt retryAfter random ≤ BACKOFF_MAX_MS := by
  have hmax : (0 : ℚ) ≤ BACKOFF_MAX_MS := by norm_num [BACKOFF_MAX_MS]
  have hceiling : 0 ≤ min (BACKOFF_BASE_MS * 2 ^ attempt) BACKOFF_MAX_MS :=
    le_min (mul_nonneg (by norm_num [BACKOFF_BASE_MS]) (by positivity)) hmax
  have hle : min (BACKOFF_BASE_MS * 2 ^ attempt) BACKOFF_MAX_MS ≤ BACKOFF_MAX_MS :=
    min_le_right _ _
  have hjittered : ∀ ceiling : ℚ, 0 ≤ ceiling → ceiling ≤ BACKOFF_MAX_MS →
      0 ≤ ceiling / 2 + random * (ceiling / 2) ∧
        ceiling / 2 + random * (ceiling / 2) ≤ BACKOFF_MAX_MS := by
    intro ceiling hnonneg hbound
    have hhalf : 0 ≤ ceiling / 2 := by linarith
    have hproduct : random * (ceiling / 2) ≤ 1 * (ceiling / 2) :=
      mul_le_mul_of_nonneg_right h1.le hhalf
    have hproduct0 : 0 ≤ random * (ceiling / 2) := mul_nonneg h0 hhalf
    constructor <;> linarith
  simp only [backoffMs]
  split
  · split_ifs with hsecs
    · exact ⟨le_min (mul_nonneg hsecs (by norm_num)) hmax, min_le_right _ _⟩
    · exact hjittered _ hceiling hle
  · exact hjittered _ hceiling hle
  · exact hjittered _ hceiling hle
  · exact hjittered _ hceiling hle

theorem not_ok_of_retryable {r : Response} (h : r.status ∈ RETRYABLE_STATUS) : r.ok = false := by
  have hlarge : 300 ≤ r.status := by
    simp only [RETRYABLE_STATUS, List.mem_cons, List.not_mem_nil, or_false] at h
    omega
  simp only [Response.ok, Bool.and_eq_false_iff, decide_eq_false_iff_not]
  right
  omega

section Turn

variable {maxRetries attempt : ℕ} {a : Attempt} {ms wait : ℚ} {err : String} {aborted : Bool}
  {r : Response} {value : LayoutParsingResponse} {result : Except String LayoutParsingResponse}

theorem pause_again (h : pause a wait = .again ms) : a.reason = none ∧ ms = wait := by
  unfold pause at h
  split at h
  · cases h
  · rename_i hreason
    cases h
    exact ⟨hreason, rfl⟩

theorem pause_done (h : pause a wait = .done result) :
    ¬GoesOn a ∧ ∃ reason, result = .error reason := by
  unfold pause at h
  split at h
  · rename_i reason hreason
    cases h
    refine ⟨fun hgoes => ?_, reason, rfl⟩
    rw [hgoes.2] at hreason
    cases hreason
  · cases h

theorem transient_rejected (h : a.fetched = .rejected err aborted) :
    Transient a ↔ aborted = false := by
  simp [Transient, h]

theorem transient_response (h : a.fetched = .response r) :
    Transient a ↔ r.status ∈ RETRYABLE_STATUS := by
  simp [Transient, h]

theorem answers_rejected (h : a.fetched = .rejected err aborted) : ¬Answers a value := by
  simp [Answers, h]

theorem answers_response (h : a.fetched = .response r) :
    Answers a value ↔ r.ok = true ∧ r.json = .ok value := by
  simp [Answers, h]

theorem turn_again (h : turn maxRetries attempt a = .again ms) :
    GoesOn a ∧ ∃ retryAfter, ms = backoffMs attempt retryAfter a.random := by
  simp only [turn] at h
  split at h
  · rename_i err aborted hfetched
    split_ifs at h with haborted hlast
    obtain ⟨hreason, hms⟩ := pause_again h
    exact ⟨⟨(transient_rejected hfetched).mpr (by simpa using haborted), hreason⟩, none, hms⟩
  · rename_i r hfetched
    split_ifs at h with hok hretry
    obtain ⟨hreason, hms⟩ := pause_again h
    exact ⟨⟨(transient_response hfetched).mpr hretry.1, hreason⟩, r.retryAfter, hms⟩

/-- A turn that throws, where the endpoint has not answered. -/
theorem error_iff (h : ∀ value, ¬Answers a value) {message : String} :
    (.error message : Except String LayoutParsingResponse) = .ok value ↔ Answers a value :=
  ⟨fun herror => (by cases herror), fun hanswers => absurd hanswers (h value)⟩

theorem turn_done (h : turn maxRetries attempt a = .done result) :
    (attempt < maxRetries → ¬GoesOn a) ∧ ∀ value, result = .ok value ↔ Answers a value := by
  simp only [turn] at h
  split at h
  · rename_i err aborted hfetched
    have hnone : ∀ value, ¬Answers a value := fun _ => answers_rejected hfetched
    split_ifs at h with haborted hlast
    · cases h
      refine ⟨fun _ hgoes => ?_, fun _ => error_iff hnone⟩
      rw [(transient_rejected hfetched).mp hgoes.1] at haborted
      cases haborted
    · cases h
      exact ⟨fun hlt => absurd hlt hlast.not_gt, fun _ => error_iff hnone⟩
    · obtain ⟨hstops, reason, rfl⟩ := pause_done h
      exact ⟨fun _ => hstops, fun _ => error_iff hnone⟩
  · rename_i r hfetched
    by_cases hok : r.ok = true
    · rw [if_pos hok] at h
      cases h
      refine ⟨fun _ hgoes => ?_, fun value => by rw [answers_response hfetched, and_iff_right hok]⟩
      rw [not_ok_of_retryable ((transient_response hfetched).mp hgoes.1)] at hok
      cases hok
    · have hnone : ∀ value, ¬Answers a value := fun _ hanswers =>
        hok ((answers_response hfetched).mp hanswers).1
      rw [if_neg hok] at h
      split_ifs at h with hretry
      · obtain ⟨hstops, reason, rfl⟩ := pause_done h
        exact ⟨fun _ => hstops, fun _ => error_iff hnone⟩
      · cases h
        refine ⟨fun hlt hgoes => ?_, fun _ => error_iff hnone⟩
        exact hretry ⟨(transient_response hfetched).mp hgoes.1, hlt⟩

end Turn

/-- The last turn of a call. -/
theorem tries_done {maxRetries attempt : ℕ} {told : ℕ → Attempt}
    {result : Except String LayoutParsingResponse}
    (h : turn maxRetries attempt (told attempt) = .done result) :
    Tries maxRetries told attempt ⟨1, [], result⟩ where
  posted := le_rfl
  bounded := Nat.succ_le_succ (le_max_right _ _)
  went_on n hn := absurd hn (by show ¬n + 1 < 1; omega)
  stopped hle := (turn_done h).1 hle
  answered := (turn_done h).2
  waited := rfl
  short ms hms := by cases hms

/-- A turn before the last. -/
theorem Tries.again {maxRetries attempt : ℕ} {told : ℕ → Attempt} {ms : ℚ} {rest : Calls}
    (hrest : Tries maxRetries told (attempt + 1) rest)
    (h : turn maxRetries attempt (told attempt) = .again ms) :
    Tries maxRetries told attempt ⟨rest.posts + 1, ms :: rest.waits, rest.result⟩ := by
  obtain ⟨hgoes, retryAfter, hms⟩ := turn_again h
  have hlt := lt_of_again h
  have hposted := hrest.posted
  have hbounded := hrest.bounded
  have hlast : attempt + (rest.posts + 1 - 1) = attempt + 1 + (rest.posts - 1) := by omega
  refine ⟨by simp, by dsimp only; omega, ?_, ?_, ?_, ?_, ?_⟩
  · intro n hn
    cases n with
    | zero => exact hgoes
    | succ n =>
      have hnext := hrest.went_on n (by dsimp only at hn; omega)
      rwa [Nat.add_assoc, Nat.add_comm 1 n] at hnext
  · intro hle
    dsimp only at hle ⊢
    rw [hlast]
    exact hrest.stopped (by omega)
  · dsimp only
    rw [hlast]
    exact hrest.answered
  · dsimp only
    rw [List.length_cons, hrest.waited]
  · intro wait hwait
    rcases List.mem_cons.mp hwait with rfl | hwait
    · rw [hms]
      exact backoffMs_bounds attempt retryAfter (told attempt).random_nonneg
        (told attempt).random_lt
    · exact hrest.short wait hwait

theorem layoutParsingFrom_tries (maxRetries : ℕ) (told : ℕ → Attempt) (attempt : ℕ) :
    Tries maxRetries told attempt (layoutParsingFrom maxRetries told attempt) := by
  fun_induction layoutParsingFrom maxRetries told attempt with
  | case1 attempt result h => exact tries_done h
  | case2 attempt ms h rest ih => exact Tries.again ih h

/-- A page is posted until its endpoint answers, fails for good or has been tried often enough, and
no wait between two posts is longer than eight seconds. -/
theorem layoutParsing_tries (maxRetries : Option ℕ) (told : ℕ → Attempt) :
    Tries (maxRetries.getD DEFAULT_MAX_RETRIES) told 0 (layoutParsing maxRetries told) :=
  layoutParsingFrom_tries _ told 0

/-- The turns of a page; its number in the document tells which one is meant. -/
def pageTask (maxRetries : ℕ) (told : ℕ → ℕ → Attempt) : Task ℕ LayoutParsingResponse String :=
  fun i attempt =>
    match turn maxRetries attempt (told i attempt) with
    | .done result => .inr result
    | .again _ => .inl (attempt + 1)

/-- The scheduler of a limit, `p-limit`. -/
abbrev PLimit := ℕ → Scheduler ℕ LayoutParsingResponse String

/-- The posts that go on side by side. -/
def mapWithConcurrency (pLimit : PLimit) (limit maxRetries : ℕ) (told : ℕ → ℕ → Attempt) :
    Pool ℕ LayoutParsingResponse String → Action → Option (Pool ℕ LayoutParsingResponse String) :=
  step (pLimit (max 1 limit)) (pageTask maxRetries told)

/-- The pages of a document before the first post. -/
def allPages (files : List String) : Pool ℕ LayoutParsingResponse String :=
  enqueued (files.map fun _ => 0)

/-- What is told to page `i` of a document. -/
def toldTo (upstream : LayoutParsingRequest → ℕ → Attempt) (files : List String)
    (opts : RecognizeOptions) (i : ℕ) : ℕ → Attempt :=
  upstream (buildRequest (files.getD i "") opts)

/-- The document, as soon as all pages are there, or what the first page to fail failed with. -/
def recognized (files : List String) (p : Pool ℕ LayoutParsingResponse String) :
    Option (Except String RecognizedDocument) :=
  (promiseAll files.length p.settled).map fun responses =>
    responses.map fun responses => mapLayoutParsing responses "glm-ocr"

/-- Engines that post one page after another. -/
def posting (engines : Engines) (maxRetries : ℕ) (upstream : LayoutParsingRequest → ℕ → Attempt) :
    Engines :=
  { engines with
    layoutParsing := fun request => (layoutParsing (some maxRetries) (upstream request)).result }

theorem pageTask_ends (maxRetries : ℕ) (told : ℕ → ℕ → Attempt) :
    Ends (pageTask maxRetries told)
      (fun i attempt => (layoutParsingFrom maxRetries (told i) attempt).posts)
      (fun i attempt => (layoutParsingFrom maxRetries (told i) attempt).result) where
  more := by
    intro i attempt attempt' h
    simp only [pageTask] at h
    split at h
    · cases h
    · rename_i ms hturn
      cases h
      rw [layoutParsingFrom]
      split
      · rename_i result hdone
        rw [hturn] at hdone
        cases hdone
      · exact ⟨rfl, rfl⟩
  done := by
    intro i attempt result h
    simp only [pageTask] at h
    split at h
    · rename_i result' hturn
      cases h
      rw [layoutParsingFrom]
      split
      · rename_i result'' hdone
        rw [hturn] at hdone
        cases hdone
        exact ⟨rfl, rfl⟩
      · rename_i ms hagain
        rw [hturn] at hagain
        cases hagain
    · cases h

/-- What the calls of the pages come to, in the order of the pages. -/
theorem results_eq (maxRetries : ℕ) (upstream : LayoutParsingRequest → ℕ → Attempt)
    (files : List String) (opts : RecognizeOptions) :
    ((files.map fun _ => 0).mapIdx fun i attempt =>
      (layoutParsingFrom maxRetries (toldTo upstream files opts i) attempt).result) =
      files.map fun file =>
        (layoutParsing (some maxRetries) (upstream (buildRequest file opts))).result := by
  apply List.ext_getElem?
  intro i
  rw [List.getElem?_mapIdx, List.getElem?_map, List.getElem?_map]
  cases hfile : files[i]? with
  | none => rfl
  | some file =>
    simp only [Option.map_some, toldTo, List.getD_eq_getElem?_getD, hfile, Option.getD_some]
    rfl

theorem work_allPages (maxRetries : ℕ) (told : ℕ → ℕ → Attempt) (files : List String) :
    work (fun i attempt => (layoutParsingFrom maxRetries (told i) attempt).posts)
      (allPages files) ≤ files.length * (maxRetries + 2) := by
  have hle : ∀ n ∈ (((files.map fun _ => 0).zipIdx.map Prod.swap).map fun task : ℕ × ℕ =>
      (layoutParsingFrom maxRetries (told task.1) task.2).posts + 1), n ≤ maxRetries + 2 := by
    intro n hn
    obtain ⟨task, htask, rfl⟩ := List.mem_map.mp hn
    obtain ⟨⟨attempt, i⟩, hmem, rfl⟩ := List.mem_map.mp htask
    have hget := List.mk_mem_zipIdx_iff_getElem?.mp hmem
    rw [List.getElem?_map] at hget
    obtain ⟨_, _, rfl⟩ := Option.map_eq_some_iff.mp hget
    have hbounded := (layoutParsingFrom_tries maxRetries (told i) 0).bounded
    dsimp only [Prod.swap]
    omega
  have hsum := List.sum_le_card_nsmul _ _ hle
  simpa [work, allPages, enqueued] using hsum

/-- However the posts of the pages go on side by side, no more than the limit are out, the run ends
after each page is tried often enough, and the document is the one that posting page after page
recognizes. -/
structure Recognizes (engines : Engines) (pLimit : PLimit) (limit maxRetries : ℕ)
    (upstream : LayoutParsingRequest → ℕ → Attempt) (input : DocumentInput)
    (opts : RecognizeOptions) (files : List String) (as : List Action)
    (p : Pool ℕ LayoutParsingResponse String) : Prop where
  bounded : p.running.length ≤ max 1 limit
  ok : ∀ doc, recognized files p = some (.ok doc) →
    (GlmOcrProvider (posting engines maxRetries upstream)).recognize input opts = .ok doc
  error : ∀ message, recognized files p = some (.error message) → ∃ message',
    (GlmOcrProvider (posting engines maxRetries upstream)).recognize input opts = .error message'
  progress : recognized files p = none →
    ∃ a q, mapWithConcurrency pLimit limit maxRetries (toldTo upstream files opts) p a = some q
  ends : as.length ≤ files.length * (maxRetries + 2)

theorem recognize_posting {engines : Engines} {maxRetries : ℕ}
    {upstream : LayoutParsingRequest → ℕ → Attempt} {input : DocumentInput}
    {opts : RecognizeOptions} {files : List String}
    (hfiles : pageChunks engines input = .ok files) :
    (GlmOcrProvider (posting engines maxRetries upstream)).recognize input opts =
      ((files.map fun file =>
        (layoutParsing (some maxRetries) (upstream (buildRequest file opts))).result).mapM id).map
          fun responses => mapLayoutParsing responses "glm-ocr" := by
  have hsame : pageChunks (posting engines maxRetries upstream) input = .ok files := hfiles
  simp only [GlmOcrProvider, hsame, List.mapM_map]
  rfl

theorem pages_in_any_order {engines : Engines} {pLimit : PLimit}
    (hlimits : ∀ n, 0 < n → Limits n (pLimit n)) {limit maxRetries : ℕ}
    {upstream : LayoutParsingRequest → ℕ → Attempt} {input : DocumentInput}
    {opts : RecognizeOptions} {files : List String} (hfiles : pageChunks engines input = .ok files)
    {as : List Action} {p : Pool ℕ LayoutParsingResponse String}
    (hrun : exec (mapWithConcurrency pLimit limit maxRetries (toldTo upstream files opts))
      (allPages files) as = some p) :
    Recognizes engines pLimit limit maxRetries upstream input opts files as p := by
  have hcollected := collected_of_exec (hlimits (max 1 limit) (by omega))
    (pageTask_ends maxRetries (toldTo upstream files opts)) hrun
  have hlength : ((files.map fun _ => 0).mapIdx fun i attempt =>
      (layoutParsingFrom maxRetries (toldTo upstream files opts i) attempt).result).length =
        files.length := by simp
  have hrecognize := @recognize_posting engines maxRetries upstream input opts files hfiles
  rw [← results_eq] at hrecognize
  refine ⟨hcollected.bounded, ?_, ?_, ?_, hcollected.ends.trans (work_allPages _ _ _)⟩
  · intro doc hdoc
    obtain ⟨collected, hpromise, hcase⟩ := Option.map_eq_some_iff.mp hdoc
    cases collected with
    | error message => cases hcase
    | ok responses =>
      rw [hrecognize, hcollected.ok responses (by rw [hlength]; exact hpromise)]
      exact hcase
  · intro message hmessage
    obtain ⟨collected, hpromise, hcase⟩ := Option.map_eq_some_iff.mp hmessage
    cases collected with
    | ok responses => cases hcase
    | error e =>
      obtain ⟨_, message', hmessage'⟩ := hcollected.error e (by rw [hlength]; exact hpromise)
      exact ⟨message', by rw [hrecognize, hmessage']; rfl⟩
  · intro hpending
    apply hcollected.progress
    rw [hlength]
    exact Option.map_eq_none_iff.mp hpending

/-- A scheduler that starts the next task whenever there is a place. -/
def pLimit (limit : ℕ) : Scheduler ℕ LayoutParsingResponse String := fun p =>
  if p.running.length < limit then some 0 else none

theorem limits_pLimit (n : ℕ) (hn : 0 < n) : Limits n (pLimit n) where
  bound := by
    intro p k h
    by_contra hfull
    rw [pLimit, if_neg hfull] at h
    cases h
  order := by
    intro p k h
    unfold pLimit at h
    split_ifs at h
    exact (Option.some.inj h).symm
  serves := by
    intro p hrunning _
    rw [pLimit, hrunning, if_pos (by simpa using hn)]
    rfl

section Example

/-- The first page is answered at its second post, the others at their first. -/
def upstream (request : LayoutParsingRequest) (attempt : ℕ) : Attempt where
  fetched := .response
    (if attempt = 0 ∧ request.file = "data:image/png;base64,AQ==" then
      ⟨503, "Service Unavailable", none, none, .error "no body"⟩
    else ⟨200, "OK", none, none, .ok ⟨some request.file, none, none, some 12⟩⟩)
  random := 1 / 2
  random_nonneg := by norm_num
  random_lt := by norm_num
  reason := none

/-- A rasterizer that makes three pages of a document. -/
def threePages : Engines where
  utf8 _ := ""
  base64 image := if image = [1] then "AQ==" else if image = [2] then "Ag==" else "Aw=="
  getText _ := .error "no text"
  convertToHtml _ := .error "no document"
  turndown html := html
  rasterizePdf _ := .ok [[1], [2], [3]]
  readPage _ := .error "no page"
  layoutParsing _ := .error "not configured"

def scan : DocumentInput where
  buffer := [0x25, 0x50, 0x44, 0x46]
  mimeGroup := .pdf
  sha256 := "sha"
  originalName := "scan.pdf"
  mime := none

def scanFiles : List String :=
  ["data:image/png;base64,AQ==", "data:image/png;base64,Ag==", "data:image/png;base64,Aw=="]

theorem pageChunks_scan : pageChunks threePages scan = .ok scanFiles := by
  decide +kernel

/-- Two pages are out; the second is answered and the third goes out and is answered before the
first is posted again. -/
def scanRun : List Action :=
  [.start, .start, .resume 0, .resume 1, .start, .resume 1, .resume 0]

/-- The pages after the run. -/
def scanned : Option (Pool ℕ LayoutParsingResponse String) :=
  exec (mapWithConcurrency pLimit 2 DEFAULT_MAX_RETRIES
    (toldTo upstream scanFiles ⟨"req_1", ""⟩)) (allPages scanFiles) scanRun

theorem scanned_settled :
    scanned.map (fun p => p.settled.map Prod.fst) = some [1, 2, 0] := by
  decide +kernel

theorem pages_in_any_order_scan : ∃ p, scanned = some p ∧ p.settled.map Prod.fst = [1, 2, 0] ∧
    Recognizes threePages pLimit 2 DEFAULT_MAX_RETRIES upstream scan ⟨"req_1", ""⟩ scanFiles
      scanRun p := by
  obtain ⟨p, hrun, hsettled⟩ := Option.map_eq_some_iff.mp scanned_settled
  exact ⟨p, hrun, hsettled, pages_in_any_order limits_pLimit pageChunks_scan hrun⟩

end Example

end HeirsOcr.GlmClient

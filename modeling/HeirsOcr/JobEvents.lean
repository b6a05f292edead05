import HeirsOcr.EventStream
import HeirsOcr.JsonMeasure
import HeirsOcr.JsRecord
import HeirsOcr.NumberRoundTrip
import HeirsOcr.RecentJobs
import HeirsOcr.StepMachine
import HeirsOcr.Words

/-!
# The stream of job events

Every transition of a job is announced to the consoles of its tenant that are connected just then.
A process keeps the listeners of each tenant and writes to their connections; the queue tells it
only the id of a job, so the job is read before anyone hears of it, and by the time the answer is
there consoles have come and gone. A step is a connection that opens, closes or is kept alive, a
change of a job, a transition told by the queue, or the answer to a read.
-/
namespace HeirsOcr.JobEvents
open Doubles EventStream Jobs Json JsRecord KeyedTable NumberText StepMachine

variable {J Result : Type}

/-- An open response of `GET /api/jobs/stream`. -/
structure Connection where
  tenantId : String
  received : List Char
  /-- How many events the tenant had when it was opened. -/
  since : ℕ
  /-- No write to it has thrown. -/
  intact : Bool

structure Hub (J Result : Type) where
  jobs : String → Option (ScannedJob J Result)
  /-- tenantId → its connected listeners. -/
  listeners : Record (List ℕ)
  connections : ℕ → Option Connection
  /-- The reads that have no answer yet. -/
  dispatches : ℕ → Option String
  /-- The events that were fanned out, by tenant. -/
  announced : String → List (JobRecord Result)

inductive Action (J Result : Type) where
  | connect (c : ℕ) (tenantId : String)
  | close (c : ℕ)
  | heartbeat (c : ℕ)
  /-- The queue adds, changes or removes a job. -/
  | setJob (jobId : String) (job : Option (ScannedJob J Result))
  /-- One of the five events of the queue. -/
  | transition (d : ℕ) (jobId : Option String)
  /-- `getStatus` answers, or throws; `broken` are the listeners that throw. -/
  | status (d : ℕ) (answered : Bool) (broken : ℕ → Bool)

def subscribers (listeners : Record (List ℕ)) (tenantId : String) : List ℕ :=
  (get listeners tenantId).getD []

/-- `subscribeToJobEvents`; adding to a set changes nothing when it is in it. -/
def subscribe (listeners : Record (List ℕ)) (tenantId : String) (c : ℕ) : Record (List ℕ) :=
  let current := subscribers listeners tenantId
  set listeners tenantId (if c ∈ current then current else current ++ [c])

/-- What `subscribeToJobEvents` returns. -/
def unsubscribe (listeners : Record (List ℕ)) (tenantId : String) (c : ℕ) : Record (List ℕ) :=
  match get listeners tenantId with
  | none => listeners
  | some current =>
    let rest := current.filter (· ≠ c)
    if rest = [] then listeners.delete fun entry => entry.1 = tenantId
    else set listeners tenantId rest

/-- The event of a job: its record without the result. -/
def eventOf (job : ScannedJob J Result) (jobId : String) : JobRecord Result :=
  { toJobRecord job jobId with result := none }

def PING : Frame := .comment " ping".toList

def JOB : List Char := "job".toList

/-- `String(n)` of a number in a JSON text. -/
def numberText (x : Double) : String := String.ofList (Num.finite x).toText

/-- The frame of an event, where `encode` gives its members. -/
def jobFrame (encode : JobRecord Result → Value Double) (event : JobRecord Result) : Frame :=
  .message JOB (stringify numberText (encode event))

def write (conn : Connection) (frame : Frame) : Connection :=
  { conn with received := conn.received ++ frame.render }

/-- The loop over the subscribers: whoever throws misses the event, the others get it. -/
def notify (connections : ℕ → Option Connection) (listeners : List ℕ) (broken : ℕ → Bool)
    (frame : Frame) : ℕ → Option Connection :=
  listeners.foldl (fun connections c =>
    Function.update connections c ((connections c).map fun conn =>
      if broken c then { conn with intact := false } else write conn frame)) connections

def step (encode : JobRecord Result → Value Double) (hub : Hub J Result) :
    Action J Result → Option (Hub J Result)
  | .connect c tenantId =>
    if hub.connections c = none then
      some { hub with
        listeners := subscribe hub.listeners tenantId c
        connections := Function.update hub.connections c
          (some ⟨tenantId, [], (hub.announced tenantId).length, true⟩) }
    else none
  | .close c =>
    (hub.connections c).map fun conn =>
      { hub with
        listeners := unsubscribe hub.listeners conn.tenantId c
        connections := Function.update hub.connections c none }
  | .heartbeat c =>
    (hub.connections c).map fun conn =>
      { hub with connections := Function.update hub.connections c (some (write conn PING)) }
  | .setJob jobId job => some { hub with jobs := Function.update hub.jobs jobId job }
  | .transition d jobId =>
    match jobId with
    | none => some hub
    | some jobId =>
      if hub.dispatches d ≠ none then none
      else if jobId = "" ∨ hub.listeners.rows.length = 0 then some hub
      else some { hub with dispatches := Function.update hub.dispatches d (some jobId) }
  | .status d answered broken =>
    (hub.dispatches d).map fun jobId =>
      let hub := { hub with dispatches := Function.update hub.dispatches d none }
      match if answered then hub.jobs jobId else none with
      | none => hub
      | some job =>
        let event := eventOf job jobId
        let listeners := subscribers hub.listeners event.tenantId
        if event.tenantId = "" ∨ listeners = [] then hub
        else
          { hub with
            connections := notify hub.connections listeners broken (jobFrame encode event)
            announced := Function.update hub.announced event.tenantId
              (hub.announced event.tenantId ++ [event]) }

/-- A process that has just started, over the jobs of a queue. -/
def Hub.start (jobs : String → Option (ScannedJob J Result)) : Hub J Result where
  jobs := jobs
  listeners := ∅
  connections := fun _ => none
  dispatches := fun _ => none
  announced := fun _ => []

theorem oneLine_of_toNat {text : List Char} (h : ∀ c ∈ text, 0x20 ≤ c.toNat) : OneLine text := by
  intro c hc
  have hmin := h c hc
  constructor
  · rintro rfl
    exact absurd hmin (by decide)
  · rintro rfl
    exact absurd hmin (by decide)

theorem le_of_mem_hexDigits {i : ℕ} : 0x20 ≤ (hexDigits.getD i '0').toNat := by
  have htable : ∀ c ∈ hexDigits, 0x20 ≤ c.toNat := List.all_iff_forall_prop.mp (by decide)
  rw [List.getD_eq_getElem?_getD]
  cases hget : hexDigits[i]? with
  | none => decide
  | some c => exact htable c (List.mem_of_getElem? hget)

/-- A control character is never written as itself. -/
theorem le_of_mem_quoteChar {c d : Char} (h : d ∈ quoteChar c) : 0x20 ≤ d.toNat := by
  unfold quoteChar at h
  split at h
  case h_8 =>
    split_ifs at h with hcontrol
    · simp only [List.mem_cons, List.not_mem_nil, or_false] at h
      rcases h with rfl | rfl | rfl | rfl | rfl | rfl
      any_goals decide
      all_goals exact le_of_mem_hexDigits
    · obtain rfl := List.mem_singleton.mp h
      omega
  all_goals
    rcases List.mem_pair.mp h with rfl | rfl
    all_goals decide

theorem le_of_mem_quote {s : String} {c : Char} (h : c ∈ quote s) : 0x20 ≤ c.toNat := by
  unfold quote at h
  rcases List.mem_append.mp h with h | h
  · rcases List.mem_cons.mp h with rfl | h
    · decide
    · obtain ⟨d, -, hd⟩ := List.mem_flatMap.mp h
      exact le_of_mem_quoteChar hd
  · obtain rfl := List.mem_singleton.mp h
    decide

theorem stringifyItems_eq_map (items : List (Value Double)) :
    stringifyItems numberText items = items.map (stringify numberText) := by
  induction items with
  | nil => rfl
  | cons item items ih => rw [stringifyItems, ih, List.map_cons]

theorem stringifyMembers_eq_map (members : List (String × Value Double)) :
    stringifyMembers numberText members =
      members.map fun m => quote m.1 ++ ':' :: stringify numberText m.2 := by
  induction members with
  | nil => rfl
  | cons m members ih => rw [stringifyMembers, ih, List.map_cons]

/-- A JSON text has no control characters. -/
theorem le_of_mem_stringify (v : Value Double) : ∀ c ∈ stringify numberText v, 0x20 ≤ c.toNat := by
  have hjoin : ∀ {parts : List (List Char)}, (∀ part ∈ parts, ∀ c ∈ part, 0x20 ≤ c.toNat) →
      ∀ c ∈ [','].intercalate parts, 0x20 ≤ c.toNat := by
    intro parts hparts
    exact Words.forall_mem_intercalate (by decide) hparts
  have hwrap : ∀ {a b : Char} {inner : List Char}, 0x20 ≤ a.toNat → 0x20 ≤ b.toNat →
      (∀ c ∈ inner, 0x20 ≤ c.toNat) → ∀ c ∈ a :: inner ++ [b], 0x20 ≤ c.toNat := by
    intro a b inner ha hb hinner c hc
    rcases List.mem_append.mp hc with hc | hc
    · rcases List.mem_cons.mp hc with rfl | hc
      · exact ha
      · exact hinner c hc
    · obtain rfl := List.mem_singleton.mp hc
      exact hb
  induction v using Value.induction with
  | null =>
    simp only [stringify]
    exact List.all_iff_forall_prop.mp (by decide)
  | bool b =>
    simp only [stringify]
    cases b
    all_goals exact List.all_iff_forall_prop.mp (by decide)
  | number x =>
    intro c hc
    simp only [stringify, numberText, String.toList_ofList] at hc
    have hspace := isNumberChar_toText x c hc
    simp only [isNumberChar, Bool.or_eq_true, List.contains_iff_mem] at hspace
    rcases hspace with hdigit | hsign
    · simp only [JsText.isDigit, Bool.and_eq_true, decide_eq_true_eq] at hdigit
      omega
    · have htable : ∀ c ∈ ['.', 'e', '+', '-'], 0x20 ≤ c.toNat :=
        List.all_iff_forall_prop.mp (by decide)
      exact htable c hsign
  | string s => exact fun c hc => le_of_mem_quote hc
  | array items ih =>
    simp only [stringify]
    apply hwrap (by decide) (by decide)
    apply hjoin
    intro part hpart
    rw [stringifyItems_eq_map] at hpart
    obtain ⟨item, hitem, rfl⟩ := List.mem_map.mp hpart
    exact ih item hitem
  | object members ih =>
    simp only [stringify]
    apply hwrap (by decide) (by decide)
    apply hjoin
    intro part hpart c hc
    rw [stringifyMembers_eq_map] at hpart
    obtain ⟨m, hm, rfl⟩ := List.mem_map.mp hpart
    rcases List.mem_append.mp hc with hc | hc
    · exact le_of_mem_quote hc
    · rcases List.mem_cons.mp hc with rfl | hc
      · decide
      · exact ih m hm c hc

theorem plain_jobFrame (encode : JobRecord Result → Value Double) (event : JobRecord Result) :
    (jobFrame encode event).Plain :=
  ⟨oneLine_of_toNat (List.all_iff_forall_prop.mp (by decide)), by decide,
    oneLine_of_toNat (le_of_mem_stringify _)⟩

theorem plain_ping : PING.Plain := oneLine_of_toNat (List.all_iff_forall_prop.mp (by decide))

section Listeners

variable {listeners : Record (List ℕ)} {tenantId : String} {c : ℕ}

theorem get_delete (key : String) :
    get (listeners.delete fun entry => entry.1 = tenantId) key =
      if key = tenantId then none else get listeners key := by
  unfold JsRecord.get
  rw [Table.find?_delete]
  cases hfind : listeners.find? key with
  | none => simp
  | some entry =>
    have hkey := Table.key_of_find? hfind
    by_cases he : key = tenantId
    · simp [Option.filter, hkey, he]
    · simp [Option.filter, hkey, he]

theorem get_subscribe (key : String) : get (subscribe listeners tenantId c) key =
    if tenantId = key then
      some (if c ∈ subscribers listeners tenantId then subscribers listeners tenantId
        else subscribers listeners tenantId ++ [c])
    else get listeners key := get_set _ _ _ _

theorem get_unsubscribe {current : List ℕ} (h : get listeners tenantId = some current)
    (key : String) : get (unsubscribe listeners tenantId c) key =
      if tenantId = key then
        if current.filter (· ≠ c) = [] then none else some (current.filter (· ≠ c))
      else get listeners key := by
  unfold unsubscribe
  rw [h]
  dsimp only
  by_cases hnil : current.filter (· ≠ c) = []
  · rw [if_pos hnil, get_delete]
    by_cases he : tenantId = key
    · rw [if_pos he.symm, if_pos he, if_pos hnil]
    · rw [if_neg (Ne.symm he), if_neg he]
  · rw [if_neg hnil, get_set]
    by_cases he : tenantId = key
    · rw [if_pos he, if_pos he, if_neg hnil]
    · rw [if_neg he, if_neg he]

theorem get_of_mem_subscribers (h : c ∈ subscribers listeners tenantId) :
    get listeners tenantId = some (subscribers listeners tenantId) := by
  unfold subscribers at h ⊢
  cases hget : get listeners tenantId with
  | none => simp [hget] at h
  | some current => rfl

end Listeners

/-- Everyone in the loop is written to once, or misses the event; nobody else is touched. -/
theorem notify_apply (connections : ℕ → Option Connection) {listeners : List ℕ}
    (hnodup : listeners.Nodup) (broken : ℕ → Bool) (frame : Frame) (c : ℕ) :
    notify connections listeners broken frame c =
      if c ∈ listeners then
        (connections c).map fun conn =>
          if broken c then { conn with intact := false } else write conn frame
      else connections c := by
  unfold notify
  induction listeners generalizing connections with
  | nil => rfl
  | cons d listeners ih =>
    obtain ⟨hd, hnodup⟩ := List.nodup_cons.mp hnodup
    rw [List.foldl_cons, ih _ hnodup]
    by_cases hc : c = d
    · subst hc
      rw [if_neg hd, if_pos List.mem_cons_self, Function.update_self]
    · simp [hc]

/-- The messages of a tenant's events from some point on. -/
def heard (encode : JobRecord Result → Value Double) (events : List (JobRecord Result)) :
    List Message :=
  events.map fun event => ⟨JOB, stringify numberText (encode event)⟩

/-- A connection has got the events of its tenant since it was opened, and comments. -/
structure Streamed (encode : JobRecord Result → Value Double)
    (announced : String → List (JobRecord Result)) (conn : Connection) : Prop where
  since : conn.since ≤ (announced conn.tenantId).length
  frames : conn.intact → ∃ frames : List Frame, (∀ frame ∈ frames, frame.Plain) ∧
    conn.received = frames.flatMap Frame.render ∧
    frames.flatMap Frame.messages = heard encode ((announced conn.tenantId).drop conn.since)

structure Routed (encode : JobRecord Result → Value Double) (hub : Hub J Result) : Prop where
  sets : ∀ t l, get hub.listeners t = some l → l ≠ [] ∧ l.Nodup
  connected : ∀ t c, c ∈ subscribers hub.listeners t ↔
    ∃ conn, hub.connections c = some conn ∧ conn.tenantId = t
  streamed : ∀ c conn, hub.connections c = some conn → Streamed encode hub.announced conn
  own : ∀ t, ∀ event ∈ hub.announced t, event.tenantId = t ∧ event.result = none

variable {encode : JobRecord Result → Value Double} {hub hub' : Hub J Result}

theorem routed_start (jobs : String → Option (ScannedJob J Result)) :
    Routed encode (.start jobs) where
  sets t l h := by cases h
  connected t c := by
    constructor
    · intro h
      cases h
    · rintro ⟨conn, h, -⟩
      cases h
  streamed c conn h := by cases h
  own t event h := by cases h

theorem Streamed.write {announced : String → List (JobRecord Result)} {conn : Connection}
    (h : Streamed encode announced conn) {frame : Frame} (hplain : frame.Plain)
    (hsilent : frame.messages = []) : Streamed encode announced (write conn frame) where
  since := h.since
  frames hintact := by
    obtain ⟨frames, hall, hreceived, hmessages⟩ := h.frames hintact
    refine ⟨frames ++ [frame], ?_, ?_, ?_⟩
    · intro f hf
      rcases List.mem_append.mp hf with hf | hf
      · exact hall f hf
      · obtain rfl := List.mem_singleton.mp hf
        exact hplain
    · simp [JobEvents.write, hreceived]
    · simp [hsilent, hmessages, JobEvents.write]

/-- A connection that is written the next event of its tenant. -/
theorem Streamed.hear {announced announced' : String → List (JobRecord Result)} {conn : Connection}
    (h : Streamed encode announced conn) {event : JobRecord Result}
    (hnext : announced' conn.tenantId = announced conn.tenantId ++ [event]) :
    Streamed encode announced' (JobEvents.write conn (jobFrame encode event)) where
  since := by
    show conn.since ≤ (announced' conn.tenantId).length
    rw [hnext, List.length_append]
    exact h.since.trans (Nat.le_add_right _ _)
  frames hintact := by
    obtain ⟨frames, hall, hreceived, hmessages⟩ := h.frames hintact
    refine ⟨frames ++ [jobFrame encode event], ?_, ?_, ?_⟩
    · intro f hf
      rcases List.mem_append.mp hf with hf | hf
      · exact hall f hf
      · obtain rfl := List.mem_singleton.mp hf
        exact plain_jobFrame encode event
    · simp [JobEvents.write, hreceived]
    · show _ = heard encode ((announced' conn.tenantId).drop conn.since)
      rw [hnext, List.drop_append_of_le_length h.since, List.flatMap_append, hmessages]
      simp [heard, jobFrame, Frame.messages]

/-- The connections of before still have what was theirs when only other tenants got events. -/
theorem Streamed.congr {announced announced' : String → List (JobRecord Result)}
    {conn : Connection} (h : Streamed encode announced conn)
    (hsame : announced' conn.tenantId = announced conn.tenantId) :
    Streamed encode announced' conn := by
  obtain ⟨hsince, hframes⟩ := h
  refine ⟨?_, ?_⟩
  · rwa [hsame]
  · rwa [hsame]

theorem Routed.connect (h : Routed encode hub) {c : ℕ} (hfree : hub.connections c = none)
    (tenantId : String) :
    Routed encode { hub with
      listeners := subscribe hub.listeners tenantId c
      connections := Function.update hub.connections c
        (some ⟨tenantId, [], (hub.announced tenantId).length, true⟩) } := by
  have hout : ∀ t, c ∉ subscribers hub.listeners t := by
    intro t hmem
    obtain ⟨conn, hconn, -⟩ := (h.connected t c).mp hmem
    rw [hfree] at hconn
    cases hconn
  have hget : ∀ t, get (subscribe hub.listeners tenantId c) t =
      if tenantId = t then some (subscribers hub.listeners tenantId ++ [c])
      else get hub.listeners t := by
    intro t
    rw [get_subscribe, if_neg (hout tenantId)]
  refine ⟨?_, ?_, ?_, h.own⟩
  · intro t l hl
    rw [hget] at hl
    split_ifs at hl with he
    · obtain rfl := Option.some.inj hl
      refine ⟨by simp, ?_⟩
      have hnodup : (subscribers hub.listeners tenantId).Nodup := by
        unfold subscribers
        cases hcurrent : get hub.listeners tenantId with
        | none => simp
        | some current => exact (h.sets _ _ hcurrent).2
      rw [← List.concat_eq_append, List.nodup_concat]
      exact ⟨hout tenantId, hnodup⟩
    · exact h.sets t l hl
  · intro t d
    have hmem : d ∈ subscribers (subscribe hub.listeners tenantId c) t ↔
        d ∈ subscribers hub.listeners t ∨ d = c ∧ t = tenantId := by
      rw [subscribers, hget]
      by_cases he : tenantId = t
      · subst he
        simp
      · simp [he, Ne.symm he, subscribers]
    rw [hmem, h.connected t d]
    by_cases hd : d = c
    · subst hd
      simp [hfree, eq_comm]
    · simp [hd]
  · intro d conn hconn
    by_cases hd : d = c
    · subst hd
      obtain rfl : _ = conn := by simpa using hconn
      exact ⟨le_rfl, fun _ => ⟨[], by simp, rfl, by simp [heard]⟩⟩
    · exact h.streamed d conn (by simpa [Function.update_of_ne hd] using hconn)

theorem Routed.close (h : Routed encode hub) {c : ℕ} {conn : Connection}
    (hc : hub.connections c = some conn) :
    Routed encode { hub with
      listeners := unsubscribe hub.listeners conn.tenantId c
      connections := Function.update hub.connections c none } := by
  have hmember : c ∈ subscribers hub.listeners conn.tenantId :=
    (h.connected _ _).mpr ⟨conn, hc, rfl⟩
  have hget := @get_unsubscribe _ _ c _ (get_of_mem_subscribers hmember)
  refine ⟨?_, ?_, ?_, h.own⟩
  · intro t l hl
    rw [hget] at hl
    split_ifs at hl with he hnil
    · obtain rfl := Option.some.inj hl
      exact ⟨hnil, ((h.sets _ _ (get_of_mem_subscribers hmember)).2).filter _⟩
    · exact h.sets t l hl
  · intro t d
    have hmem : d ∈ subscribers (unsubscribe hub.listeners conn.tenantId c) t ↔
        d ∈ subscribers hub.listeners t ∧ ¬(d = c ∧ t = conn.tenantId) := by
      rw [subscribers, hget]
      by_cases he : conn.tenantId = t
      · subst he
        rw [if_pos rfl]
        split_ifs with hnil
        · have hnone := List.filter_eq_nil_iff.mp hnil d
          simp at hnone ⊢
          tauto
        · simp
      · simp [he, Ne.symm he, subscribers]
    rw [hmem, h.connected t d]
    by_cases hd : d = c
    · subst hd
      simp [hc, eq_comm]
    · simp [hd]
  · intro d conn' hconn
    by_cases hd : d = c
    · subst hd
      simp at hconn
    · exact h.streamed d conn' (by simpa [Function.update_of_ne hd] using hconn)

/-- One connection is replaced by another of its tenant. -/
theorem Routed.replace (h : Routed encode hub) {c : ℕ} {conn conn' : Connection}
    (hc : hub.connections c = some conn) (htenant : conn'.tenantId = conn.tenantId)
    (hstreamed : Streamed encode hub.announced conn') :
    Routed encode { hub with connections := Function.update hub.connections c (some conn') } := by
  refine ⟨h.sets, ?_, ?_, h.own⟩
  · intro t d
    rw [h.connected t d]
    by_cases hd : d = c
    · subst hd
      simp [hc, htenant]
    · simp [Function.update_of_ne hd]
  · intro d old hold
    by_cases hd : d = c
    · subst hd
      obtain rfl : conn' = old := by simpa using hold
      exact hstreamed
    · exact h.streamed d old (by simpa [Function.update_of_ne hd] using hold)

theorem Routed.announce (h : Routed encode hub) {event : JobRecord Result}
    (hresult : event.result = none) (broken : ℕ → Bool) :
    Routed encode { hub with
      connections := notify hub.connections (subscribers hub.listeners event.tenantId) broken
        (jobFrame encode event)
      announced := Function.update hub.announced event.tenantId
        (hub.announced event.tenantId ++ [event]) } := by
  have hnodup : (subscribers hub.listeners event.tenantId).Nodup := by
    unfold subscribers
    cases hcurrent : get hub.listeners event.tenantId with
    | none => simp
    | some current => exact (h.sets _ _ hcurrent).2
  have happly := notify_apply hub.connections hnodup broken (jobFrame encode event)
  refine ⟨h.sets, ?_, ?_, ?_⟩
  · intro t d
    dsimp only
    rw [h.connected t d, happly]
    by_cases hmem : d ∈ subscribers hub.listeners event.tenantId
    · rw [if_pos hmem]
      cases hub.connections d with
      | none => simp
      | some conn =>
        simp only [Option.map_some, Option.some.injEq, exists_eq_left']
        split_ifs <;> exact Iff.rfl
    · rw [if_neg hmem]
  · intro d conn hconn
    dsimp only at hconn ⊢
    rw [happly] at hconn
    by_cases hmem : d ∈ subscribers hub.listeners event.tenantId
    · rw [if_pos hmem] at hconn
      obtain ⟨old, hold, rfl⟩ := Option.map_eq_some_iff.mp hconn
      obtain ⟨conn', hconn', htenant⟩ := (h.connected _ _).mp hmem
      obtain rfl : old = conn' := Option.some.inj (hold.symm.trans hconn')
      have hstreamed := h.streamed d old hold
      have hnext : Function.update hub.announced event.tenantId
          (hub.announced event.tenantId ++ [event]) old.tenantId =
            hub.announced old.tenantId ++ [event] := by
        rw [htenant, Function.update_self]
      split_ifs
      · refine ⟨?_, fun hintact => by cases hintact⟩
        show old.since ≤ _
        rw [hnext, List.length_append]
        exact hstreamed.since.trans (Nat.le_add_right _ _)
      · exact hstreamed.hear hnext
    · rw [if_neg hmem] at hconn
      have hother : conn.tenantId ≠ event.tenantId := by
        intro he
        exact hmem ((h.connected _ _).mpr ⟨conn, hconn, he⟩)
      exact (h.streamed d conn hconn).congr (Function.update_of_ne hother _ _)
  · intro t e he
    dsimp only at he
    by_cases ht : t = event.tenantId
    · subst ht
      rw [Function.update_self] at he
      rcases List.mem_append.mp he with he | he
      · exact h.own _ e he
      · obtain rfl := List.mem_singleton.mp he
        exact ⟨rfl, hresult⟩
    · rw [Function.update_of_ne ht] at he
      exact h.own t e he

theorem Routed.step (h : Routed encode hub) {a : Action J Result}
    (hstep : step encode hub a = some hub') : Routed encode hub' := by
  have hother : ∀ (hub' : Hub J Result), hub'.listeners = hub.listeners →
      hub'.connections = hub.connections → hub'.announced = hub.announced →
      Routed encode hub' := by
    intro hub' hlisteners hconnections hannounced
    obtain ⟨hsets, hconnected, hstreamed, hown⟩ := h
    exact ⟨by rwa [hlisteners], by rwa [hlisteners, hconnections],
      by rwa [hconnections, hannounced], by rwa [hannounced]⟩
  cases a with
  | connect c tenantId =>
    simp only [JobEvents.step] at hstep
    split_ifs at hstep with hfree
    obtain rfl := Option.some.inj hstep
    exact h.connect hfree tenantId
  | close c =>
    obtain ⟨conn, hc, rfl⟩ := Option.map_eq_some_iff.mp hstep
    exact h.close hc
  | heartbeat c =>
    obtain ⟨conn, hc, rfl⟩ := Option.map_eq_some_iff.mp hstep
    exact h.replace hc rfl ((h.streamed c conn hc).write plain_ping rfl)
  | setJob jobId job =>
    obtain rfl := Option.some.inj hstep
    exact hother _ rfl rfl rfl
  | transition d jobId =>
    cases jobId with
    | none =>
      obtain rfl := Option.some.inj hstep
      exact h
    | some jobId =>
      simp only [JobEvents.step] at hstep
      split_ifs at hstep
      · obtain rfl := Option.some.inj hstep
        exact h
      · obtain rfl := Option.some.inj hstep
        exact hother _ rfl rfl rfl
  | status d answered broken =>
    obtain ⟨jobId, hd, rfl⟩ := Option.map_eq_some_iff.mp hstep
    have hdone : Routed encode { hub with dispatches := Function.update hub.dispatches d none } :=
      hother _ rfl rfl rfl
    dsimp only
    split
    · exact hdone
    · rename_i job hjob
      split_ifs
      · exact hdone
      · exact hdone.announce rfl broken

end HeirsOcr.JobEvents

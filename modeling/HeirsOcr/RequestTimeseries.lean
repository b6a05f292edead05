import HeirsOcr.Buckets
import HeirsOcr.KeyedTable

/-!
# Requests over time

The series of the admin charts. The query groups the requests by the start of their hour or day
as the session of the database reckons it, and the code looks each bucket up under a start it
reckons itself, from the epoch. Instants are milliseconds; no bucket starts between two.
-/
namespace HeirsOcr.Timeseries
open Buckets KeyedTable

/-- What the series reads of a row of `request_logs`. -/
structure RequestLog where
  tenantId : String
  statusCode : ℤ
  durationMs : Option ℤ
  createdAt : ℤ
  deriving DecidableEq, Repr

/-- The time zone of a session: its offset from UTC at an instant, and the instant of a local
midnight. -/
structure SessionZone where
  offset : ℤ → ℤ
  midnight : ℤ → ℤ

def utc : SessionZone := ⟨fun _ => 0, id⟩

inductive Bucket where
  | hour
  | day
  deriving DecidableEq, Repr

def bucketFor (hours : ℕ) : Bucket := if hours ≤ 48 then .hour else .day

def BUCKET_MS : Bucket → ℤ
  | .hour => 60 * 60 * 1000
  | .day => 24 * 60 * 60 * 1000

theorem BUCKET_MS_pos (bucket : Bucket) : 0 < BUCKET_MS bucket := by
  cases bucket <;> decide

/-- `date_trunc` of an instant: the local clock is set back to the full hour under the same
offset, or to midnight, whose offset is looked up anew. -/
def dateTrunc (zone : SessionZone) (bucket : Bucket) (t : ℤ) : ℤ :=
  let start := (t + zone.offset t) / BUCKET_MS bucket * BUCKET_MS bucket
  match bucket with
  | .hour => start - zone.offset t
  | .day => zone.midnight start

/-- `percentile_cont`: between the two values beside the place, by proportion. -/
def percentileCont (fraction : ℚ) (values : List ℤ) : Option ℚ :=
  let sorted := values.mergeSort (· ≤ ·)
  let place := fraction * (sorted.length - 1)
  match sorted[⌊place⌋.toNat]?, sorted[⌈place⌉.toNat]? with
  | some low, some high => some (low + (place - ⌊place⌋) * (high - low))
  | _, _ => none

/-- A row of the query's answer. -/
structure BucketRow where
  bucket : ℤ
  requests : ℕ
  errors : ℕ
  p50 : Option ℚ
  p95 : Option ℚ
  deriving DecidableEq, Repr

def isError (log : RequestLog) : Bool := 400 ≤ log.statusCode

/-- The aggregates of the requests of one bucket. -/
def bucketRow (trunc : ℤ → ℤ) (logs : List RequestLog) (start : ℤ) : BucketRow :=
  let group := logs.filter fun log => trunc log.createdAt = start
  { bucket := start
    requests := group.length
    errors := group.countP isError
    p50 := percentileCont (1 / 2) (group.filterMap RequestLog.durationMs)
    p95 := percentileCont (19 / 20) (group.filterMap RequestLog.durationMs) }

/-- `GROUP BY 1 ORDER BY 1 ASC`: a row for each bucket that a request is in. -/
def aggregate (trunc : ℤ → ℤ) (logs : List RequestLog) : Table BucketRow.bucket where
  rows := (((logs.map fun log => trunc log.createdAt).dedup).mergeSort (· ≤ ·)).map
    (bucketRow trunc logs)
  nodup := by
    rw [List.map_map]
    have hid : BucketRow.bucket ∘ bucketRow trunc logs = id := rfl
    rw [hid, List.map_id]
    exact (List.mergeSort_perm _ _).nodup_iff.mpr (List.nodup_dedup _)

/-- `WHERE created_at >= $2 AND ($3::text IS NULL OR tenant_id = $3)`. -/
def loggedSince (since : ℤ) (tenantId : Option String) (logs : List RequestLog) :
    List RequestLog :=
  logs.filter fun log =>
    decide (since ≤ log.createdAt) && tenantId.all fun tenantId => log.tenantId = tenantId

/-- A point; `ts` is rendered as an ISO date. -/
structure RequestTimeseriesPoint where
  ts : ℤ
  requests : ℕ
  errors : ℕ
  errorRate : ℚ
  p50Ms : Option ℤ
  p95Ms : Option ℤ
  deriving DecidableEq, Repr

structure RequestTimeseries where
  bucket : Bucket
  since : ℤ
  until' : ℤ
  points : List RequestTimeseriesPoint

/-- `Math.round`. -/
def round (n : ℚ) : ℤ := ⌊n + 1 / 2⌋

/-- The point of a bucket, from the row that was found for it. -/
def pointOf (t : ℤ) (row : Option BucketRow) : RequestTimeseriesPoint :=
  let requests := (row.map BucketRow.requests).getD 0
  let errors := (row.map BucketRow.errors).getD 0
  { ts := t
    requests := requests
    errors := errors
    errorRate := if requests = 0 then 0 else errors / requests
    p50Ms := (row.bind BucketRow.p50).map round
    p95Ms := (row.bind BucketRow.p95).map round }

def sinceOf (hours : ℕ) (now : ℤ) : ℤ := now - hours * 60 * 60 * 1000

/-- `Math.floor(since / step) * step`. -/
def firstBucket (bucket : Bucket) (since : ℤ) : ℤ :=
  since / BUCKET_MS bucket * BUCKET_MS bucket

/-- The query's answer. -/
def bucketRows (zone : SessionZone) (hours : ℕ) (tenantId : Option String) (now : ℤ)
    (logs : List RequestLog) : Table BucketRow.bucket :=
  aggregate (dateTrunc zone (bucketFor hours)) (loggedSince (sinceOf hours now) tenantId logs)

/-- The starts the code fills in. -/
def fillStarts (hours : ℕ) (now : ℤ) : List ℤ :=
  let bucket := bucketFor hours
  startsFrom (BUCKET_MS bucket) (BUCKET_MS_pos bucket)
    (firstBucket bucket (sinceOf hours now)) now

def getRequestTimeseries (zone : SessionZone) (hours : ℕ) (tenantId : Option String) (now : ℤ)
    (logs : List RequestLog) : RequestTimeseries where
  bucket := bucketFor hours
  since := sinceOf hours now
  until' := now
  points := (fillStarts hours now).map fun t =>
    pointOf t ((bucketRows zone hours tenantId now logs).find? t)

/-- The series `out` keeps every row and every request of the window. -/
structure Conserves (zone : SessionZone) (hours : ℕ) (tenantId : Option String) (now : ℤ)
    (logs : List RequestLog) (out : RequestTimeseries) : Prop where
  /-- A row is in exactly one point. -/
  rows : ∀ row ∈ bucketRows zone hours tenantId now logs,
    out.points.countP (fun p => p.ts = row.bucket) = 1 ∧ pointOf row.bucket (some row) ∈ out.points
  /-- One point is a bucket behind the other, and together they cover the window. -/
  consecutive : out.points.IsChain fun p q => q.ts = p.ts + BUCKET_MS (bucketFor hours)
  covers : (∃ p ∈ out.points.head?, p.ts ≤ sinceOf hours now) ∧
    ∃ p ∈ out.points.getLast?, now < p.ts + BUCKET_MS (bucketFor hours)
  /-- A point without a row is zero. -/
  zero : ∀ p ∈ out.points, (bucketRows zone hours tenantId now logs).find? p.ts = none →
    p = pointOf p.ts none
  requests : (out.points.map RequestTimeseriesPoint.requests).sum =
    (loggedSince (sinceOf hours now) tenantId logs).length
  errors : (out.points.map RequestTimeseriesPoint.errors).sum =
    (loggedSince (sinceOf hours now) tenantId logs).countP isError

/-- The session starts the bucket of a request where the code fills one in. -/
def OnGrid (zone : SessionZone) (hours : ℕ) (now : ℤ) (log : RequestLog) : Prop :=
  let start := dateTrunc zone (bucketFor hours) log.createdAt
  BUCKET_MS (bucketFor hours) ∣ start ∧
    firstBucket (bucketFor hours) (sinceOf hours now) ≤ start ∧ start ≤ now

section Aggregation

variable {trunc : ℤ → ℤ} {logs : List RequestLog} {row : BucketRow} {t : ℤ}

theorem mem_aggregate : row ∈ aggregate trunc logs ↔
    ∃ log ∈ logs, bucketRow trunc logs (trunc log.createdAt) = row := by
  rw [Table.mem_def, aggregate, List.mem_map]
  simp only [List.mem_mergeSort, List.mem_dedup, List.mem_map]
  constructor
  · rintro ⟨start, ⟨log, hlog, rfl⟩, hrow⟩
    exact ⟨log, hlog, hrow⟩
  · rintro ⟨log, hlog, hrow⟩
    exact ⟨_, ⟨log, hlog, rfl⟩, hrow⟩

/-- What is found under a start is the row of that bucket, or there is no request in it. -/
theorem find?_aggregate (trunc : ℤ → ℤ) (logs : List RequestLog) (t : ℤ) :
    (aggregate trunc logs).find? t = some (bucketRow trunc logs t) ∨
      ((aggregate trunc logs).find? t = none ∧
        logs.filter (fun log => trunc log.createdAt = t) = []) := by
  cases hfind : (aggregate trunc logs).find? t with
  | some row =>
    left
    obtain ⟨log, -, hrow⟩ := mem_aggregate.mp (Table.mem_of_find? hfind)
    have hkey : trunc log.createdAt = t := by
      have hbucket := Table.key_of_find? hfind
      rw [← hrow] at hbucket
      exact hbucket
    rw [← hrow, hkey]
  | none =>
    right
    refine ⟨rfl, ?_⟩
    rw [List.filter_eq_nil_iff]
    intro log hlog hkey
    exact Table.find?_eq_none.mp hfind _ (mem_aggregate.mpr ⟨log, hlog, rfl⟩)
      (of_decide_eq_true hkey)

/-- A point counts the requests of its bucket. -/
theorem requests_pointOf : (pointOf t ((aggregate trunc logs).find? t)).requests =
    (logs.filter fun log => trunc log.createdAt = t).length := by
  rcases find?_aggregate trunc logs t with hfind | ⟨hfind, hnone⟩
  · rw [hfind]
    rfl
  · rw [hfind, hnone]
    rfl

theorem errors_pointOf : (pointOf t ((aggregate trunc logs).find? t)).errors =
    (logs.filter fun log => trunc log.createdAt = t).countP isError := by
  rcases find?_aggregate trunc logs t with hfind | ⟨hfind, hnone⟩
  · rw [hfind]
    rfl
  · rw [hfind, hnone]
    rfl

end Aggregation

section Series

variable {zone : SessionZone} {hours : ℕ} {tenantId : Option String} {now : ℤ}
  {logs : List RequestLog}

theorem sinceOf_le (hours : ℕ) (now : ℤ) : sinceOf hours now ≤ now := by
  rw [sinceOf]
  omega

theorem firstBucket_le (bucket : Bucket) (since : ℤ) : firstBucket bucket since ≤ since :=
  Int.ediv_mul_le since (BUCKET_MS_pos bucket).ne'

theorem mem_fillStarts {t : ℤ} : t ∈ fillStarts hours now ↔
    BUCKET_MS (bucketFor hours) ∣ t ∧
      firstBucket (bucketFor hours) (sinceOf hours now) ≤ t ∧ t ≤ now := by
  rw [fillStarts, mem_startsFrom]
  have hfirst : BUCKET_MS (bucketFor hours) ∣ firstBucket (bucketFor hours) (sinceOf hours now) :=
    Dvd.intro_left _ rfl
  rw [(dvd_sub_left hfirst)]

/-- A series that keeps its rows has a point for every bucket of a request. -/
theorem onGrid_of_conserves {log : RequestLog}
    (h : Conserves zone hours tenantId now logs
      (getRequestTimeseries zone hours tenantId now logs))
    (hlog : log ∈ loggedSince (sinceOf hours now) tenantId logs) : OnGrid zone hours now log := by
  have hrow := (h.rows _ (mem_aggregate.mpr ⟨log, hlog, rfl⟩)).2
  obtain ⟨t, ht, hpoint⟩ := List.mem_map.mp hrow
  have hts : t = dateTrunc zone (bucketFor hours) log.createdAt :=
    congrArg RequestTimeseriesPoint.ts hpoint
  rw [hts] at ht
  exact mem_fillStarts.mp ht

/-- The starts are consecutive and cover the window, whatever was logged. -/
theorem conserves_of_onGrid
    (h : ∀ log ∈ loggedSince (sinceOf hours now) tenantId logs, OnGrid zone hours now log) :
    Conserves zone hours tenantId now logs
      (getRequestTimeseries zone hours tenantId now logs) := by
  have hfirst : firstBucket (bucketFor hours) (sinceOf hours now) ≤ now :=
    (firstBucket_le _ _).trans (sinceOf_le hours now)
  have hmem : ∀ log ∈ loggedSince (sinceOf hours now) tenantId logs,
      dateTrunc zone (bucketFor hours) log.createdAt ∈ fillStarts hours now :=
    fun log hlog => mem_fillStarts.mpr (h log hlog)
  have hnodup : (fillStarts hours now).Nodup := nodup_startsFrom
  let point := fun t => pointOf t ((bucketRows zone hours tenantId now logs).find? t)
  constructor
  · intro row hrow
    obtain ⟨log, hlog, rfl⟩ := mem_aggregate.mp hrow
    have hstart := hmem log hlog
    constructor
    · rw [getRequestTimeseries, List.countP_map]
      exact List.count_eq_one_of_mem hnodup hstart
    · refine List.mem_map.mpr ⟨_, hstart, ?_⟩
      have hfind := Table.find?_key hrow
      exact congrArg (pointOf _) hfind
  · rw [getRequestTimeseries, List.isChain_map]
    exact isChain_startsFrom
  · constructor
    · refine ⟨point (firstBucket (bucketFor hours) (sinceOf hours now)), ?_, firstBucket_le _ _⟩
      rw [getRequestTimeseries, List.head?_map, fillStarts, startsFrom_of_le hfirst]
      rfl
    · obtain ⟨final, hfinal, hlt⟩ := @getLast_startsFrom _ (BUCKET_MS_pos _) _ _ hfirst
      refine ⟨point final, ?_, hlt⟩
      rw [getRequestTimeseries, List.getLast?_map, fillStarts, Option.mem_def.mp hfinal]
      rfl
  · intro p hp hnone
    obtain ⟨t, -, rfl⟩ := List.mem_map.mp hp
    exact congrArg (pointOf t) hnone
  · have hsum := sum_countP_of_mem
      (fun log : RequestLog => dateTrunc zone (bucketFor hours) log.createdAt) (fun _ => true)
      hnodup hmem
    simp only [List.countP_true] at hsum
    rw [← hsum, getRequestTimeseries, List.map_map]
    simp only [Function.comp_def, bucketRows, requests_pointOf]
  · have hsum := sum_countP_of_mem
      (fun log : RequestLog => dateTrunc zone (bucketFor hours) log.createdAt) isError hnodup hmem
    rw [← hsum, getRequestTimeseries, List.map_map]
    simp only [Function.comp_def, bucketRows, errors_pointOf]

/-- The series keeps every count if and only if the session starts the bucket of every request
where the code fills one in. -/
theorem conserves_iff : Conserves zone hours tenantId now logs
      (getRequestTimeseries zone hours tenantId now logs) ↔
    ∀ log ∈ loggedSince (sinceOf hours now) tenantId logs, OnGrid zone hours now log := by
  constructor
  · intro h log hlog
    exact onGrid_of_conserves h hlog
  · exact conserves_of_onGrid

theorem dateTrunc_utc (bucket : Bucket) (t : ℤ) :
    dateTrunc utc bucket t = firstBucket bucket t := by
  cases bucket <;> simp [dateTrunc, utc, firstBucket]

/-- With a session in UTC every request up to the end of the window is counted. -/
theorem conserves_utc (h : ∀ log ∈ logs, log.createdAt ≤ now) :
    Conserves utc hours tenantId now logs (getRequestTimeseries utc hours tenantId now logs) := by
  apply conserves_of_onGrid
  intro log hlog
  obtain ⟨hmem, hselected⟩ := List.mem_filter.mp hlog
  rw [Bool.and_eq_true, decide_eq_true_eq] at hselected
  rw [OnGrid, dateTrunc_utc]
  refine ⟨Dvd.intro_left _ rfl, ?_, (firstBucket_le _ _).trans (h log hmem)⟩
  have hpos := BUCKET_MS_pos (bucketFor hours)
  exact mul_le_mul_of_nonneg_right (Int.ediv_le_ediv hpos hselected.1) hpos.le

end Series

/-- One hour ahead of UTC, all year. -/
def lagos : SessionZone := ⟨fun _ => 60 * 60 * 1000, fun local' => local' - 60 * 60 * 1000⟩

/-- A request of 10:00 UTC on 5 January 2026, asked for at noon. -/
def morningRequest : RequestLog := ⟨"acme", 200, some 1200, 1767607200000⟩

/-- Its day begins at 23:00 UTC, where the code fills no point in. -/
theorem lagos_day_dropped : morningRequest.createdAt ≤ 1767614400000 ∧
    ¬ Conserves lagos 72 none 1767614400000 [morningRequest]
      (getRequestTimeseries lagos 72 none 1767614400000 [morningRequest]) := by
  refine ⟨by decide, fun h => ?_⟩
  have hlog : morningRequest ∈
      loggedSince (sinceOf 72 1767614400000) none [morningRequest] := by decide
  exact absurd (onGrid_of_conserves h hlog).1 (by decide)

end HeirsOcr.Timeseries

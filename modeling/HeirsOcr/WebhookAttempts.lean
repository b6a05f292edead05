import HeirsOcr.WebhookOutcomes

/-!
# How often a delivery is POSTed

The claim counts an attempt, and the limit is looked at where a failure is written. Every
POST is covered by a claim, so a delivery is POSTed at most as often as it was claimed.
But the claim takes a row whatever its count, so an attempt that never writes its outcome
leaves the row to be claimed and POSTed again, past the limit. Claims that take no row at
the limit are enough for the bound, and runs that lose no attempt have no others.
-/
namespace HeirsOcr.WebhookOutbox
open KeyedTable StepMachine

/-- The delivery is held and its POST is still to come. -/
def waits (id : String) (h : Held) : Bool := h.delivery.id = id && !h.posting

/-- The POSTs of a delivery, those sent and those to come from what is held. -/
def sentOrHeld (s : Outbox) (id : String) : ℕ := s.posts.count id + s.held.countP (waits id)

/-- The attempts the row of a delivery counts. -/
def attemptsOf (s : Outbox) (id : String) : ℕ :=
  (s.deliveries.find? id).elim 0 DeliveryRow.attempts

/-- No delivery was POSTed more often than allowed. -/
def PostsBounded (s : Outbox) : Prop := ∀ id ∈ s.posts, s.posts.count id ≤ MAX_ATTEMPTS

instance : DecidablePred PostsBounded := fun s =>
  inferInstanceAs (Decidable (∀ id ∈ s.posts, s.posts.count id ≤ MAX_ATTEMPTS))

/-- The condition of a claim: no row of its batch has used up its attempts. -/
def ClaimsBelowLimit (_ : Outbox) : Action → Prop
  | .claim _ _ _ picked => ∀ d ∈ picked, d.attempts < MAX_ATTEMPTS
  | _ => True

instance (s : Outbox) (a : Action) : Decidable (ClaimsBelowLimit s a) :=
  match a with
  | .claim _ _ _ picked => inferInstanceAs (Decidable (∀ d ∈ picked, d.attempts < MAX_ATTEMPTS))
  | .refuse .. | .post .. | .answer .. | .fail .. | .lose .. | .crash _ | .reap _ | .enqueue ..
  | .createEndpoint _ | .updateEndpoint .. | .deleteEndpoint .. => inferInstanceAs (Decidable True)

/-- The invariant: what was sent or is held of a delivery was counted, below the limit. -/
structure Counted (s : Outbox) : Prop where
  attempts : ∀ id, sentOrHeld s id ≤ attemptsOf s id
  limit : ∀ id, sentOrHeld s id ≤ MAX_ATTEMPTS

theorem Counted.postsBounded {s : Outbox} (hs : Counted s) : PostsBounded s := by
  intro id _
  have hlimit := hs.limit id
  unfold sentOrHeld at hlimit
  omega

section Steps

variable {s t : Outbox} {a : Action}

theorem attemptsOf_of_mem {d : DeliveryRow} (hd : d ∈ s.deliveries) :
    attemptsOf s d.id = d.attempts := by
  have hfind : s.deliveries.find? d.id = some d := Table.find?_key hd
  rw [attemptsOf, hfind]
  rfl

/-- A step adds one to the count of a row it claims and nothing to any other. -/
theorem attemptsOf_step (h : step s a = some t) {d : DeliveryRow} (hd : d ∈ s.deliveries) :
    attemptsOf t d.id = d.attempts + if claims a d then 1 else 0 := by
  obtain ⟨e, he, hc⟩ := (rows_of_step h).forward d hd
  rw [← hc.id_eq, attemptsOf_of_mem he, hc.attempts_eq]

theorem attemptsOf_mono (h : step s a = some t) (id : String) :
    attemptsOf s id ≤ attemptsOf t id := by
  cases hf : s.deliveries.find? id with
  | none =>
    have hzero : attemptsOf s id = 0 := by rw [attemptsOf, hf]; rfl
    omega
  | some d =>
    obtain ⟨hd, rfl⟩ := Table.find?_eq_some.mp hf
    rw [attemptsOf_of_mem hd, attemptsOf_step h hd]
    omega

theorem countP_map_le {α : Type*} {p : α → Bool} {f : α → α} (l : List α)
    (hf : ∀ x, p (f x) → p x) : (l.map f).countP p ≤ l.countP p := by
  rw [List.countP_map]
  exact List.countP_mono_left fun x _ hx => hf x hx

theorem countP_map_lt {α : Type*} {p : α → Bool} {f : α → α} {l : List α} {x : α}
    (hf : ∀ x, p (f x) → p x) (hx : x ∈ l) (hp : p x) (hn : ¬p (f x)) :
    (l.map f).countP p < l.countP p := by
  induction l with
  | nil => cases hx
  | cons y l ih =>
    rw [List.map_cons, List.countP_cons, List.countP_cons]
    rcases List.mem_cons.mp hx with rfl | hx
    · have hle := countP_map_le l hf
      rw [if_neg hn, if_pos hp]
      omega
    · have hlt := ih hx
      by_cases hy : p (f y)
      · rw [if_pos hy, if_pos (hf y hy)]
        omega
      · rw [if_neg hy]
        omega

/-- What a POST does to what is held. -/
def markPosting (tick : ℕ) (id : String) (h : Held) : Held :=
  if h.tick = tick ∧ h.delivery.id = id then { h with posting := true } else h

theorem waits_of_waits_markPosting {tick : ℕ} {id id' : String} (h : Held)
    (hw : waits id (markPosting tick id' h)) : waits id h := by
  unfold markPosting at hw
  split_ifs at hw
  · simp [waits] at hw
  · exact hw

theorem step_post {tick : ℕ} {id : String} (h : step s (.post tick id) = some t) :
    ∃ x ∈ s.held, x.tick = tick ∧ x.delivery.id = id ∧ x.posting = false ∧
      t.posts = s.posts ++ [id] ∧ t.held = s.held.map (markPosting tick id) := by
  obtain ⟨d, hd, rfl⟩ := Option.map_eq_some_iff.mp h
  obtain ⟨x, hx, htick, rfl, rfl, hwaits⟩ := exists_held_of_holding hd
  exact ⟨x, hx, htick, rfl, hwaits, rfl, rfl⟩

/-- A POST that is sent waited to be sent. -/
theorem sentOrHeld_post {tick : ℕ} {id' : String} (h : step s (.post tick id') = some t)
    (id : String) : sentOrHeld t id ≤ sentOrHeld s id := by
  obtain ⟨x, hx, rfl, rfl, hwaits, hposts, hheld⟩ := step_post h
  have hmark : ∀ h, waits id (markPosting x.tick x.delivery.id h) → waits id h :=
    waits_of_waits_markPosting
  unfold sentOrHeld
  rw [hposts, hheld]
  by_cases hid : x.delivery.id = id
  · have hlt : (s.held.map (markPosting x.tick x.delivery.id)).countP (waits id) <
        s.held.countP (waits id) :=
      countP_map_lt hmark hx (by simp [waits, hid, hwaits]) (by simp [waits, markPosting])
    have hcount : (s.posts ++ [x.delivery.id]).count id = s.posts.count id + 1 := by
      simp [hid]
    omega
  · have hle : (s.held.map (markPosting x.tick x.delivery.id)).countP (waits id) ≤
        s.held.countP (waits id) := countP_map_le s.held hmark
    have hcount : (s.posts ++ [x.delivery.id]).count id = s.posts.count id := by
      simp [hid]
    omega

/-- The batch of a claim holds each of its rows once. -/
theorem countP_batchHeld (id : String) (dbNow : ℤ) (picked : List DeliveryRow) :
    (batchHeld s dbNow picked).countP (waits id) ≤ picked.countP fun d => d.id = id := by
  induction picked with
  | nil => simp [batchHeld]
  | cons d picked ih =>
    rw [List.countP_cons]
    cases hdue : toDue s (claimed dbNow d) with
    | none =>
      have hrest : batchHeld s dbNow (d :: picked) = batchHeld s dbNow picked := by
        simp [batchHeld, hdue]
      rw [hrest]
      omega
    | some due =>
      have hid : due.id = (claimed dbNow d).id := toDue_id hdue
      have hid : due.id = d.id := hid
      have hbatch : batchHeld s dbNow (d :: picked) =
          ⟨s.ticks, due, false⟩ :: batchHeld s dbNow picked := by
        simp [batchHeld, hdue]
      rw [hbatch, List.countP_cons]
      have hsame : waits id ⟨s.ticks, due, false⟩ = decide (d.id = id) := by simp [waits, hid]
      rw [hsame]
      omega

/-- Rows of the table with one key are one row. -/
theorem countP_picked_le_one {picked : List DeliveryRow} (hnodup : picked.Nodup)
    (hsub : ∀ d ∈ picked, d ∈ s.deliveries) (id : String) :
    (picked.countP fun d => d.id = id) ≤ 1 := by
  have hsubperm : picked.Subperm s.deliveries.rows := List.subperm_of_subset hnodup hsub
  have hcount : (s.deliveries.rows.map DeliveryRow.id).count id ≤ 1 :=
    List.nodup_iff_count_le_one.mp s.deliveries.nodup id
  have hkeys : (s.deliveries.rows.countP fun d => d.id = id) =
      (s.deliveries.rows.map DeliveryRow.id).count id := by
    rw [List.count, List.countP_map]
    exact List.countP_congr fun d _ => by simp
  have hle := hsubperm.countP_le fun d => decide (d.id = id)
  omega

/-- Nothing but a claim adds to what was sent or is held. -/
theorem sentOrHeld_step (h : step s a = some t)
    (hc : ∀ limit now dbNow picked, a ≠ .claim limit now dbNow picked) (id : String) :
    sentOrHeld t id ≤ sentOrHeld s id := by
  have hfilter : ∀ (s' : Outbox) (p : Held → Bool), s'.posts = s.posts →
      s'.held = s.held.filter p → sentOrHeld s' id ≤ sentOrHeld s id := by
    intro s' p hposts hheld
    have hle : (s.held.filter p).countP (waits id) ≤ s.held.countP (waits id) :=
      (List.filter_sublist).countP_le
    unfold sentOrHeld
    rw [hposts, hheld]
    omega
  cases a with
  | claim limit now dbNow picked => exact absurd rfl (hc limit now dbNow picked)
  | post tick id' => exact sentOrHeld_post h id
  | refuse tick id' reason dbNow =>
    obtain ⟨d, -, rfl⟩ := Option.map_eq_some_iff.mp h
    exact hfilter _ _ rfl rfl
  | answer tick id' status now dbNow =>
    obtain ⟨d, -, rfl⟩ := Option.map_eq_some_iff.mp h
    split_ifs
    · exact hfilter _ _ rfl rfl
    · exact hfilter _ _ (by unfold failOrRetry markFailed; split_ifs <;> rfl)
        (by rw [release_held, failOrRetry_held])
  | fail tick id' message now dbNow =>
    obtain ⟨d, -, rfl⟩ := Option.map_eq_some_iff.mp h
    exact hfilter _ _ (by unfold failOrRetry markFailed; split_ifs <;> rfl)
      (by rw [release_held, failOrRetry_held])
  | lose tick id' =>
    obtain rfl := Option.some.inj h
    exact hfilter _ _ rfl rfl
  | crash tick =>
    obtain rfl := Option.some.inj h
    exact hfilter _ _ rfl rfl
  | reap dbNow =>
    obtain rfl := Option.some.inj h
    exact le_rfl
  | enqueue id' endpointId tenantId event payload dbNow =>
    obtain ⟨table, -, rfl⟩ := Option.map_eq_some_iff.mp h
    exact le_rfl
  | createEndpoint e =>
    obtain ⟨table, -, rfl⟩ := Option.map_eq_some_iff.mp h
    exact le_rfl
  | updateEndpoint tenantId id' url description events enabled dbNow =>
    obtain rfl := Option.some.inj h
    exact le_rfl
  | deleteEndpoint tenantId id' =>
    obtain rfl := Option.some.inj h
    exact le_rfl

/-- A claim adds one for each row of its batch. -/
theorem sentOrHeld_claim {limit : ℕ} {now dbNow : ℤ} {picked : List DeliveryRow}
    (h : step s (.claim limit now dbNow picked) = some t) (id : String) :
    sentOrHeld t id ≤ sentOrHeld s id + picked.countP fun d => d.id = id := by
  have hposts : t.posts = s.posts := by
    simp only [step, claimDueDeliveries] at h
    split_ifs at h
    · obtain rfl := Option.some.inj h
      rfl
    · cases h
  have hbatch := countP_batchHeld (s := s) id dbNow picked
  unfold sentOrHeld
  rw [hposts, (step_claim h).2.1, List.countP_append]
  omega

/-- The step lemma. -/
theorem counted_step (hs : Counted s) (ha : ClaimsBelowLimit s a) (h : step s a = some t) :
    Counted t := by
  by_cases hc : ∃ limit now dbNow picked, a = .claim limit now dbNow picked
  · obtain ⟨limit, now, dbNow, picked, rfl⟩ := hc
    have hbatch := (step_claim h).1
    have hsub : ∀ d ∈ picked, d ∈ s.deliveries := fun d hd =>
      (List.mem_filter.mp (hbatch.2.1 d hd)).1
    have hbound : ∀ id, sentOrHeld t id ≤ attemptsOf t id ∧ sentOrHeld t id ≤ MAX_ATTEMPTS := by
      intro id
      have hattempts := hs.attempts id
      have hlimit := hs.limit id
      have hclaim := sentOrHeld_claim h id
      by_cases hid : ∃ d ∈ picked, d.id = id
      · obtain ⟨d, hd, rfl⟩ := hid
        have hone := countP_picked_le_one hbatch.1 hsub d.id
        have hbelow := ha d hd
        have hadd := attemptsOf_step h (hsub d hd)
        rw [attemptsOf_of_mem (hsub d hd)] at hattempts
        rw [if_pos (by simpa [claims] using hd)] at hadd
        omega
      · have hzero : (picked.countP fun d => d.id = id) = 0 := by
          rw [List.countP_eq_zero]
          exact fun d hd => by simpa using fun he => hid ⟨d, hd, he⟩
        have hmono := attemptsOf_mono h id
        omega
    exact ⟨fun id => (hbound id).1, fun id => (hbound id).2⟩
  · push Not at hc
    refine ⟨fun id => ?_, fun id => (sentOrHeld_step h hc id).trans (hs.limit id)⟩
    exact (sentOrHeld_step h hc id).trans ((hs.attempts id).trans (attemptsOf_mono h id))

end Steps

/-- The attempt of every claimed delivery writes its outcome, and no claim finds a due
row among the deliveries in flight. -/
def Attends (s : Outbox) (a : Action) : Prop :=
  ClaimsOnlyIdle s a ∧ (∀ tick id, a ≠ .lose tick id) ∧ ∀ tick, a ≠ .crash tick

/-- The invariant of such runs: what is held counts as its row does, and a pending row
that nobody holds may be tried again. -/
structure Attended (s : Outbox) : Prop where
  exclusive : Exclusive s
  numbered : TicksNumbered s
  counted : ∀ h ∈ s.held, ∃ d ∈ s.deliveries, d.id = h.delivery.id ∧
    d.attempts = h.delivery.attempts
  idle : ∀ d ∈ s.deliveries, d.status = .pending → (∀ h ∈ s.held, h.delivery.id ≠ d.id) →
    d.attempts < MAX_ATTEMPTS

section Attended

variable {s t : Outbox} {a : Action}

/-- The condition of `posts_bounded` is met. -/
theorem Attended.claimsBelowLimit (hs : Attended s) (ha : Attends s a) (h : step s a = some t) :
    ClaimsBelowLimit s a := by
  cases a with
  | claim limit now dbNow picked =>
    intro d hd
    have hdue := (step_claim h).1.2.1 d hd
    obtain ⟨hmem, hwhere⟩ := List.mem_filter.mp hdue
    simp only [isDue, Bool.and_eq_true, beq_iff_eq] at hwhere
    exact hs.idle d hmem hwhere.1.1 fun x hx => (ha.1 x hx d hdue).symm
  | _ => trivial

/-- Only the write of its outcome, a loss or a crash ends an attempt. -/
theorem exists_held_of_step (h : step s a = some t) (hlose : ∀ tick id, a ≠ .lose tick id)
    (hcrash : ∀ tick, a ≠ .crash tick) {x : Held} (hx : x ∈ s.held)
    (hout : outcomeOf a ≠ some (x.tick, x.delivery.id)) :
    ∃ y ∈ t.held, y.delivery = x.delivery := by
  have hrelease : ∀ (s' : Outbox) (tick : ℕ) (id : String), s'.held = s.held →
      some (tick, id) ≠ some (x.tick, x.delivery.id) → x ∈ (release s' tick id).held := by
    intro s' tick id hheld hne
    rw [release_held, hheld]
    refine List.mem_filter.mpr ⟨hx, ?_⟩
    simp only [decide_not, Bool.not_eq_true', decide_eq_false_iff_not]
    rintro ⟨rfl, rfl⟩
    exact hne rfl
  cases a with
  | claim limit now dbNow picked =>
    have hheld := (step_claim h).2.1
    exact ⟨x, by rw [hheld]; exact List.mem_append_left _ hx, rfl⟩
  | refuse tick id reason dbNow =>
    obtain ⟨d, -, rfl⟩ := Option.map_eq_some_iff.mp h
    exact ⟨x, hrelease _ tick id (by simp) hout, rfl⟩
  | post tick id =>
    obtain ⟨d, -, rfl⟩ := Option.map_eq_some_iff.mp h
    refine ⟨_, List.mem_map_of_mem hx, ?_⟩
    split_ifs <;> rfl
  | answer tick id status now dbNow =>
    obtain ⟨d, -, rfl⟩ := Option.map_eq_some_iff.mp h
    split_ifs <;> exact ⟨x, hrelease _ tick id (by simp) hout, rfl⟩
  | fail tick id message now dbNow =>
    obtain ⟨d, -, rfl⟩ := Option.map_eq_some_iff.mp h
    exact ⟨x, hrelease _ tick id (by simp) hout, rfl⟩
  | lose tick id => exact absurd rfl (hlose tick id)
  | crash tick => exact absurd rfl (hcrash tick)
  | reap dbNow =>
    obtain rfl := Option.some.inj h
    exact ⟨x, hx, rfl⟩
  | enqueue id endpointId tenantId event payload dbNow =>
    obtain ⟨table, -, rfl⟩ := Option.map_eq_some_iff.mp h
    exact ⟨x, hx, rfl⟩
  | createEndpoint e =>
    obtain ⟨table, -, rfl⟩ := Option.map_eq_some_iff.mp h
    exact ⟨x, hx, rfl⟩
  | updateEndpoint tenantId id url description events enabled dbNow =>
    obtain rfl := Option.some.inj h
    exact ⟨x, hx, rfl⟩
  | deleteEndpoint tenantId id =>
    obtain rfl := Option.some.inj h
    exact ⟨x, hx, rfl⟩

theorem toDue_attempts {d : DeliveryRow} {due : DueDelivery} (h : toDue s d = some due) :
    due.attempts = d.attempts := by
  obtain ⟨e, -, rfl⟩ := Option.map_eq_some_iff.mp h
  rfl

theorem attempts_of_mem_batchHeld {dbNow : ℤ} {picked : List DeliveryRow} {x : Held}
    (hx : x ∈ batchHeld s dbNow picked) :
    ∃ d ∈ picked, x.delivery.id = d.id ∧ x.delivery.attempts = d.attempts + 1 := by
  obtain ⟨due, hdue, rfl⟩ := List.mem_map.mp hx
  obtain ⟨d, hd, htd⟩ := List.mem_filterMap.mp hdue
  have hid : due.id = (claimed dbNow d).id := toDue_id htd
  have hattempts : due.attempts = (claimed dbNow d).attempts := toDue_attempts htd
  exact ⟨d, hd, hid, hattempts⟩

theorem attended_claim {limit : ℕ} {now dbNow : ℤ} {picked : List DeliveryRow}
    (hs : Attended s) (ha : Attends s (.claim limit now dbNow picked))
    (h : step s (.claim limit now dbNow picked) = some t) : Attended t where
  exclusive := exclusive_step hs.exclusive hs.numbered ha.1 h
  numbered := ticksNumbered_step hs.numbered h
  counted := by
    obtain ⟨hbatch, hheld, -⟩ := step_claim h
    intro x hx
    rcases List.mem_append.mp (hheld ▸ hx) with hx | hx
    · obtain ⟨d, hd, hid, hattempts⟩ := hs.counted x hx
      obtain ⟨e, he, hc⟩ := (rows_of_step h).forward d hd
      have hnot : d ∉ picked := fun hp => ha.1 x hx d (hbatch.2.1 d hp) hid
      have hcount := hc.attempts_eq
      rw [if_neg (by simpa [claims] using hnot)] at hcount
      exact ⟨e, he, hc.id_eq.trans hid, hcount.trans hattempts⟩
    · obtain ⟨d, hd, hid, hattempts⟩ := attempts_of_mem_batchHeld hx
      have hmem := (List.mem_filter.mp (hbatch.2.1 d hd)).1
      obtain ⟨e, he, hc⟩ := (rows_of_step h).forward d hmem
      have hcount := hc.attempts_eq
      rw [if_pos (by simpa [claims] using hd)] at hcount
      exact ⟨e, he, hc.id_eq.trans hid.symm, hcount.trans hattempts.symm⟩
  idle := by
    obtain ⟨hbatch, hheld, -⟩ := step_claim h
    intro e he hp hfree
    rcases (rows_of_step h).back e he with ⟨d, hd, hc⟩ | ⟨-, hzero, -⟩
    · have hstatus : d.status = .pending := by
        rcases hc.status_cases with ⟨hsame, -⟩ | ⟨_, _, hout, _⟩ | ⟨⟨_, hreap⟩, _⟩
        · rw [← hsame, hp]
        · cases hout
        · cases hreap
      have hnot : d ∉ picked := by
        intro hd'
        obtain ⟨y, hy, hyd⟩ : ∃ y ∈ batchHeld s dbNow picked, y.delivery.id = d.id :=
          exists_mem_batchHeld hd' (hbatch.2.1 d hd')
        refine hfree y ?_ (by rw [hyd, hc.id_eq])
        rw [hheld]
        exact List.mem_append_right _ hy
      have hcount := hc.attempts_eq
      rw [if_neg (by simpa [claims] using hnot)] at hcount
      rw [hcount]
      refine hs.idle d hd hstatus fun x hx hid => hfree x ?_ (by rw [hid, hc.id_eq])
      rw [hheld]
      exact List.mem_append_left _ hx
    · rw [hzero]
      decide

/-- The step lemma: an outcome that leaves its row pending was written below the limit. -/
theorem attended_step (hs : Attended s) (ha : Attends s a) (h : step s a = some t) :
    Attended t := by
  by_cases hc : ∃ limit now dbNow picked, a = .claim limit now dbNow picked
  · obtain ⟨limit, now, dbNow, picked, rfl⟩ := hc
    exact attended_claim hs ha h
  push Not at hc
  have hclaims : ∀ d, claims a d = false := by
    intro d
    cases a with
    | claim limit now dbNow picked => exact absurd rfl (hc limit now dbNow picked)
    | _ => rfl
  refine ⟨exclusive_step hs.exclusive hs.numbered ha.1 h, ticksNumbered_step hs.numbered h,
    fun x hx => ?_, fun e he hp hfree => ?_⟩
  · obtain ⟨y, hy, -, hdelivery⟩ := (held_of_step h hc).2 x hx
    obtain ⟨d, hd, hid, hattempts⟩ := hs.counted y hy
    obtain ⟨e, he, hch⟩ := (rows_of_step h).forward d hd
    have hcount := hch.attempts_eq
    rw [hclaims, if_neg Bool.false_ne_true] at hcount
    rw [← hdelivery]
    exact ⟨e, he, hch.id_eq.trans hid, hcount.trans hattempts⟩
  · rcases (rows_of_step h).back e he with ⟨d, hd, hch⟩ | ⟨-, hzero, -⟩
    · have hcount := hch.attempts_eq
      rw [hclaims, if_neg Bool.false_ne_true] at hcount
      rw [hcount]
      by_cases hheld : ∃ x ∈ s.held, x.delivery.id = d.id
      · obtain ⟨x, hx, hid⟩ := hheld
        have hout : outcomeOf a = some (x.tick, x.delivery.id) := by
          by_contra hout
          obtain ⟨y, hy, hdelivery⟩ := exists_held_of_step h ha.2.1 ha.2.2 hx hout
          exact hfree y hy (by rw [hdelivery, hid, hch.id_eq])
        rcases hch.status_cases with ⟨-, hnone⟩ | ⟨z, hz, -, hzd, hretry⟩ | ⟨-, -, hdead⟩
        · exact absurd (hid ▸ hout) (hnone x.tick)
        · obtain ⟨d', hd', hid', hattempts⟩ := hs.counted z hz
          have hsame : d' = d := Table.eq_of_key_eq hd' hd (hid'.trans hzd)
          have hbelow := hretry hp
          rw [← hsame]
          omega
        · rw [hdead] at hp
          cases hp
      · push Not at hheld
        rcases hch.status_cases with ⟨hsame, -⟩ | ⟨z, hz, -, hzd, -⟩ | ⟨-, -, hdead⟩
        · exact hs.idle d hd (by rw [← hsame, hp]) hheld
        · exact absurd hzd (hheld z hz)
        · rw [hdead] at hp
          cases hp
    · rw [hzero]
      decide

end Attended

/-- A run that loses no attempt and claims nothing in flight takes no row that has used
up its attempts. -/
theorem claimsBelowLimit_of_attends {s : Outbox} {as : List Action} (hs : Attended s)
    (ha : Guarded step Attends s as) : Guarded step ClaimsBelowLimit s as :=
  along_of_invariant
    (fun _ _ _ hI ha ht => ⟨attended_step hI ha ht, hI.claimsBelowLimit ha ht⟩) hs ha

/-- In every run whose claims take no row that has used up its attempts, whatever crashes
or gets lost, no delivery is POSTed more than `MAX_ATTEMPTS` times. -/
theorem posts_bounded (s : Outbox) (as : List Action) (hs : Counted s)
    (hbelow : Guarded step ClaimsBelowLimit s as) : Throughout step PostsBounded s as :=
  (throughout_of_guarded (fun _ _ _ hI ha ht => counted_step hI ha ht) hs hbelow).mono
    fun _ hI => hI.postsBounded

/-- Nothing was sent of the one delivery and nobody holds it. -/
theorem counted_oneDelivery : Counted oneDelivery :=
  ⟨fun _ => Nat.zero_le _, fun _ => Nat.zero_le _⟩

/-- A worker dies with its POST under way, and the next claim's attempt is answered. -/
theorem posts_bounded_after_crash :
    Guarded step ClaimsBelowLimit oneDelivery
      [.claim 20 0 0 [claimedRow 0 0], .post 0 "d1", .crash 0,
        .claim 20 10000 10000 [claimedRow 1 0], .post 1 "d1",
        .answer 1 "d1" 200 10050 10050] ∧
    Throughout step PostsBounded oneDelivery
      [.claim 20 0 0 [claimedRow 0 0], .post 0 "d1", .crash 0,
        .claim 20 10000 10000 [claimedRow 1 0], .post 1 "d1",
        .answer 1 "d1" 200 10050 10050] :=
  ⟨by decide, posts_bounded oneDelivery _ counted_oneDelivery (by decide)⟩

/-- The `n`th tick claims the delivery, POSTs it and dies before it writes the outcome. -/
def crashedAttempt (n : ℕ) : List Action :=
  [.claim 20 (10000 * n) (10000 * n) [claimedRow n (10000 * (n - 1 : ℕ))], .post n "d1", .crash n]

/-- Seven workers in a row die after their POST, and the delivery is POSTed a seventh time. -/
theorem seventh_post_sent :
    ¬Throughout step PostsBounded oneDelivery ((List.range 7).flatMap crashedAttempt) := by
  decide

end HeirsOcr.WebhookOutbox

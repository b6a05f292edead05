import HeirsOcr.WebhookOutbox

/-!
# When a delivery is in flight once

The claim leaves `status` and `next_attempt_at` as they were, so a claimed row stays
due while its POST runs and the next claim may pick it again. Exclusivity therefore
rests on the schedule: it holds in every run whose claims find no due row among the
deliveries in flight, and a claim that does find one, and is not cut short by its
limit, breaks it.
-/
namespace HeirsOcr.WebhookOutbox
open KeyedTable StepMachine

/-- No delivery is held by two ticks. -/
def Exclusive (s : Outbox) : Prop :=
  ∀ h₁ ∈ s.held, ∀ h₂ ∈ s.held, h₁.delivery.id = h₂.delivery.id → h₁.tick = h₂.tick

instance : DecidablePred Exclusive := fun s => inferInstanceAs <| Decidable <|
  ∀ h₁ ∈ s.held, ∀ h₂ ∈ s.held, h₁.delivery.id = h₂.delivery.id → h₁.tick = h₂.tick

/-- A POST of a delivery starts only while no other tick holds that delivery. -/
def PostsAlone (s : Outbox) : Action → Prop
  | .post tick id => ∀ h ∈ s.held, h.delivery.id = id → h.tick = tick
  | _ => True

/-- The condition of a claim: nothing in flight is due at the claim's time. -/
def ClaimsOnlyIdle (s : Outbox) : Action → Prop
  | .claim _ now _ _ => ∀ h ∈ s.held, ∀ d ∈ dueRows s now, d.id ≠ h.delivery.id
  | _ => True

instance (s : Outbox) (a : Action) : Decidable (ClaimsOnlyIdle s a) := by
  cases a <;> unfold ClaimsOnlyIdle <;> infer_instance

/-- Ticks are numbered in order, so the next one holds nothing yet. -/
def TicksNumbered (s : Outbox) : Prop := ∀ h ∈ s.held, h.tick < s.ticks

@[simp] theorem release_held (s : Outbox) (tick : ℕ) (id : String) :
    (release s tick id).held =
      s.held.filter fun h => ¬(h.tick = tick ∧ h.delivery.id = id) := rfl

theorem toDue_id {s : Outbox} {d : DeliveryRow} {due : DueDelivery} (h : toDue s d = some due) :
    due.id = d.id := by
  obtain ⟨e, _, rfl⟩ := Option.map_eq_some_iff.mp h
  rfl

/-- The deliveries the claim's batch puts into the hands of its tick. -/
def batchHeld (s : Outbox) (dbNow : ℤ) (picked : List DeliveryRow) : List Held :=
  (picked.filterMap fun d => toDue s (claimed dbNow d)).map fun d => ⟨s.ticks, d, false⟩

theorem step_claim {s t : Outbox} {limit : ℕ} {now dbNow : ℤ} {picked : List DeliveryRow}
    (h : step s (.claim limit now dbNow picked) = some t) :
    IsBatch s limit now picked ∧ t.held = s.held ++ batchHeld s dbNow picked ∧
      t.ticks = s.ticks + 1 := by
  simp only [step, claimDueDeliveries] at h
  split_ifs at h with hb
  · obtain rfl := Option.some.inj h
    exact ⟨hb, rfl, rfl⟩
  · cases h

theorem mem_batchHeld {s : Outbox} {dbNow : ℤ} {picked : List DeliveryRow} {h : Held}
    (hh : h ∈ batchHeld s dbNow picked) :
    h.tick = s.ticks ∧ ∃ d ∈ picked, h.delivery.id = d.id := by
  obtain ⟨due, hdue, rfl⟩ := List.mem_map.mp hh
  obtain ⟨d, hd, htd⟩ := List.mem_filterMap.mp hdue
  have hid : due.id = (claimed dbNow d).id := toDue_id htd
  exact ⟨rfl, d, hd, hid⟩

/-- A picked row has its endpoint, so the statement returns it. -/
theorem exists_mem_batchHeld {s : Outbox} {now dbNow : ℤ} {picked : List DeliveryRow}
    {d : DeliveryRow} (hd : d ∈ picked) (hdue : d ∈ dueRows s now) :
    ∃ h ∈ batchHeld s dbNow picked, h.delivery.id = d.id := by
  obtain ⟨e, he⟩ : ∃ e, s.endpoints.find? d.endpointId = some e := by
    have hjoin := (List.mem_filter.mp hdue).2
    simp only [isDue, Bool.and_eq_true] at hjoin
    cases he : s.endpoints.find? d.endpointId with
    | none => simp [he] at hjoin
    | some e => exact ⟨e, rfl⟩
  have htd : toDue s (claimed dbNow d) = some
      { id := d.id, endpointId := d.endpointId, tenantId := d.tenantId, event := d.event,
        payload := d.payload, attempts := d.attempts + 1, url := e.url, secret := e.secret } := by
    simp only [toDue, claimed]
    rw [show s.endpoints.find? d.endpointId = some e from he]
    rfl
  exact ⟨_, List.mem_map_of_mem (List.mem_filterMap.mpr ⟨d, hd, htd⟩), rfl⟩

theorem mem_of_mem_release {s s' : Outbox} {tick : ℕ} {id : String} (hs : s'.held = s.held) :
    ∀ x ∈ (release s' tick id).held, x ∈ s.held := by
  intro x hx
  rw [release_held, hs] at hx
  exact (List.mem_filter.mp hx).1

/-- Every step but a claim only drops or relabels what is held. -/
theorem held_of_step {s t : Outbox} {a : Action} (h : step s a = some t)
    (hc : ∀ limit now dbNow picked, a ≠ .claim limit now dbNow picked) :
    t.ticks = s.ticks ∧
      ∀ x ∈ t.held, ∃ y ∈ s.held, y.tick = x.tick ∧ y.delivery = x.delivery := by
  have keep : ∀ t' : Outbox, (∀ x ∈ t'.held, x ∈ s.held) →
      ∀ x ∈ t'.held, ∃ y ∈ s.held, y.tick = x.tick ∧ y.delivery = x.delivery :=
    fun t' hsub x hx => ⟨x, hsub x hx, rfl, rfl⟩
  cases a with
  | claim limit now dbNow picked => exact absurd rfl (hc limit now dbNow picked)
  | refuse tick id reason dbNow =>
    obtain ⟨d, -, rfl⟩ := Option.map_eq_some_iff.mp h
    exact ⟨rfl, keep _ (mem_of_mem_release (by simp))⟩
  | post tick id =>
    obtain ⟨d, -, rfl⟩ := Option.map_eq_some_iff.mp h
    refine ⟨rfl, fun x hx => ?_⟩
    obtain ⟨y, hy, rfl⟩ := List.mem_map.mp hx
    refine ⟨y, hy, ?_⟩
    split_ifs <;> exact ⟨rfl, rfl⟩
  | answer tick id status now dbNow =>
    obtain ⟨d, -, rfl⟩ := Option.map_eq_some_iff.mp h
    refine ⟨?_, ?_⟩
    · unfold failOrRetry markFailed
      split_ifs <;> rfl
    · split_ifs <;> exact keep _ (mem_of_mem_release (by simp))
  | fail tick id message now dbNow =>
    obtain ⟨d, -, rfl⟩ := Option.map_eq_some_iff.mp h
    refine ⟨?_, keep _ (mem_of_mem_release (by simp))⟩
    unfold failOrRetry markFailed
    split_ifs <;> rfl
  | lose tick id =>
    obtain rfl := Option.some.inj h
    exact ⟨rfl, keep _ (mem_of_mem_release rfl)⟩
  | crash tick =>
    obtain rfl := Option.some.inj h
    exact ⟨rfl, keep _ fun x hx => (List.mem_filter.mp hx).1⟩
  | reap dbNow =>
    obtain rfl := Option.some.inj h
    exact ⟨rfl, fun x hx => ⟨x, hx, rfl, rfl⟩⟩
  | enqueue id endpointId tenantId event payload dbNow =>
    obtain ⟨table, -, rfl⟩ := Option.map_eq_some_iff.mp h
    exact ⟨rfl, fun x hx => ⟨x, hx, rfl, rfl⟩⟩
  | createEndpoint e =>
    obtain ⟨table, -, rfl⟩ := Option.map_eq_some_iff.mp h
    exact ⟨rfl, fun x hx => ⟨x, hx, rfl, rfl⟩⟩
  | updateEndpoint tenantId id url description events enabled dbNow =>
    obtain rfl := Option.some.inj h
    exact ⟨rfl, fun x hx => ⟨x, hx, rfl, rfl⟩⟩
  | deleteEndpoint tenantId id =>
    obtain rfl := Option.some.inj h
    exact ⟨rfl, fun x hx => ⟨x, hx, rfl, rfl⟩⟩

theorem ticksNumbered_step {s t : Outbox} {a : Action} (hs : TicksNumbered s)
    (h : step s a = some t) : TicksNumbered t := by
  by_cases hc : ∃ limit now dbNow picked, a = .claim limit now dbNow picked
  · obtain ⟨limit, now, dbNow, picked, rfl⟩ := hc
    obtain ⟨-, hheld, hticks⟩ := step_claim h
    intro x hx
    rw [hticks]
    rcases List.mem_append.mp (hheld ▸ hx) with hx | hx
    · have := hs x hx
      omega
    · have := (mem_batchHeld hx).1
      omega
  · push Not at hc
    obtain ⟨hticks, hheld⟩ := held_of_step h hc
    intro x hx
    obtain ⟨y, hy, ht, -⟩ := hheld x hx
    rw [hticks, ← ht]
    exact hs y hy

/-- A claim keeps exclusivity exactly when its batch holds nothing in flight. -/
theorem exclusive_claim_iff {s t : Outbox} {limit : ℕ} {now dbNow : ℤ}
    {picked : List DeliveryRow} (hs : Exclusive s) (hn : TicksNumbered s)
    (h : step s (.claim limit now dbNow picked) = some t) :
    Exclusive t ↔ ∀ x ∈ s.held, ∀ d ∈ picked, d.id ≠ x.delivery.id := by
  obtain ⟨hb, hheld, -⟩ := step_claim h
  constructor
  · intro ht x hx d hd hid
    obtain ⟨y, hy, hyd⟩ : ∃ y ∈ batchHeld s dbNow picked, y.delivery.id = d.id :=
      exists_mem_batchHeld hd (hb.2.1 d hd)
    have htick := ht x (by rw [hheld]; exact List.mem_append_left _ hx) y
      (by rw [hheld]; exact List.mem_append_right _ hy) (by rw [hyd, hid])
    have := hn x hx
    have := (mem_batchHeld hy).1
    omega
  · intro hidle x hx y hy hxy
    rw [hheld] at hx hy
    rcases List.mem_append.mp hx with hx | hx <;> rcases List.mem_append.mp hy with hy | hy
    · exact hs x hx y hy hxy
    · obtain ⟨-, d, hd, hid⟩ := mem_batchHeld hy
      exact absurd (hid.symm.trans hxy.symm) (hidle x hx d hd)
    · obtain ⟨-, d, hd, hid⟩ := mem_batchHeld hx
      exact absurd (hid.symm.trans hxy) (hidle y hy d hd)
    · rw [(mem_batchHeld hx).1, (mem_batchHeld hy).1]

/-- The step lemma: with nothing in flight due, no step breaks exclusivity. -/
theorem exclusive_step {s t : Outbox} {a : Action} (hs : Exclusive s) (hn : TicksNumbered s)
    (hidle : ClaimsOnlyIdle s a) (h : step s a = some t) : Exclusive t := by
  by_cases hc : ∃ limit now dbNow picked, a = .claim limit now dbNow picked
  · obtain ⟨limit, now, dbNow, picked, rfl⟩ := hc
    have hb := (step_claim h).1
    exact (exclusive_claim_iff hs hn h).mpr fun x hx d hd => hidle x hx d (hb.2.1 d hd)
  · push Not at hc
    obtain ⟨-, hheld⟩ := held_of_step h hc
    intro x hx y hy hxy
    obtain ⟨x₀, hx₀, htx, hdx⟩ := hheld x hx
    obtain ⟨y₀, hy₀, hty, hdy⟩ := hheld y hy
    rw [← htx, ← hty]
    exact hs x₀ hx₀ y₀ hy₀ (by rw [hdx, hdy, hxy])

/-- A claim that its limit does not cut short takes every due row, so one due row in
flight is enough for it to break exclusivity. -/
theorem not_exclusive_of_busy_claim {s t : Outbox} {limit : ℕ} {now dbNow : ℤ}
    {picked : List DeliveryRow} (hs : Exclusive s) (hn : TicksNumbered s)
    (h : step s (.claim limit now dbNow picked) = some t)
    (hlimit : (dueRows s now).length ≤ limit)
    (hbusy : ¬ClaimsOnlyIdle s (.claim limit now dbNow picked)) : ¬Exclusive t := by
  intro ht
  obtain ⟨hnodup, hsub, hlen, -⟩ := (step_claim h).1
  apply hbusy
  intro x hx d hd
  have hperm : picked.Perm (dueRows s now) :=
    (List.subperm_of_subset hnodup hsub).perm_of_length_le (by omega)
  exact (exclusive_claim_iff hs hn h).mp ht x hx d (hperm.mem_iff.mpr hd)

theorem postsAlone_of_exclusive {s t : Outbox} {a : Action} (hs : Exclusive s)
    (h : step s a = some t) : PostsAlone s a := by
  cases a with
  | post tick id =>
    obtain ⟨d, hd, -⟩ := Option.map_eq_some_iff.mp h
    obtain ⟨x, hx, -⟩ := Option.map_eq_some_iff.mp hd
    have hmem := List.mem_of_find?_eq_some hx
    have hsel := List.find?_some hx
    simp only [decide_eq_true_eq] at hsel
    intro y hy hid
    rw [← hsel.1]
    exact hs y hy x hmem (hid.trans hsel.2.1.symm)
  | _ => trivial

/-- In every run whose claims find nothing in flight due, no state has a delivery held
by two ticks, and no POST starts beside an earlier attempt of its delivery. -/
theorem exclusive_of_idle_claims (s : Outbox) (as : List Action) (hs : Exclusive s)
    (hn : TicksNumbered s) (hidle : Guarded step ClaimsOnlyIdle s as) :
    Throughout step Exclusive s as ∧ Along step (fun s a _ => PostsAlone s a) s as := by
  have hstep : ∀ s a t, Exclusive s ∧ TicksNumbered s → ClaimsOnlyIdle s a →
      step s a = some t →
        (Exclusive t ∧ TicksNumbered t) ∧ Exclusive t ∧ PostsAlone s a := by
    intro s a t hI ha ht
    have he := exclusive_step hI.1 hI.2 ha ht
    exact ⟨⟨he, ticksNumbered_step hI.2 ht⟩, he, postsAlone_of_exclusive hI.1 ht⟩
  have hrun : Along step (fun s a t => Exclusive t ∧ PostsAlone s a) s as :=
    along_of_invariant hstep ⟨hs, hn⟩ hidle
  exact ⟨⟨hs, hrun.mono fun _ _ _ h => h.1⟩, hrun.mono fun _ _ _ h => h.2⟩

/-- One enabled endpoint and one pending delivery. -/
def oneDelivery : Outbox where
  deliveries := ⟨[⟨"d1", "e1", "acme", "document.processed", "{}", .pending, 0, none, none,
    0, 0, 0⟩], by decide⟩
  endpoints := ⟨[⟨"e1", "acme", "https://receiver.test/hook", "whsec_test", none,
    ["document.processed"], true, 0, 0⟩], by decide⟩
  held := []
  ticks := 0
  posts := []

/-- The only row of `oneDelivery` after `n` claims at time `at'`. -/
def claimedRow (n : ℕ) (at' : ℤ) : DeliveryRow :=
  ⟨"d1", "e1", "acme", "document.processed", "{}", .pending, n, none, none, 0, 0, at'⟩

/-- A claim, a POST with its answer, then a claim that finds nothing due. -/
theorem exclusive_of_idle_claims_answered :
    Guarded step ClaimsOnlyIdle oneDelivery
      [.claim 20 0 0 [claimedRow 0 0], .post 0 "d1", .answer 0 "d1" 200 50 50,
        .claim 20 10000 10000 []] ∧
    Throughout step Exclusive oneDelivery
      [.claim 20 0 0 [claimedRow 0 0], .post 0 "d1", .answer 0 "d1" 200 50 50,
        .claim 20 10000 10000 []] :=
  ⟨by decide, (exclusive_of_idle_claims oneDelivery _ (by decide) (by unfold TicksNumbered; decide)
    (by decide)).1⟩

/-- The receiver is slow, the next tick ten seconds later claims the same row, and the
same delivery is POSTed by two ticks at once. -/
theorem slow_post_claimed_twice :
    ¬Throughout step Exclusive oneDelivery
      [.claim 20 0 0 [claimedRow 0 0], .post 0 "d1",
        .claim 20 10000 10000 [claimedRow 1 0], .post 1 "d1"] := by
  decide

end HeirsOcr.WebhookOutbox

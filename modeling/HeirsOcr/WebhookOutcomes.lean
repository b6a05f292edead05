import HeirsOcr.WebhookExclusion

/-!
# When a settled delivery stays settled

`markDelivered` and `markFailed` find their row by id alone, whatever its status is by
then. A late outcome can therefore reopen a delivery or turn one end into the other, and
a tick POSTs what it holds without a look at the row. Both need a second hand on the row
of a delivery in flight: another tick that claimed it again, or the reaper. In runs where
neither touches a delivery in flight, what is settled stays so.
-/
namespace HeirsOcr.WebhookOutbox
open KeyedTable StepMachine

/-- The attempt, tick and delivery, whose outcome a step writes. -/
def outcomeOf : Action → Option (ℕ × String)
  | .refuse tick id .. | .answer tick id .. | .fail tick id .. => some (tick, id)
  | _ => none

/-- The step is a claim that takes the row. -/
def claims : Action → DeliveryRow → Bool
  | .claim _ _ _ picked, d => picked.contains d
  | _, _ => false

/-- The row is pending and its endpoint is gone. -/
def Orphan (s : Outbox) (d : DeliveryRow) : Prop :=
  d.status = .pending ∧ s.endpoints.find? d.endpointId = none

instance (s : Outbox) : DecidablePred (Orphan s) := fun d =>
  inferInstanceAs (Decidable (d.status = .pending ∧ s.endpoints.find? d.endpointId = none))

/-- A step writes the outcome of an attempt, and a retry only below the limit. -/
def Settles (s : Outbox) (a : Action) (d e : DeliveryRow) : Prop :=
  ∃ h ∈ s.held, outcomeOf a = some (h.tick, h.delivery.id) ∧ h.delivery.id = d.id ∧
    (e.status = .pending → h.delivery.attempts < MAX_ATTEMPTS)

/-- Everything a step can do to a row `d`, which becomes `e`. -/
structure Changed (s : Outbox) (a : Action) (d e : DeliveryRow) : Prop where
  id_eq : e.id = d.id
  attempts_eq : e.attempts = d.attempts + if claims a d then 1 else 0
  status_cases : (e.status = d.status ∧ ∀ tick, outcomeOf a ≠ some (tick, d.id)) ∨
    Settles s a d e ∨ (∃ dbNow, a = .reap dbNow) ∧ Orphan s d ∧ e.status = .dead

/-- The table after a step: the rows of before, each perhaps changed, and new ones. -/
structure Rows (s : Outbox) (a : Action) (t : Outbox) : Prop where
  forward : ∀ d ∈ s.deliveries, ∃ e ∈ t.deliveries, Changed s a d e
  back : ∀ e ∈ t.deliveries, (∃ d ∈ s.deliveries, Changed s a d e) ∨
    e.status = .pending ∧ e.attempts = 0 ∧ ∀ d ∈ s.deliveries, d.id ≠ e.id

section Rows

variable {s t : Outbox} {a : Action}

theorem changed_refl {d : DeliveryRow} (hclaims : claims a d = false)
    (hout : ∀ tick, outcomeOf a ≠ some (tick, d.id)) : Changed s a d d :=
  ⟨rfl, by simp [hclaims], Or.inl ⟨rfl, hout⟩⟩

theorem changed_same {d : DeliveryRow} (hclaims : claims a d = false)
    (hout : outcomeOf a = none) : Changed s a d d :=
  changed_refl hclaims (by simp [hout])

theorem rows_of_update {p : DeliveryRow → Bool} {f : DeliveryRow → DeliveryRow}
    (ht : t.deliveries.rows = s.deliveries.rows.map fun d => if p d then f d else d)
    (hc : ∀ d ∈ s.deliveries, Changed s a d (if p d then f d else d)) : Rows s a t where
  forward := by
    intro d hd
    refine ⟨_, ?_, hc d hd⟩
    rw [Table.mem_def, ht]
    exact List.mem_map_of_mem hd
  back := by
    intro e he
    rw [Table.mem_def, ht] at he
    obtain ⟨d, hd, rfl⟩ := List.mem_map.mp he
    exact Or.inl ⟨d, hd, hc d hd⟩

theorem rows_of_same (ht : t.deliveries = s.deliveries) (hclaims : ∀ d, claims a d = false)
    (hout : outcomeOf a = none) : Rows s a t where
  forward := fun d hd => ⟨d, ht ▸ hd, changed_same (hclaims d) hout⟩
  back := fun e he => Or.inl ⟨e, ht ▸ he, changed_same (hclaims e) hout⟩

/-- The write of an outcome. -/
theorem rows_of_settle {h : Held} {f : DeliveryRow → DeliveryRow}
    (ht : t.deliveries.rows =
      s.deliveries.rows.map fun d => if decide (d.id = h.delivery.id) then f d else d)
    (hh : h ∈ s.held) (hout : outcomeOf a = some (h.tick, h.delivery.id))
    (hclaims : ∀ d, claims a d = false)
    (hsame : ∀ d, (f d).id = d.id ∧ (f d).attempts = d.attempts)
    (hretry : ∀ d, (f d).status = .pending → h.delivery.attempts < MAX_ATTEMPTS) :
    Rows s a t := by
  refine rows_of_update ht fun d _ => ?_
  by_cases hid : d.id = h.delivery.id
  · rw [if_pos (by simpa using hid)]
    have hwritten : Settles s a d (f d) := ⟨h, hh, hout, hid.symm, hretry d⟩
    exact ⟨(hsame d).1, by simp [(hsame d).2, hclaims], Or.inr (Or.inl hwritten)⟩
  · rw [if_neg (by simpa using hid)]
    refine changed_refl (hclaims d) fun tick hsome => hid ?_
    rw [hout, Option.some.injEq, Prod.mk.injEq] at hsome
    exact hsome.2.symm

/-- Both ways a failed attempt ends. -/
theorem rows_failOrRetry {h : Held} {error : String} {status : Option ℕ} {now dbNow : ℤ}
    (ht : t.deliveries.rows = (failOrRetry s h.delivery error status now dbNow).deliveries.rows)
    (hh : h ∈ s.held) (hout : outcomeOf a = some (h.tick, h.delivery.id))
    (hclaims : ∀ d, claims a d = false) : Rows s a t := by
  unfold failOrRetry at ht
  split_ifs at ht with hmax
  · exact rows_of_settle ht hh hout hclaims (fun _ => ⟨rfl, rfl⟩) fun _ hp => by cases hp
  · exact rows_of_settle ht hh hout hclaims (fun _ => ⟨rfl, rfl⟩) fun _ _ => by omega

theorem exists_held_of_holding {tick : ℕ} {id : String} {posting : Bool} {d : DueDelivery}
    (h : holding s tick id posting = some d) :
    ∃ x ∈ s.held, x.tick = tick ∧ x.delivery = d ∧ d.id = id ∧ x.posting = posting := by
  obtain ⟨x, hx, rfl⟩ := Option.map_eq_some_iff.mp h
  have hsel := List.find?_some hx
  simp only [decide_eq_true_eq] at hsel
  exact ⟨x, List.mem_of_find?_eq_some hx, hsel.1, rfl, hsel.2.1, hsel.2.2⟩

/-- The row inversion lemma: what any step does to the table. -/
theorem rows_of_step (h : step s a = some t) : Rows s a t := by
  cases a with
  | claim limit now dbNow picked =>
    simp only [step, claimDueDeliveries] at h
    split_ifs at h with hb
    · obtain rfl := Option.some.inj h
      refine rows_of_update rfl fun d _ => ?_
      by_cases hd : d ∈ picked
      · rw [if_pos (by simpa using hd)]
        exact ⟨rfl, by simp [claimed, claims, hd], Or.inl ⟨rfl, by simp [outcomeOf]⟩⟩
      · rw [if_neg (by simpa using hd)]
        exact changed_same (by simpa [claims] using hd) rfl
    · cases h
  | refuse tick id reason dbNow =>
    obtain ⟨d, hd, rfl⟩ := Option.map_eq_some_iff.mp h
    obtain ⟨x, hx, rfl, rfl, rfl, -⟩ := exists_held_of_holding hd
    exact rows_of_settle rfl hx rfl (fun _ => rfl) (fun _ => ⟨rfl, rfl⟩) fun _ hp => by cases hp
  | post tick id =>
    obtain ⟨d, -, rfl⟩ := Option.map_eq_some_iff.mp h
    exact rows_of_same rfl (fun _ => rfl) rfl
  | answer tick id status now dbNow =>
    obtain ⟨d, hd, rfl⟩ := Option.map_eq_some_iff.mp h
    obtain ⟨x, hx, rfl, rfl, rfl, -⟩ := exists_held_of_holding hd
    split_ifs
    · exact rows_of_settle rfl hx rfl (fun _ => rfl) (fun _ => ⟨rfl, rfl⟩) fun _ hp => by cases hp
    · exact rows_failOrRetry rfl hx rfl fun _ => rfl
  | fail tick id message now dbNow =>
    obtain ⟨d, hd, rfl⟩ := Option.map_eq_some_iff.mp h
    obtain ⟨x, hx, rfl, rfl, rfl, -⟩ := exists_held_of_holding hd
    exact rows_failOrRetry rfl hx rfl fun _ => rfl
  | reap dbNow =>
    obtain rfl := Option.some.inj h
    refine rows_of_update rfl fun d _ => ?_
    by_cases horphan : d.status = .pending ∧ s.endpoints.find? d.endpointId = none
    · rw [if_pos (by simpa using horphan)]
      exact ⟨rfl, rfl, Or.inr (Or.inr ⟨⟨dbNow, rfl⟩, horphan, rfl⟩)⟩
    · rw [if_neg (by simpa using horphan)]
      exact changed_same rfl rfl
  | enqueue id endpointId tenantId event payload dbNow =>
    obtain ⟨table, htable, rfl⟩ := Option.map_eq_some_iff.mp h
    refine ⟨fun d hd => ?_, fun e he => ?_⟩
    · exact ⟨d, (Table.mem_insert htable).mpr (Or.inl hd), changed_same rfl rfl⟩
    · rcases (Table.mem_insert htable).mp he with hold | rfl
      · exact Or.inl ⟨e, hold, changed_same rfl rfl⟩
      · exact Or.inr ⟨rfl, rfl, Table.find?_eq_none.mp (Table.insert_eq_some htable).1⟩
  | createEndpoint e =>
    obtain ⟨table, -, rfl⟩ := Option.map_eq_some_iff.mp h
    exact rows_of_same rfl (fun _ => rfl) rfl
  | lose tick id =>
    obtain rfl := Option.some.inj h
    exact rows_of_same rfl (fun _ => rfl) rfl
  | crash tick =>
    obtain rfl := Option.some.inj h
    exact rows_of_same rfl (fun _ => rfl) rfl
  | updateEndpoint tenantId id url description events enabled dbNow =>
    obtain rfl := Option.some.inj h
    exact rows_of_same rfl (fun _ => rfl) rfl
  | deleteEndpoint tenantId id =>
    obtain rfl := Option.some.inj h
    exact rows_of_same rfl (fun _ => rfl) rfl

end Rows

/-- A settled delivery keeps its status over the step. -/
def KeepsSettled (s t : Outbox) : Prop :=
  ∀ d ∈ s.deliveries.rows, d.status ≠ .pending →
    ∃ e ∈ t.deliveries.rows, e.id = d.id ∧ e.status = d.status

instance (s t : Outbox) : Decidable (KeepsSettled s t) := inferInstanceAs <| Decidable <|
  ∀ d ∈ s.deliveries.rows, d.status ≠ .pending →
    ∃ e ∈ t.deliveries.rows, e.id = d.id ∧ e.status = d.status

/-- A POST starts on a pending delivery only. -/
def PostsPending (s : Outbox) : Action → Prop
  | .post _ id => ∀ d ∈ s.deliveries.rows, d.id = id → d.status = .pending
  | _ => True

instance (s : Outbox) (a : Action) : Decidable (PostsPending s a) :=
  match a with
  | .post _ id => inferInstanceAs <| Decidable <|
    ∀ d ∈ s.deliveries.rows, d.id = id → d.status = .pending
  | .claim .. | .refuse .. | .answer .. | .fail .. | .lose .. | .crash _ | .reap _ | .enqueue ..
  | .createEndpoint _ | .updateEndpoint .. | .deleteEndpoint .. => inferInstanceAs (Decidable True)

/-- The condition of a reaper's pass: nothing in flight has lost its endpoint. -/
def ReapsOnlyIdle (s : Outbox) : Action → Prop
  | .reap _ => ∀ h ∈ s.held, ∀ d ∈ s.deliveries.rows, d.id = h.delivery.id → ¬Orphan s d
  | _ => True

instance (s : Outbox) (a : Action) : Decidable (ReapsOnlyIdle s a) :=
  match a with
  | .reap _ => inferInstanceAs <| Decidable <|
    ∀ h ∈ s.held, ∀ d ∈ s.deliveries.rows, d.id = h.delivery.id → ¬Orphan s d
  | .claim .. | .refuse .. | .post .. | .answer .. | .fail .. | .lose .. | .crash _ | .enqueue ..
  | .createEndpoint _ | .updateEndpoint .. | .deleteEndpoint .. => inferInstanceAs (Decidable True)

/-- The condition of a step: neither a claim nor the reaper touches what is in flight. -/
def LeavesInFlight (s : Outbox) (a : Action) : Prop := ClaimsOnlyIdle s a ∧ ReapsOnlyIdle s a

instance (s : Outbox) (a : Action) : Decidable (LeavesInFlight s a) :=
  inferInstanceAs (Decidable (ClaimsOnlyIdle s a ∧ ReapsOnlyIdle s a))

/-- The invariant: a delivery is in one hand at most, and is pending while it is. -/
structure InFlightPending (s : Outbox) : Prop where
  exclusive : Exclusive s
  numbered : TicksNumbered s
  pending : ∀ h ∈ s.held, ∀ d ∈ s.deliveries, d.id = h.delivery.id → d.status = .pending

section Steps

variable {s t : Outbox} {a : Action}

/-- Whoever wrote the outcome holds the delivery no more. -/
theorem released_of_outcome {tick : ℕ} {id : String} (h : step s a = some t)
    (hout : outcomeOf a = some (tick, id)) :
    ∀ x ∈ t.held, ¬(x.tick = tick ∧ x.delivery.id = id) := by
  have hrelease : ∀ s' : Outbox, ∀ x ∈ (release s' tick id).held,
      ¬(x.tick = tick ∧ x.delivery.id = id) := by
    intro s' x hx
    exact of_decide_eq_true (List.mem_filter.mp hx).2
  cases a with
  | refuse tick' id' reason dbNow =>
    obtain ⟨rfl, rfl⟩ := Prod.mk.inj (Option.some.inj hout)
    obtain ⟨d, -, rfl⟩ := Option.map_eq_some_iff.mp h
    exact hrelease _
  | answer tick' id' status now dbNow =>
    obtain ⟨rfl, rfl⟩ := Prod.mk.inj (Option.some.inj hout)
    obtain ⟨d, -, rfl⟩ := Option.map_eq_some_iff.mp h
    split_ifs <;> exact hrelease _
  | fail tick' id' message now dbNow =>
    obtain ⟨rfl, rfl⟩ := Prod.mk.inj (Option.some.inj hout)
    obtain ⟨d, -, rfl⟩ := Option.map_eq_some_iff.mp h
    exact hrelease _
  | _ => cases hout

theorem pending_claim {limit : ℕ} {now dbNow : ℤ} {picked : List DeliveryRow}
    (hs : InFlightPending s) (h : step s (.claim limit now dbNow picked) = some t) :
    ∀ x ∈ t.held, ∀ e ∈ t.deliveries, e.id = x.delivery.id → e.status = .pending := by
  obtain ⟨hbatch, hheld, -⟩ := step_claim h
  intro x hx e he hid
  rcases (rows_of_step h).back e he with ⟨d, hd, hc⟩ | ⟨hp, -⟩
  · have hstatus : e.status = d.status := by
      rcases hc.status_cases with ⟨hsame, -⟩ | ⟨_, _, hout, _⟩ | ⟨⟨_, hreap⟩, _⟩
      · exact hsame
      · cases hout
      · cases hreap
    rw [hstatus]
    rw [hc.id_eq] at hid
    rcases List.mem_append.mp (hheld ▸ hx) with hx | hx
    · exact hs.pending x hx d hd hid
    · obtain ⟨-, d', hd', hid'⟩ := mem_batchHeld hx
      have hdue := List.mem_filter.mp (hbatch.2.1 d' hd')
      have hdd : d = d' := Table.eq_of_key_eq hd hdue.1 (hid.trans hid')
      have hwhere := hdue.2
      simp only [isDue, Bool.and_eq_true, beq_iff_eq] at hwhere
      rw [hdd]
      exact hwhere.1.1
  · exact hp

/-- The step lemma. -/
theorem inFlightPending_step (hs : InFlightPending s) (ha : LeavesInFlight s a)
    (h : step s a = some t) : InFlightPending t where
  exclusive := exclusive_step hs.exclusive hs.numbered ha.1 h
  numbered := ticksNumbered_step hs.numbered h
  pending := by
    by_cases hc : ∃ limit now dbNow picked, a = .claim limit now dbNow picked
    · obtain ⟨limit, now, dbNow, picked, rfl⟩ := hc
      exact pending_claim hs h
    · push Not at hc
      intro x hx e he hid
      obtain ⟨y, hy, htick, hdelivery⟩ := (held_of_step h hc).2 x hx
      rcases (rows_of_step h).back e he with ⟨d, hd, hch⟩ | ⟨hp, -⟩
      · have hyd : d.id = y.delivery.id := by rw [hdelivery, ← hid, hch.id_eq]
        have hpending := hs.pending y hy d hd hyd
        rcases hch.status_cases with ⟨hsame, -⟩ | ⟨z, hz, hout, hzd, -⟩ | ⟨⟨dbNow, rfl⟩, horphan, -⟩
        · rw [hsame, hpending]
        · have hzy : z.tick = y.tick := hs.exclusive z hz y hy (hzd.trans hyd)
          refine absurd ⟨?_, ?_⟩ (released_of_outcome h hout x hx)
          · rw [hzy, htick]
          · rw [hzd, hyd, hdelivery]
        · exact absurd horphan (ha.2 y hy d hd hyd)
      · exact hp

/-- Only what is in flight or has no endpoint is settled by a step. -/
theorem keepsSettled_of_inFlightPending (hs : InFlightPending s) (h : step s a = some t) :
    KeepsSettled s t := by
  intro d hd hsettled
  obtain ⟨e, he, hc⟩ := (rows_of_step h).forward d hd
  refine ⟨e, he, hc.id_eq, ?_⟩
  rcases hc.status_cases with ⟨hsame, -⟩ | ⟨z, hz, -, hzd, -⟩ | ⟨-, horphan, -⟩
  · exact hsame
  · exact absurd (hs.pending z hz d hd hzd.symm) hsettled
  · exact absurd horphan.1 hsettled

theorem postsPending_of_inFlightPending (hs : InFlightPending s) (h : step s a = some t) :
    PostsPending s a := by
  cases a with
  | post tick id =>
    obtain ⟨d, hd, -⟩ := Option.map_eq_some_iff.mp h
    obtain ⟨x, hx, -, rfl, rfl, -⟩ := exists_held_of_holding hd
    exact fun e he hid => hs.pending x hx e he hid
  | _ => trivial

end Steps

/-- In every run whose claims and reaps leave alone what is in flight, a delivery that
has succeeded or is dead stays what it is, and no POST of it starts. -/
theorem settled_stays_settled (s : Outbox) (as : List Action) (hs : InFlightPending s)
    (hleave : Guarded step LeavesInFlight s as) :
    Along step (fun s a t => KeepsSettled s t ∧ PostsPending s a) s as := by
  have hstep : ∀ s a t, InFlightPending s → LeavesInFlight s a → step s a = some t →
      InFlightPending t ∧ KeepsSettled s t ∧ PostsPending s a := by
    intro s a t hI ha ht
    refine ⟨inFlightPending_step hI ha ht, ?_, ?_⟩
    · exact keepsSettled_of_inFlightPending hI ht
    · exact postsPending_of_inFlightPending hI ht
  exact along_of_invariant hstep hs hleave

/-- A delivery succeeds, its endpoint is deleted, and later passes find nothing to do. -/
theorem settled_stays_settled_answered :
    Guarded step LeavesInFlight oneDelivery
      [.claim 20 0 0 [claimedRow 0 0], .post 0 "d1", .answer 0 "d1" 200 50 50,
        .deleteEndpoint "acme" "e1", .reap 10000, .claim 20 10000 10000 []] ∧
    Along step (fun s a t => KeepsSettled s t ∧ PostsPending s a) oneDelivery
      [.claim 20 0 0 [claimedRow 0 0], .post 0 "d1", .answer 0 "d1" 200 50 50,
        .deleteEndpoint "acme" "e1", .reap 10000, .claim 20 10000 10000 []] :=
  ⟨by decide, settled_stays_settled oneDelivery _
    ⟨by decide, by unfold TicksNumbered; decide, fun _ h => absurd h List.not_mem_nil⟩
    (by decide)⟩

/-- Two ticks hold the delivery: one is answered 200, then the other times out and the
delivery is pending again. And the reaper ends a delivery in flight, which is POSTed and
succeeds all the same. -/
theorem settled_delivery_reopened :
    ¬Along step (fun s a t => KeepsSettled s t ∧ PostsPending s a) oneDelivery
      [.claim 20 0 0 [claimedRow 0 0], .post 0 "d1", .claim 20 10000 10000 [claimedRow 1 0],
        .post 1 "d1", .answer 0 "d1" 200 10050 10050,
        .fail 1 "d1" "No response within 10000ms" 20000 20000] ∧
    ¬Along step (fun s a t => KeepsSettled s t ∧ PostsPending s a) oneDelivery
      [.claim 20 0 0 [claimedRow 0 0], .deleteEndpoint "acme" "e1", .reap 10, .post 0 "d1",
        .answer 0 "d1" 200 50 50] := by
  decide

end HeirsOcr.WebhookOutbox

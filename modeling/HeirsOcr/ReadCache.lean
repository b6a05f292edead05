import HeirsOcr.Interleaving
import HeirsOcr.RowReplay

/-!
# A cache in front of a store

A read looks into the cache of its process. On a miss it selects from the store, puts what
it got into the cache and returns it. A writing call issues statements and then drops cache
entries. Any two of these steps may have other calls between them. What the store has had
under a key is kept as a list of versions, and a read is fresh when what it returns is no
older than the last version whose write had returned when it started. Two steps endanger
that: a read that caches a version replaced since it was selected, and a writing call that
returns while an entry it does not drop is older than what it wrote.
-/
namespace HeirsOcr.ReadCache
open StepMachine Interleaving RowReplay

/-- What a read of a key selects, what a statement does, the one key it may change, and how
long an entry lives. -/
structure Backend (σ κ β ω τ : Type*) where
  view : σ → κ → β
  execute : ω → τ → σ → Option σ
  target : ω → Option κ
  frame : ∀ {w now s t k}, execute w now s = some t → target w ≠ some k → view t k = view s k
  ttlMs : κ → β → ℤ

structure Entry (β : Type*) where
  value : β
  expiresAt : ℤ
  deriving DecidableEq, Repr

/-- What a read returned, and the last version to have a returned write when it started. -/
structure Read (κ β : Type*) where
  key : κ
  since : ℕ
  value : β
  deriving DecidableEq, Repr

/-- The store, the cache, and three logs: the versions of each key, the last of them whose
write has returned, and the reads. -/
structure Process (σ κ β : Type*) where
  store : σ
  cache : κ → Option (Entry β)
  now : ℤ
  versions : κ → List β
  returned : κ → ℕ
  reads : List (Read κ β)

inductive Request (κ ω : Type*) where
  | read (key : κ)
  | write (statements : List ω) (drops : List κ)
  deriving DecidableEq, Repr

/-- A read before and after its `SELECT`, and a writing call with the statements it has left,
the keys it will drop and the versions it wrote. -/
inductive Call (κ β ω : Type*) where
  | missed (key : κ) (since : ℕ)
  | selected (key : κ) (since : ℕ) (value : β)
  | writing (statements : List ω) (drops : List κ) (wrote : List (κ × ℕ))
  deriving DecidableEq, Repr

variable {σ κ β ω τ : Type*}

namespace Process

variable (p : Process σ κ β)

/-- What a read of the key would find in the cache. -/
def cached (k : κ) : Option β :=
  ((p.cache k).filter fun e => p.now < e.expiresAt).map Entry.value

def answer (key : κ) (since : ℕ) (value : β) : Process σ κ β :=
  { p with reads := p.reads ++ [⟨key, since, value⟩] }

end Process

def start (p : Process σ κ β) : Request κ ω → Process σ κ β × Option (Call κ β ω)
  | .read key =>
    match p.cached key with
    | some value => (p.answer key (p.returned key) value, none)
    | none => (p, some (.missed key (p.returned key)))
  | .write statements drops => (p, some (.writing statements drops []))

variable (B : Backend σ κ β ω τ)

section Resume

variable [DecidableEq κ]

/-- The greatest of the versions written under a key, and of `m`. -/
def latest (k : κ) : List (κ × ℕ) → ℕ → ℕ
  | [], m => m
  | (k', n) :: rest, m => latest k rest (if k' = k then max m n else m)

def Process.remember (p : Process σ κ β) (key : κ) (e : Entry β) : Process σ κ β :=
  { p with cache := Function.update p.cache key (some e) }

/-- A statement has left the store as `t`. -/
def record (p : Process σ κ β) (w : ω) (t : σ) : Process σ κ β :=
  { p with
    store := t
    versions := fun k =>
      if B.target w = some k then p.versions k ++ [B.view t k] else p.versions k }

/-- A writing call drops its entries and returns. -/
def finish (p : Process σ κ β) (drops : List κ) (wrote : List (κ × ℕ)) : Process σ κ β :=
  { p with
    cache := fun k => if k ∈ drops then none else p.cache k
    returned := fun k => latest k wrote (p.returned k) }

def resume (p : Process σ κ β) : Call κ β ω → Answer τ → Process σ κ β × Option (Call κ β ω)
  | .missed key since, .done _ => (p, some (.selected key since (B.view p.store key)))
  | .missed _ _, .lost _ | .missed _ _, .refused => (p, none)
  | .selected key since value, _ =>
    ((p.remember key ⟨value, p.now + B.ttlMs key value⟩).answer key since value, none)
  | .writing [] drops wrote, _ => (finish p drops wrote, none)
  | .writing (_ :: _) _ _, .refused => (p, none)
  | .writing (w :: _) _ _, .lost now =>
    ((B.execute w now p.store).elim p (record B p w), none)
  | .writing (w :: rest) drops wrote, .done now =>
    match B.execute w now p.store with
    | none => (p, none)
    | some t =>
      (record B p w t,
        some (.writing rest drops
          (wrote ++ (B.target w).toList.map fun k => (k, (p.versions k).length))))

/-- The process, its calls, and the time that passes. -/
def system : System (Process σ κ β) (Call κ β ω) (Request κ ω) (Answer τ) ℕ where
  start := start
  resume := resume B
  environment p ms := { p with now := p.now + ms }

end Resume

/-- Every read returned a version no older than the last one whose write had returned when
the read started. -/
def ReadsFresh (p : Process σ κ β) : Prop :=
  ∀ r ∈ p.reads, r.value ∈ (p.versions r.key).drop r.since

/-- The condition of a step: a read caches a version no returned write has replaced, and a
writing call returns when no entry is left that is older than what it wrote. -/
def CacheCurrent (p : Process σ κ β) : Call κ β ω → Prop
  | .missed _ _ => True
  | .selected key _ value => value ∈ (p.versions key).drop (p.returned key)
  | .writing [] drops wrote =>
    ∀ x ∈ wrote, x.1 ∉ drops → ∀ value ∈ p.cached x.1, value ∈ (p.versions x.1).drop x.2
  | .writing (_ :: _) _ _ => True

def CachesCurrent (s : State (Process σ κ β) (Call κ β ω)) :
    Action (Request κ ω) (Answer τ) ℕ → Prop
  | .advance i _ => ∀ c ∈ s.calls[i]?, CacheCurrent s.shared c
  | .start _ | .environment _ => True

section Decidable

variable [DecidableEq κ] [DecidableEq β]

instance : DecidablePred (ReadsFresh : Process σ κ β → Prop) := fun p =>
  inferInstanceAs <| Decidable <| ∀ r ∈ p.reads, r.value ∈ (p.versions r.key).drop r.since

instance (p : Process σ κ β) : DecidablePred (CacheCurrent p : Call κ β ω → Prop)
  | .missed _ _ | .writing (_ :: _) _ _ => inferInstanceAs (Decidable True)
  | .selected key _ value =>
    inferInstanceAs <| Decidable <| value ∈ (p.versions key).drop (p.returned key)
  | .writing [] drops wrote => inferInstanceAs <| Decidable <|
    ∀ x ∈ wrote, x.1 ∉ drops → ∀ value ∈ p.cached x.1, value ∈ (p.versions x.1).drop x.2

instance (s : State (Process σ κ β) (Call κ β ω)) :
    DecidablePred (CachesCurrent s : Action (Request κ ω) (Answer τ) ℕ → Prop)
  | .advance i _ => inferInstanceAs <| Decidable <| ∀ c ∈ s.calls[i]?, CacheCurrent s.shared c
  | .start _ | .environment _ => inferInstanceAs (Decidable True)

end Decidable

/-- A process that has read and written nothing. -/
def fresh (store : σ) (now : ℤ) : State (Process σ κ β) (Call κ β ω) where
  shared :=
    { store := store
      cache := fun _ => none
      now := now
      versions := fun k => [B.view store k]
      returned := fun _ => 0
      reads := [] }
  calls := []

/-- The last version of a key is what the store has, and an entry that would be found is no
older than the last version whose write has returned. -/
structure Coherent (p : Process σ κ β) : Prop where
  current : ∀ k, (p.versions k).getLast? = some (B.view p.store k)
  returned : ∀ k, p.returned k < (p.versions k).length
  cached : ∀ k, ∀ value ∈ p.cached k, value ∈ (p.versions k).drop (p.returned k)
  reads : ReadsFresh p

/-- What a call under way carries. -/
def Carries (p : Process σ κ β) : Call κ β ω → Prop
  | .missed key since => since ≤ p.returned key
  | .selected key since value => value ∈ (p.versions key).drop since
  | .writing _ _ wrote => ∀ x ∈ wrote, x.2 < (p.versions x.1).length

section Steps

variable {B} {p q : Process σ κ β} {others : List (Call κ β ω)} {k : κ} {m n : ℕ} {value : β}

theorem mem_drop_of_getLast? {xs : List β} (h : xs.getLast? = some value) (hn : n < xs.length) :
    value ∈ xs.drop n := by
  have hlast : (xs.drop n).getLast? = some value := by
    rw [List.getLast?_drop, if_neg (by omega), h]
  exact List.mem_of_getLast? hlast

theorem mem_drop_append {xs : List β} (h : value ∈ xs.drop n) (ys : List β) :
    value ∈ (xs ++ ys).drop n := by
  rw [List.drop_append]
  exact List.mem_append_left _ h

/-- Versions are only added, and returned writes stay returned. -/
structure Grows (p q : Process σ κ β) : Prop where
  versions : ∀ k, ∃ ys, q.versions k = p.versions k ++ ys
  returned : ∀ k, p.returned k ≤ q.returned k

theorem Grows.of_same (hversions : q.versions = p.versions) (hreturned : q.returned = p.returned) :
    Grows p q where
  versions k := ⟨[], by rw [hversions, List.append_nil]⟩
  returned k := by rw [hreturned]

theorem Grows.mem_drop (h : Grows p q) (hmem : value ∈ (p.versions k).drop n) :
    value ∈ (q.versions k).drop n := by
  obtain ⟨ys, hys⟩ := h.versions k
  rw [hys]
  exact mem_drop_append hmem ys

theorem Grows.readsFresh (h : Grows p q) (hreads : q.reads = p.reads) (hp : ReadsFresh p) :
    ReadsFresh q := by
  intro r hr
  rw [hreads] at hr
  exact h.mem_drop (hp r hr)

theorem Grows.carries (h : Grows p q) {c : Call κ β ω} (hc : Carries p c) : Carries q c := by
  cases c with
  | missed key since => exact le_trans hc (h.returned key)
  | selected key since value => exact h.mem_drop hc
  | writing statements drops wrote =>
    intro x hx
    obtain ⟨ys, hys⟩ := h.versions x.1
    have hlt := hc x hx
    rw [hys, List.length_append]
    omega

/-- A step keeps the invariant when it leaves the process coherent, the logs grow and the
call it moves carries what it should. -/
theorem Grows.keeps {next : Option (Call κ β ω)} (h : Grows p q) (hq : Coherent B q)
    (hnext : ∀ c ∈ next, Carries q c) : Keeps (Coherent B) Carries p others (q, next) :=
  ⟨hq, hnext, fun _ _ hc => h.carries hc⟩

theorem Grows.keeps_over (h : Grows p q) (hq : Coherent B q) :
    Keeps (Coherent B) Carries p others ((q, none) : Process σ κ β × Option (Call κ β ω)) :=
  h.keeps hq fun c hc => by cases hc

theorem Coherent.answer (hp : Coherent B p) {key : κ} {since : ℕ}
    (hvalue : value ∈ (p.versions key).drop since) : Coherent B (p.answer key since value) where
  current := hp.current
  returned := hp.returned
  cached := hp.cached
  reads r hr := by
    rcases List.mem_append.mp hr with hold | hnew
    · exact hp.reads r hold
    · obtain rfl := List.mem_singleton.mp hnew
      exact hvalue

/-- Time only takes entries away. -/
theorem cached_wait (p : Process σ κ β) (ms : ℕ) (k : κ) :
    ∀ value ∈ Process.cached { p with now := p.now + ms } k, value ∈ p.cached k := by
  intro value hvalue
  obtain ⟨e, he, rfl⟩ := Option.map_eq_some_iff.mp hvalue
  obtain ⟨hentry, hlive⟩ := Option.filter_eq_some_iff.mp he
  have hlive : p.now + ms < e.expiresAt := of_decide_eq_true hlive
  have hearlier : p.now < e.expiresAt := by omega
  exact Option.map_eq_some_iff.mpr
    ⟨e, Option.filter_eq_some_iff.mpr ⟨hentry, decide_eq_true hearlier⟩, rfl⟩

theorem Coherent.wait (hp : Coherent B p) (ms : ℕ) :
    Coherent B { p with now := p.now + ms } where
  current := hp.current
  returned := hp.returned
  cached k value hvalue := hp.cached k value (cached_wait p ms k value hvalue)
  reads := hp.reads

/-- A new request. -/
theorem keeps_start (hp : Coherent B p) (request : Request κ ω) :
    Keeps (Coherent B) Carries p others (start p request) := by
  cases request with
  | write statements drops =>
    refine (Grows.of_same rfl rfl).keeps hp fun c hc => ?_
    obtain rfl := Option.some.inj hc
    exact fun x hx => absurd hx List.not_mem_nil
  | read key =>
    simp only [start]
    cases hcached : p.cached key with
    | none =>
      refine (Grows.of_same rfl rfl).keeps hp fun c hc => ?_
      obtain rfl := Option.some.inj hc
      exact le_rfl
    | some value =>
      have hgrows : Grows p (p.answer key (p.returned key) value) := .of_same rfl rfl
      exact hgrows.keeps_over (hp.answer (hp.cached key value hcached))

theorem keeps_select (hp : Coherent B p) {key : κ} {since : ℕ} (hsince : since ≤ p.returned key) :
    Keeps (Coherent B) Carries p others
      (p, some (Call.selected key since (B.view p.store key) : Call κ β ω)) := by
  refine (Grows.of_same rfl rfl).keeps hp fun c hc => ?_
  obtain rfl := Option.some.inj hc
  exact mem_drop_of_getLast? (hp.current key) (hsince.trans_lt (hp.returned key))

variable [DecidableEq κ]

/-- What holds of `m` and of the versions written under the key holds of the greatest. -/
theorem latest_induction {P : ℕ → Prop} {wrote : List (κ × ℕ)} (hm : P m)
    (hwrote : ∀ x ∈ wrote, x.1 = k → P x.2) : P (latest k wrote m) := by
  induction wrote generalizing m with
  | nil => exact hm
  | cons x rest ih =>
    refine ih ?_ fun y hy => hwrote y (List.mem_cons_of_mem x hy)
    split_ifs with hk
    · rcases max_choice m x.2 with hmax | hmax
      · rw [hmax]
        exact hm
      · rw [hmax]
        exact hwrote x List.mem_cons_self hk
    · exact hm

theorem le_latest (k : κ) (wrote : List (κ × ℕ)) (m : ℕ) : m ≤ latest k wrote m := by
  induction wrote generalizing m with
  | nil => exact le_rfl
  | cons x rest ih =>
    refine le_trans ?_ (ih _)
    split_ifs
    · exact le_max_left m x.2
    · exact le_rfl

theorem cached_remember (p : Process σ κ β) (key : κ) (e : Entry β) (k : κ) :
    ∀ value ∈ (p.remember key e).cached k,
      (k = key ∧ value = e.value) ∨ value ∈ p.cached k := by
  intro value hvalue
  by_cases hk : k = key
  · subst hk
    simp only [Process.cached, Process.remember, Function.update_self] at hvalue
    obtain ⟨e', he', rfl⟩ := Option.map_eq_some_iff.mp hvalue
    obtain ⟨he, -⟩ := Option.filter_eq_some_iff.mp he'
    exact Or.inl ⟨rfl, by rw [Option.some.inj he]⟩
  · have hsame : (p.remember key e).cached k = p.cached k := by
      unfold Process.cached Process.remember
      dsimp only
      rw [Function.update_of_ne hk]
    exact Or.inr (hsame ▸ hvalue)

theorem Coherent.remember (hp : Coherent B p) {key : κ} {e : Entry β}
    (he : e.value ∈ (p.versions key).drop (p.returned key)) :
    Coherent B (p.remember key e) where
  current := hp.current
  returned := hp.returned
  cached k value hvalue := by
    rcases cached_remember p key e k value hvalue with ⟨rfl, rfl⟩ | hold
    · exact he
    · exact hp.cached k value hold
  reads := hp.reads

theorem grows_record (p : Process σ κ β) (w : ω) (t : σ) : Grows p (record B p w t) where
  versions k := by
    by_cases hk : B.target w = some k
    · exact ⟨[B.view t k], by simp [record, hk]⟩
    · exact ⟨[], by simp [record, hk]⟩
  returned _ := le_rfl

theorem Coherent.record (hp : Coherent B p) {w : ω} {now : τ} {t : σ}
    (h : B.execute w now p.store = some t) : Coherent B (record B p w t) where
  current k := by
    by_cases hk : B.target w = some k
    · simp [ReadCache.record, hk]
    · simp only [ReadCache.record, hk, if_false]
      rw [hp.current, B.frame h hk]
  returned k := by
    obtain ⟨ys, hys⟩ := (grows_record (B := B) p w t).versions k
    have hlt := hp.returned k
    rw [hys, List.length_append]
    exact Nat.lt_add_right _ hlt
  cached k value hvalue := (grows_record p w t).mem_drop (hp.cached k value hvalue)
  reads := (grows_record (B := B) p w t).readsFresh rfl hp.reads

theorem grows_finish (p : Process σ κ β) (drops : List κ) (wrote : List (κ × ℕ)) :
    Grows p (finish p drops wrote) where
  versions _ := ⟨[], (List.append_nil _).symm⟩
  returned k := le_latest k wrote (p.returned k)

/-- A writing call returns. -/
theorem Coherent.finish (hp : Coherent B p) {drops : List κ} {wrote : List (κ × ℕ)}
    (hwrote : ∀ x ∈ wrote, x.2 < (p.versions x.1).length)
    (hcurrent : ∀ x ∈ wrote, x.1 ∉ drops →
      ∀ value ∈ p.cached x.1, value ∈ (p.versions x.1).drop x.2) :
    Coherent B (finish p drops wrote) where
  current := hp.current
  returned k := latest_induction (P := fun n => n < (p.versions k).length) (hp.returned k)
    fun x hx hk => hk ▸ hwrote x hx
  cached k value hvalue := by
    by_cases hk : k ∈ drops
    · simp [Process.cached, ReadCache.finish, hk] at hvalue
    · have hsame : (ReadCache.finish p drops wrote).cached k = p.cached k := by
        unfold Process.cached ReadCache.finish
        dsimp only
        rw [if_neg hk]
      have hcached : value ∈ p.cached k := hsame ▸ hvalue
      refine latest_induction (P := fun n => value ∈ (p.versions k).drop n)
        (hp.cached k value hcached) fun x hx hkey => ?_
      subst hkey
      exact hcurrent x hx hk value hcached
  reads := (grows_finish p drops wrote).readsFresh rfl hp.reads

/-- A statement of a writing call has run. -/
theorem carries_record {w : ω} {t : σ} {rest : List ω} {drops : List κ}
    {wrote : List (κ × ℕ)} (hwrote : ∀ x ∈ wrote, x.2 < (p.versions x.1).length) :
    Carries (record B p w t) (Call.writing rest drops
      (wrote ++ (B.target w).toList.map fun k => (k, (p.versions k).length)) : Call κ β ω) := by
  intro x hx
  rcases List.mem_append.mp hx with hold | hnew
  · exact (grows_record p w t).carries (c := Call.writing rest drops wrote) hwrote x hold
  · obtain ⟨k, hk, rfl⟩ := List.mem_map.mp hnew
    simp [record, Option.mem_toList.mp hk]

theorem keeps_resume (hp : Coherent B p) {c : Call κ β ω} (hc : Carries p c)
    (hcurrent : CacheCurrent p c) (answer : Answer τ) :
    Keeps (Coherent B) Carries p others (resume B p c answer) := by
  have hthrows : Keeps (Coherent B) Carries p others
      ((p, none) : Process σ κ β × Option (Call κ β ω)) := (Grows.of_same rfl rfl).keeps_over hp
  cases c with
  | missed key since =>
    cases answer with
    | done now => exact keeps_select hp hc
    | lost now => exact hthrows
    | refused => exact hthrows
  | selected key since value =>
    have hremember : Coherent B (p.remember key ⟨value, p.now + B.ttlMs key value⟩) :=
      hp.remember hcurrent
    have hgrows : Grows p
        ((p.remember key ⟨value, p.now + B.ttlMs key value⟩).answer key since value) :=
      .of_same rfl rfl
    exact hgrows.keeps_over (hremember.answer hc)
  | writing statements drops wrote =>
    cases statements with
    | nil =>
      exact (grows_finish p drops wrote).keeps_over (hp.finish hc hcurrent)
    | cons w rest =>
      cases answer with
      | refused => exact hthrows
      | lost now =>
        simp only [resume]
        cases hexecute : B.execute w now p.store with
        | none => exact hthrows
        | some t =>
          exact (grows_record p w t).keeps_over (hp.record hexecute)
      | done now =>
        simp only [resume]
        cases hexecute : B.execute w now p.store with
        | none => exact hthrows
        | some t =>
          refine (grows_record p w t).keeps (hp.record hexecute) fun c' hc' => ?_
          obtain rfl := Option.some.inj hc'
          exact carries_record hc

end Steps

theorem coherent_fresh (store : σ) (now : ℤ) : Coherent B (fresh (ω := ω) B store now).shared where
  current _ := rfl
  returned _ := Nat.zero_lt_one
  cached _ _ hvalue := by cases hvalue
  reads _ hr := absurd hr List.not_mem_nil

/-- In a run whose steps keep the cache current, every read is fresh. -/
theorem readsFresh_throughout [DecidableEq κ] {store : σ} {now : ℤ}
    {as : List (Action (Request κ ω) (Answer τ) ℕ)}
    (hcurrent : Guarded (system B).step CachesCurrent (fresh B store now) as) :
    Throughout (system B).step (fun s => ReadsFresh s.shared) (fresh B store now) as := by
  have hstart : Holds (Coherent B) Carries (fresh (ω := ω) B store now) :=
    ⟨coherent_fresh B store now, fun c hc => absurd hc List.not_mem_nil⟩
  have hkeeps : ∀ s a, Holds (Coherent B) Carries s → CachesCurrent s a →
      StepKeeps (system B) (Coherent B) Carries s a := by
    intro s a hs ha
    cases a with
    | start request => exact keeps_start hs.shared request
    | advance i answer =>
      intro c hc
      exact keeps_resume hs.shared (hs.calls c (List.mem_of_getElem? hc)) (ha c hc) answer
    | environment ms =>
      have hgrows : Grows s.shared { s.shared with now := s.shared.now + ms } := .of_same rfl rfl
      exact hgrows.keeps_over (hs.shared.wait ms)
  exact (throughout_holds hkeeps hstart hcurrent).mono fun _ hs => hs.shared.reads

end HeirsOcr.ReadCache

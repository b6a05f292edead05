import Mathlib.Tactic

/-!
# Keys with a time to live

A keyspace as Redis keeps it: each key has a value and perhaps the millisecond after which
it is gone. A command sees the entries that are live when it runs, and a key that has run
out reads as absent. Times to live are given in seconds.
-/
namespace HeirsOcr.ExpiringKeys

variable {κ ν : Type*}

structure Entry (ν : Type*) where
  value : ν
  expiresAt : Option ℤ
  deriving DecidableEq, Repr

def Entry.live (now : ℤ) (e : Entry ν) : Bool := e.expiresAt.all fun t => now ≤ t

abbrev Keyspace (κ ν : Type*) := κ → Option (Entry ν)

/-- The entry of a key, while it is live. -/
def lookup (keys : Keyspace κ ν) (now : ℤ) (key : κ) : Option (Entry ν) :=
  (keys key).filter (Entry.live now)

/-- `GET key`. -/
def get (keys : Keyspace κ ν) (now : ℤ) (key : κ) : Option ν :=
  (lookup keys now key).map Entry.value

/-- `TTL key`: rounded to the nearest second, `-1` without a time to live, `-2` without the
key. -/
def ttl (keys : Keyspace κ ν) (now : ℤ) (key : κ) : ℤ :=
  match lookup keys now key with
  | none => -2
  | some e => e.expiresAt.elim (-1) fun t => (t - now + 500) / 1000

section Commands

variable [DecidableEq κ]

/-- `SET key value EX seconds`. -/
def setEx (keys : Keyspace κ ν) (now : ℤ) (key : κ) (value : ν) (seconds : ℤ) : Keyspace κ ν :=
  Function.update keys key (some ⟨value, some (now + 1000 * seconds)⟩)

/-- `SET key value KEEPTTL`. -/
def setKeepTtl (keys : Keyspace κ ν) (now : ℤ) (key : κ) (value : ν) : Keyspace κ ν :=
  Function.update keys key (some ⟨value, (lookup keys now key).bind Entry.expiresAt⟩)

/-- `SET key value EX seconds NX`, with whether it answered `OK`. -/
def setNx (keys : Keyspace κ ν) (now : ℤ) (key : κ) (value : ν) (seconds : ℤ) :
    Keyspace κ ν × Bool :=
  if (lookup keys now key).isSome then (keys, false)
  else (setEx keys now key value seconds, true)

/-- `DEL key …`. -/
def del (keys : Keyspace κ ν) (doomed : List κ) : Keyspace κ ν :=
  fun key => if key ∈ doomed then none else keys key

/-- `EXPIRE key seconds`. -/
def expire (keys : Keyspace κ ν) (now : ℤ) (key : κ) (seconds : ℤ) : Keyspace κ ν :=
  match lookup keys now key with
  | none => keys
  | some e => Function.update keys key (some { e with expiresAt := some (now + 1000 * seconds) })

/-- `INCR key`, with the count it answers; a new counter has no time to live. -/
def incr (keys : Keyspace κ ℕ) (now : ℤ) (key : κ) : Keyspace κ ℕ × ℕ :=
  match lookup keys now key with
  | none => (Function.update keys key (some ⟨1, none⟩), 1)
  | some e => (Function.update keys key (some { e with value := e.value + 1 }), e.value + 1)

variable {τ : Type*} [DecidableEq τ]

/-- `SMEMBERS key`. -/
def smembers (keys : Keyspace κ (List τ)) (now : ℤ) (key : κ) : List τ :=
  (get keys now key).getD []

/-- `SADD key member`; a new set has no time to live. -/
def sadd (keys : Keyspace κ (List τ)) (now : ℤ) (key : κ) (member : τ) : Keyspace κ (List τ) :=
  match lookup keys now key with
  | none => Function.update keys key (some ⟨[member], none⟩)
  | some e => Function.update keys key (some { e with value := e.value.insert member })

/-- `SREM key member …`; an empty set is no key. -/
def srem (keys : Keyspace κ (List τ)) (now : ℤ) (key : κ) (members : List τ) :
    Keyspace κ (List τ) :=
  match lookup keys now key with
  | none => keys
  | some e =>
    let left := e.value.filter (· ∉ members)
    Function.update keys key (if left = [] then none else some { e with value := left })

end Commands

section Time

variable {keys : Keyspace κ ν} {now now' : ℤ} {key : κ} {e : Entry ν}

theorem lookup_eq_some : lookup keys now key = some e ↔ keys key = some e ∧ e.live now = true := by
  rw [lookup, Option.filter_eq_some_iff]

theorem live_iff : e.live now = true ↔ ∀ t ∈ e.expiresAt, now ≤ t := by
  rw [Entry.live]
  cases e.expiresAt with
  | none => simp
  | some t => simp

/-- What is live was live before. -/
theorem live_anti (hle : now ≤ now') (h : e.live now' = true) : e.live now = true := by
  rw [live_iff] at h ⊢
  intro t ht
  have hlate := h t ht
  omega

theorem lookup_anti (hle : now ≤ now') (h : lookup keys now' key = some e) :
    lookup keys now key = some e := by
  rw [lookup_eq_some] at h ⊢
  exact ⟨h.1, live_anti hle h.2⟩

theorem get_eq_some {v : ν} : get keys now key = some v ↔ ∃ e, lookup keys now key = some e ∧
    e.value = v := by
  rw [get, Option.map_eq_some_iff]

theorem get_eq_none : get keys now key = none ↔ lookup keys now key = none := by
  rw [get, Option.map_eq_none_iff]

/-- A key that is live now stays so at least until `t`. -/
def Outlasts (keys : Keyspace κ ν) (now : ℤ) (key : κ) (t : ℤ) : Prop :=
  ∀ e, lookup keys now key = some e → ∀ x ∈ e.expiresAt, t ≤ x

theorem Outlasts.anti {t : ℤ} (h : Outlasts keys now key t) (hle : now ≤ now') :
    Outlasts keys now' key t :=
  fun e he => h e (lookup_anti hle he)

/-- A key that outlasts a moment is still there then. -/
theorem Outlasts.lookup {t : ℤ} (h : Outlasts keys now key t) (hle : now' ≤ t)
    (he : lookup keys now key = some e) : ExpiringKeys.lookup keys now' key = some e := by
  rw [lookup_eq_some, live_iff]
  refine ⟨(lookup_eq_some.mp he).1, fun x hx => ?_⟩
  have hlate := h e he x hx
  omega

end Time

section Writes

variable [DecidableEq κ] {keys : Keyspace κ ν} {now : ℤ} {key key' : κ} {doomed : List κ}
  {e : Entry ν}

theorem lookup_update_of_ne (hne : key' ≠ key) (o : Option (Entry ν)) :
    lookup (Function.update keys key o) now key' = lookup keys now key' := by
  rw [lookup, Function.update_of_ne hne, lookup]

theorem lookup_update_self (o : Option (Entry ν)) :
    lookup (Function.update keys key o) now key = o.filter (Entry.live now) := by
  rw [lookup, Function.update_self]

theorem del_of_ne (hne : key' ≠ key) : del keys [key] key' = keys key' := by
  simp [del, hne]

theorem del_self : del keys [key] key = none := by
  simp [del]

theorem lookup_del_eq_some : lookup (del keys doomed) now key = some e ↔
    lookup keys now key = some e ∧ key ∉ doomed := by
  by_cases hkey : key ∈ doomed
  · simp [lookup, del, hkey]
  · simp [lookup, del, hkey]

theorem incr_of_ne {keys : Keyspace κ ℕ} (hne : key' ≠ key) :
    (incr keys now key).1 key' = keys key' := by
  unfold incr
  cases lookup keys now key with
  | none => exact Function.update_of_ne hne _ _
  | some e => exact Function.update_of_ne hne _ _

theorem expire_of_ne (hne : key' ≠ key) (seconds : ℤ) :
    expire keys now key seconds key' = keys key' := by
  unfold expire
  cases lookup keys now key with
  | none => rfl
  | some e => exact Function.update_of_ne hne _ _

/-- A new key, written to last until `now + 1000 * seconds`, beside the old ones. -/
theorem lookup_setEx {value : ν} {seconds : ℤ} (hpos : 0 ≤ seconds) :
    lookup (setEx keys now key value seconds) now key' =
      if key' = key then some ⟨value, some (now + 1000 * seconds)⟩ else lookup keys now key' := by
  by_cases hkey : key' = key
  · subst hkey
    rw [setEx, lookup_update_self, if_pos rfl]
    exact Option.filter_some_pos (live_iff.mpr (by simp; omega))
  · rw [setEx, lookup_update_of_ne hkey, if_neg hkey]

/-- `INCR` keeps what time to live there is. -/
theorem lookup_incr {keys : Keyspace κ ℕ} : lookup (incr keys now key).1 now key' =
    if key' = key then
      some ((lookup keys now key).elim ⟨1, none⟩ fun e => { e with value := e.value + 1 })
    else lookup keys now key' := by
  by_cases hkey : key' = key
  · subst hkey
    cases he : lookup keys now key' with
    | none => simp [incr, he, lookup_update_self, Entry.live]
    | some e =>
      have hlive := (lookup_eq_some.mp he).2
      simp only [incr, he, lookup_update_self, Option.elim_some, if_true]
      exact Option.filter_some_pos hlive
  · cases he : lookup keys now key with
    | none => simp [incr, he, lookup_update_of_ne hkey, hkey]
    | some e => simp [incr, he, lookup_update_of_ne hkey, hkey]

end Writes

section Sets

variable {τ : Type*} {keys : Keyspace κ (List τ)} {now now' : ℤ} {key key' : κ} {member t : τ}

theorem mem_smembers : t ∈ smembers keys now key ↔
    ∃ e, lookup keys now key = some e ∧ t ∈ e.value := by
  rw [smembers, get]
  cases lookup keys now key with
  | none => simp
  | some e => simp

theorem mem_smembers_anti (hle : now ≤ now') (h : t ∈ smembers keys now' key) :
    t ∈ smembers keys now key := by
  obtain ⟨e, he, ht⟩ := mem_smembers.mp h
  exact mem_smembers.mpr ⟨e, lookup_anti hle he, ht⟩

/-- The members of a set that outlasts a moment are still in it then. -/
theorem Outlasts.mem_smembers {moment : ℤ} (h : Outlasts keys now key moment) (hle : now' ≤ moment)
    (ht : t ∈ smembers keys now key) : t ∈ smembers keys now' key := by
  obtain ⟨e, he, ht⟩ := ExpiringKeys.mem_smembers.mp ht
  exact ExpiringKeys.mem_smembers.mpr ⟨e, h.lookup hle he, ht⟩

variable [DecidableEq κ]

variable [DecidableEq τ] {members : List τ}

theorem mem_smembers_sadd : t ∈ smembers (sadd keys now key member) now key' ↔
    t ∈ smembers keys now key' ∨ (key' = key ∧ t = member) := by
  by_cases hkey : key' = key
  · subst hkey
    cases he : lookup keys now key' with
    | none => simp [mem_smembers, sadd, he, lookup_update_self, Entry.live]
    | some e =>
      have hlive := (lookup_eq_some.mp he).2
      have hentry : lookup (sadd keys now key' member) now key' =
          some { e with value := e.value.insert member } := by
        rw [sadd, he, lookup_update_self]
        exact Option.filter_some_pos hlive
      simp [mem_smembers, hentry, he, or_comm]
  · have hsame : lookup (sadd keys now key member) now key' = lookup keys now key' := by
      rw [sadd]
      split <;> exact lookup_update_of_ne hkey _
    simp [mem_smembers, hsame, hkey]

/-- The entries after `SADD`: old ones, with an old time to live or none. -/
theorem expiresAt_sadd {e : Entry (List τ)}
    (he : lookup (sadd keys now key member) now key' = some e) :
    e.expiresAt = none ∨
      ∃ e₀, lookup keys now key' = some e₀ ∧ e.expiresAt = e₀.expiresAt := by
  by_cases hkey : key' = key
  · subst hkey
    cases hold : lookup keys now key' with
    | none =>
      rw [sadd, hold, lookup_update_self, Option.filter_eq_some_iff] at he
      obtain rfl := Option.some.inj he.1
      exact .inl rfl
    | some e₀ =>
      rw [sadd, hold, lookup_update_self, Option.filter_eq_some_iff] at he
      obtain rfl := Option.some.inj he.1
      exact .inr ⟨e₀, rfl, rfl⟩
  · rw [sadd] at he
    split at he
    · exact .inr ⟨e, (lookup_update_of_ne hkey _).symm.trans he, rfl⟩
    · exact .inr ⟨e, (lookup_update_of_ne hkey _).symm.trans he, rfl⟩

theorem Outlasts.sadd {moment : ℤ} (h : Outlasts keys now key' moment) :
    Outlasts (sadd keys now key member) now key' moment := by
  intro e he x hx
  rcases expiresAt_sadd he with hnone | ⟨e₀, he₀, hsame⟩
  · simp [hnone] at hx
  · exact h e₀ he₀ x (hsame ▸ hx)

theorem mem_smembers_srem : t ∈ smembers (srem keys now key members) now key' ↔
    t ∈ smembers keys now key' ∧ ¬(key' = key ∧ t ∈ members) := by
  by_cases hkey : key' = key
  · subst hkey
    cases he : lookup keys now key' with
    | none => simp [mem_smembers, srem, he]
    | some e =>
      have hlive := (lookup_eq_some.mp he).2
      have hleft : t ∈ smembers (srem keys now key' members) now key' ↔
          t ∈ e.value.filter (· ∉ members) := by
        rw [mem_smembers, srem, he, lookup_update_self]
        split_ifs with hempty
        · simp only [hempty, List.not_mem_nil, Option.filter_none, reduceCtorEq, false_and,
            exists_false]
        · rw [Option.filter_some_pos (by exact hlive)]
          simp
      simp [hleft, mem_smembers, he]
  · have hsame : lookup (srem keys now key members) now key' = lookup keys now key' := by
      rw [srem]
      split
      · rfl
      · exact lookup_update_of_ne hkey _
    simp [mem_smembers, hsame, hkey]

/-- What `SREM` leaves keeps its time to live. -/
theorem expiresAt_srem {e : Entry (List τ)}
    (he : lookup (srem keys now key members) now key' = some e) :
    ∃ e₀, lookup keys now key' = some e₀ ∧ e.expiresAt = e₀.expiresAt := by
  rw [srem] at he
  split at he
  case h_1 => exact ⟨e, he, rfl⟩
  case h_2 e₀ hold =>
    by_cases hkey : key' = key
    · subst hkey
      rw [lookup_update_self, Option.filter_eq_some_iff] at he
      have hleft := he.1
      split_ifs at hleft with hempty
      obtain rfl := Option.some.inj hleft
      exact ⟨e₀, hold, rfl⟩
    · exact ⟨e, (lookup_update_of_ne hkey _).symm.trans he, rfl⟩

theorem Outlasts.srem {moment : ℤ} (h : Outlasts keys now key' moment) :
    Outlasts (srem keys now key members) now key' moment := by
  intro e he x hx
  obtain ⟨e₀, he₀, hsame⟩ := expiresAt_srem he
  exact h e₀ he₀ x (hsame ▸ hx)

end Sets

section Expiry

variable [DecidableEq κ] {keys : Keyspace κ ν} {now : ℤ} {key key' : κ} {e : Entry ν}
  {seconds : ℤ}

/-- `EXPIRE` keeps the values of the keys that are live, and gives its own key a new time. -/
theorem lookup_expire (hpos : 0 ≤ seconds) : lookup (expire keys now key seconds) now key' =
    (lookup keys now key').map fun e =>
      if key' = key then { e with expiresAt := some (now + 1000 * seconds) } else e := by
  by_cases hkey : key' = key
  · subst hkey
    cases he : lookup keys now key' with
    | none => simp [expire, he]
    | some e =>
      have hwritten : expire keys now key' seconds = Function.update keys key'
          (some { e with expiresAt := some (now + 1000 * seconds) }) := by
        rw [expire, he]
      rw [hwritten, lookup_update_self, Option.map_some, if_pos rfl]
      exact Option.filter_some_pos (live_iff.mpr (by simp; omega))
  · have hsame : lookup (expire keys now key seconds) now key' = lookup keys now key' := by
      rw [expire]
      split
      · rfl
      · exact lookup_update_of_ne hkey _
    simp [hsame, hkey]

theorem get_expire (hpos : 0 ≤ seconds) :
    get (expire keys now key seconds) now key' = get keys now key' := by
  rw [get, lookup_expire hpos, Option.map_map, get]
  congr 1
  funext e
  by_cases hkey : key' = key
  · simp [hkey]
  · simp [hkey]

theorem mem_smembers_expire {τ : Type*} {keys : Keyspace κ (List τ)} {t : τ}
    (hpos : 0 ≤ seconds) :
    t ∈ smembers (expire keys now key seconds) now key' ↔ t ∈ smembers keys now key' := by
  rw [smembers, get_expire hpos, smembers]

theorem Outlasts.expire {t : ℤ} (h : Outlasts keys now key' t) (hpos : 0 ≤ seconds)
    (hle : t ≤ now + 1000 * seconds) : Outlasts (expire keys now key seconds) now key' t := by
  intro e he x hx
  rw [lookup_expire hpos] at he
  obtain ⟨e₀, he₀, rfl⟩ := Option.map_eq_some_iff.mp he
  split_ifs at hx with hkey
  · obtain rfl := Option.some.inj hx
    exact hle
  · exact h e₀ he₀ x hx

/-- A key lasts for the time it was just given. -/
theorem outlasts_expire_self (hpos : 0 ≤ seconds) :
    Outlasts (expire keys now key seconds) now key (now + 1000 * seconds) := by
  intro e he x hx
  rw [lookup_expire hpos] at he
  obtain ⟨e₀, he₀, rfl⟩ := Option.map_eq_some_iff.mp he
  rw [if_pos rfl] at hx
  obtain rfl := Option.some.inj hx
  exact le_rfl

end Expiry

end HeirsOcr.ExpiringKeys

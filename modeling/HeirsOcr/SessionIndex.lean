import HeirsOcr.SessionStore

/-!
# The index of a user knows every session of the user

A token whose `create` has returned is in its user's index for as long as the session is
live, so that `revokeOthers` reaches it. The index is given a new lifetime by the command
after the one that puts the token in; when it runs out between the two, the token is lost
while its session lives on. Without that, the rest holds over every interleaving.
-/
namespace HeirsOcr.SessionStore
open ExpiringKeys Interleaving StepMachine

variable {T Token : Type}

structure Store.IndexComplete (m : Store T Token) : Prop where
  indexed : ∀ r ∈ m.returned, (get m.sessions m.now r.2).isSome →
    r.2 ∈ smembers m.index m.now r.1
  revoked : ∀ r ∈ m.revoked, ∀ token ∈ r.earlier, some token ≠ r.keepToken →
    get m.sessions m.now token = none

/-- The next command of `create` finds its token still in the index at a later time, if the
session is. -/
def SessionCall.Spared (m : Store T Token) (later : ℤ) : SessionCall Token → Prop
  | .expire userId token =>
    (get m.sessions later token).isSome → token ∈ smembers m.index m.now userId →
      token ∈ smembers m.index later userId
  | .sadd _ _ | .del _ _ | .readStored _ _ _ _ | .delAll _ _ | .srem _ _ _ => True

instance [DecidableEq Token] (m : Store T Token) (later : ℤ) :
    ∀ c : SessionCall Token, Decidable (c.Spared m later)
  | .expire userId token =>
    inferInstanceAs (Decidable ((get m.sessions later token).isSome →
      token ∈ smembers m.index m.now userId → token ∈ smembers m.index later userId))
  | .sadd _ _ | .del _ _ | .readStored _ _ _ _ | .delAll _ _ | .srem _ _ _ =>
    inferInstanceAs (Decidable True)

/-- Time never passes the end of an index that a `create` has put its token in and not yet
given a new lifetime. -/
def IndexSpared (s : State (Store T Token) (SessionCall Token)) :
    Action (SessionRequest T Token) Unit ℕ → Prop
  | .environment milliseconds => ∀ c ∈ s.calls, c.Spared s.shared (s.shared.now + milliseconds)
  | .start _ | .advance _ _ => True

instance [DecidableEq Token] (s : State (Store T Token) (SessionCall Token)) :
    ∀ a, Decidable (IndexSpared s a)
  | .environment milliseconds =>
    inferInstanceAs (Decidable (∀ c ∈ s.calls, c.Spared s.shared (s.shared.now + milliseconds)))
  | .start _ | .advance _ _ => inferInstanceAs (Decidable True)

section Invariant

variable (opts : Options T Token) (m : Store T Token)

def Drawn (token : Token) : Prop := ∃ n < m.drawn, opts.randomToken n = token

/-- A token whose session is over; it will not have another. -/
def Gone (token : Token) : Prop := Drawn opts m token ∧ get m.sessions m.now token = none

/-- While the session is live, its token is in the index of the user. -/
def Indexed (m : Store T Token) (userId : String) (token : Token) : Prop :=
  ∀ e, lookup m.sessions m.now token = some e → token ∈ smembers m.index m.now userId

/-- The index of the user lives at least as long as the session. -/
def Covered (m : Store T Token) (userId : String) (token : Token) : Prop :=
  ∀ e, lookup m.sessions m.now token = some e →
    ∃ y ∈ e.expiresAt, Outlasts m.index m.now userId y

def Revocation.Done (r : Revocation Token) : Prop :=
  ∀ token ∈ r.earlier, some token ≠ r.keepToken → Gone opts m token

/-- No session lives longer from now than one created now. -/
def Timely (now : ℤ) (e : Entry (StoredSession T)) : Prop :=
  ∃ y ∈ e.expiresAt, y ≤ now + 1000 * opts.ttlSeconds

structure Sound : Prop where
  sessions : ∀ token e, m.sessions token = some e → Drawn opts m token ∧ Timely opts m.now e
  members : ∀ userId, ∀ token ∈ smembers m.index m.now userId, Drawn opts m token
  returned : ∀ r ∈ m.returned, Drawn opts m r.2 ∧ Indexed m r.1 r.2 ∧ Covered m r.1 r.2
  revoked : ∀ r ∈ m.revoked, r.Done opts m

/-- What an operation knows before its next command. -/
def SessionCall.Assertion : SessionCall Token → Prop
  | .sadd _ token => Drawn opts m token
  | .expire userId token => Drawn opts m token ∧ Indexed m userId token
  | .del token userId => ∀ _u ∈ userId, Drawn opts m token
  | .readStored _ token rest expired =>
    (∀ t ∈ token :: rest, Drawn opts m t) ∧ ∀ t ∈ expired, Gone opts m t
  | .delAll doomed r =>
    (∀ t ∈ doomed, Drawn opts m t) ∧
      ∀ t ∈ r.earlier, some t ≠ r.keepToken → Gone opts m t ∨ t ∈ doomed
  | .srem _ tokens revocation =>
    (∀ t ∈ tokens, Gone opts m t) ∧ ∀ r ∈ revocation, r.Done opts m

end Invariant

variable {opts : Options T Token} {m m' : Store T Token} {userId : String} {token : Token}

theorem Gone.not_live {e : Entry (StoredSession T)} (h : Gone opts m token) :
    lookup m.sessions m.now token ≠ some e := by
  rw [get_eq_none.mp h.2]
  simp

theorem drawn_of_get {s : StoredSession T} (hs : Sound opts m)
    (h : get m.sessions m.now token = some s) : Drawn opts m token := by
  obtain ⟨e, he, -⟩ := get_eq_some.mp h
  exact (hs.sessions token e (lookup_eq_some.mp he).1).1

/-- Tokens stay drawn, and a drawn token has no session it did not have. -/
structure Later (opts : Options T Token) (m m' : Store T Token) : Prop where
  drawn : m.drawn ≤ m'.drawn
  sessions : ∀ token, Drawn opts m token → ∀ e, lookup m'.sessions m'.now token = some e →
    lookup m.sessions m.now token = some e

theorem Drawn.later (h : Drawn opts m token) (hle : m.drawn ≤ m'.drawn) :
    Drawn opts m' token := by
  obtain ⟨n, hn, htoken⟩ := h
  exact ⟨n, hn.trans_le hle, htoken⟩

theorem Gone.later (h : Gone opts m token) (hlater : Later opts m m') : Gone opts m' token := by
  refine ⟨h.1.later hlater.drawn, ?_⟩
  rw [get_eq_none]
  refine Option.eq_none_iff_forall_ne_some.mpr fun e he => ?_
  exact h.not_live (hlater.sessions token h.1 e he)

theorem Revocation.Done.later {r : Revocation Token} (h : r.Done opts m)
    (hlater : Later opts m m') : r.Done opts m' :=
  fun t ht hkeep => (h t ht hkeep).later hlater

/-- All an operation knows lasts, if its token stays in the index. -/
theorem SessionCall.Assertion.later {c : SessionCall Token} (h : c.Assertion opts m)
    (hlater : Later opts m m')
    (hstays : ∀ userId token, c = .expire userId token → Drawn opts m token →
      Indexed m userId token → Indexed m' userId token) : c.Assertion opts m' := by
  cases c with
  | sadd userId token => exact Drawn.later h hlater.drawn
  | expire userId token =>
    exact ⟨h.1.later hlater.drawn, hstays userId token rfl h.1 h.2⟩
  | del token userId => exact fun u hu => (h u hu).later hlater.drawn
  | readStored userId token rest expired =>
    exact ⟨fun t ht => (h.1 t ht).later hlater.drawn, fun t ht => (h.2 t ht).later hlater⟩
  | delAll doomed r =>
    refine ⟨fun t ht => (h.1 t ht).later hlater.drawn, fun t ht hkeep => ?_⟩
    rcases h.2 t ht hkeep with hgone | hdoomed
    · exact .inl (hgone.later hlater)
    · exact .inr hdoomed
  | srem userId tokens revocation =>
    exact ⟨fun t ht => (h.1 t ht).later hlater, fun r hr => (h.2 r hr).later hlater⟩

/-- The `GET`s of `list` go on with drawn tokens, and remove those that are gone. -/
theorem assertion_listRest {rest expired : List Token} (hrest : ∀ t ∈ rest, Drawn opts m t)
    (hexpired : ∀ t ∈ expired, Gone opts m t) :
    ∀ c ∈ listRest userId rest expired, c.Assertion opts m := by
  intro c hc
  cases rest with
  | nil =>
    simp only [listRest, indexRemove] at hc
    split_ifs at hc with hnone
    · cases hc
    · obtain rfl := Option.some.inj hc
      exact ⟨hexpired, by simp⟩
  | cons token rest =>
    obtain rfl := Option.some.inj hc
    exact ⟨hrest, hexpired⟩

theorem sound_signedOut (now : ℤ) :
    Sound opts (signedOut now : State (Store T Token) (SessionCall Token)).shared where
  sessions token e he := by cases he
  members userId token htoken := by simp [signedOut, mem_smembers, lookup] at htoken
  returned r hr := by cases hr
  revoked r hr := by cases hr

theorem indexComplete_of_sound (hs : Sound opts m) : m.IndexComplete where
  indexed r hr hlive := by
    obtain ⟨value, hget⟩ := Option.isSome_iff_exists.mp hlive
    obtain ⟨e, he, -⟩ := get_eq_some.mp hget
    exact (hs.returned r hr).2.1 e he
  revoked r hr token htoken hkeep := (hs.revoked r hr token htoken hkeep).2

section Time

variable {later : ℤ}

theorem later_tick (hle : m.now ≤ later) : Later opts m { m with now := later } where
  drawn := le_rfl
  sessions _ _ _ he := lookup_anti hle he

/-- An index that outlives the session still has its token when the session is live. -/
theorem indexed_tick (hle : m.now ≤ later) (hindexed : Indexed m userId token)
    (hcovered : Covered m userId token) : Indexed { m with now := later } userId token := by
  intro e he
  have hlive := lookup_anti hle he
  obtain ⟨y, hy, hlasts⟩ := hcovered e hlive
  have hlate : later ≤ y := live_iff.mp (lookup_eq_some.mp he).2 y hy
  exact hlasts.mem_smembers hlate (hindexed e hlive)

theorem covered_tick (hle : m.now ≤ later) (h : Covered m userId token) :
    Covered { m with now := later } userId token := by
  intro e he
  obtain ⟨y, hy, hlasts⟩ := h e (lookup_anti hle he)
  exact ⟨y, hy, hlasts.anti hle⟩

theorem sound_tick (hs : Sound opts m) (hle : m.now ≤ later) :
    Sound opts { m with now := later } where
  sessions token e he := by
    obtain ⟨hdrawn, y, hy, htimely⟩ := hs.sessions token e he
    exact ⟨hdrawn, y, hy, by dsimp only; omega⟩
  members userId token htoken := hs.members userId token (mem_smembers_anti hle htoken)
  returned r hr := by
    obtain ⟨hdrawn, hindexed, hcovered⟩ := hs.returned r hr
    exact ⟨hdrawn, indexed_tick hle hindexed hcovered, covered_tick hle hcovered⟩
  revoked r hr := (hs.revoked r hr).later (later_tick hle)

theorem keeps_tick (hs : Sound opts m) (hle : m.now ≤ later) {others : List (SessionCall Token)}
    (hspared : ∀ c ∈ others, c.Spared m later) :
    Keeps (Sound opts) (fun m c => c.Assertion opts m) m others
      ({ m with now := later }, none) where
  shared := sound_tick hs hle
  moved := by simp
  others c hmem hc := by
    refine hc.later (later_tick hle) ?_
    rintro userId token rfl htoken hindexed e he
    have hlive := lookup_anti hle he
    exact hspared _ hmem (Option.isSome_iff_exists.mpr ⟨e.value, get_eq_some.mpr ⟨e, he, rfl⟩⟩)
      (hindexed e hlive)

end Time

/-- All that one command does to the store. -/
structure Command (opts : Options T Token) (m m' : Store T Token) : Prop where
  now : m'.now = m.now
  drawn : m.drawn ≤ m'.drawn
  sessions : ∀ token e, m'.sessions token = some e → m.sessions token = some e ∨
    (¬Drawn opts m token ∧ Drawn opts m' token ∧ Timely opts m.now e)
  entered : ∀ userId, ∀ token ∈ smembers m'.index m.now userId,
    token ∈ smembers m.index m.now userId ∨ Drawn opts m' token
  stays : ∀ userId, ∀ token ∈ smembers m.index m.now userId,
    token ∈ smembers m'.index m.now userId ∨ Gone opts m token
  outlasts : ∀ userId y, y ≤ m.now + 1000 * opts.ttlSeconds →
    Outlasts m.index m.now userId y → Outlasts m'.index m.now userId y
  returned : ∀ r ∈ m'.returned, r ∈ m.returned ∨
    (Drawn opts m' r.2 ∧ Indexed m' r.1 r.2 ∧ Covered m' r.1 r.2)
  revoked : ∀ r ∈ m'.revoked, r ∈ m.revoked ∨ r.Done opts m'

theorem Command.later (h : Command opts m m') : Later opts m m' where
  drawn := h.drawn
  sessions token htoken e he := by
    rw [h.now, lookup_eq_some] at he
    rw [lookup_eq_some]
    rcases h.sessions token e he.1 with hold | ⟨hnew, -⟩
    · exact ⟨hold, he.2⟩
    · exact absurd htoken hnew

theorem Indexed.command (h : Indexed m userId token) (htoken : Drawn opts m token)
    (hcommand : Command opts m m') : Indexed m' userId token := by
  intro e he
  have hlive := hcommand.later.sessions token htoken e he
  rw [hcommand.now]
  rcases hcommand.stays userId token (h e hlive) with hstays | hgone
  · exact hstays
  · exact absurd hlive hgone.not_live

theorem Covered.command (h : Covered m userId token) (htoken : Drawn opts m token)
    (hs : Sound opts m) (hcommand : Command opts m m') : Covered m' userId token := by
  intro e he
  have hlive := hcommand.later.sessions token htoken e he
  obtain ⟨y, hy, hlasts⟩ := h e hlive
  obtain ⟨-, y', hy', hle⟩ := hs.sessions token e (lookup_eq_some.mp hlive).1
  obtain rfl := Option.mem_unique hy hy'
  refine ⟨y, hy, ?_⟩
  rw [hcommand.now]
  exact hcommand.outlasts userId y hle hlasts

theorem sound_command (hs : Sound opts m) (h : Command opts m m') : Sound opts m' where
  sessions token e he := by
    rw [h.now]
    rcases h.sessions token e he with hold | ⟨-, hdrawn, htimely⟩
    · exact ⟨(hs.sessions token e hold).1.later h.drawn, (hs.sessions token e hold).2⟩
    · exact ⟨hdrawn, htimely⟩
  members userId token htoken := by
    rw [h.now] at htoken
    rcases h.entered userId token htoken with hold | hdrawn
    · exact (hs.members userId token hold).later h.drawn
    · exact hdrawn
  returned r hr := by
    rcases h.returned r hr with hold | hnew
    · obtain ⟨hdrawn, hindexed, hcovered⟩ := hs.returned r hold
      exact ⟨hdrawn.later h.drawn, hindexed.command hdrawn h, hcovered.command hdrawn hs h⟩
    · exact hnew
  revoked r hr := by
    rcases h.revoked r hr with hold | hdone
    · exact (hs.revoked r hold).later h.later
    · exact hdone

/-- A command with what its own operation knows afterwards is all a step has to show. -/
theorem keeps_of_command {next : Store T Token × Option (SessionCall Token)}
    {others : List (SessionCall Token)} (hs : Sound opts m) (h : Command opts m next.1)
    (hnext : ∀ c ∈ next.2, c.Assertion opts next.1) :
    Keeps (Sound opts) (fun m c => c.Assertion opts m) m others next where
  shared := sound_command hs h
  moved := hnext
  others _ _ hc := hc.later h.later fun _ _ _ htoken hindexed => hindexed.command htoken h

theorem Command.refl (m : Store T Token) : Command opts m m where
  now := rfl
  drawn := le_rfl
  sessions _ _ he := .inl he
  entered _ _ ht := .inl ht
  stays _ _ ht := .inl ht
  outlasts _ _ _ h := h
  returned _ hr := .inl hr
  revoked _ hr := .inl hr

theorem command_expire (hs : Sound opts m) (htoken : Drawn opts m token)
    (hindexed : Indexed m userId token) :
    Command opts m { m with
      index := expire m.index m.now userId opts.ttlSeconds
      returned := m.returned ++ [(userId, token)] } where
  now := rfl
  drawn := le_rfl
  sessions _ _ he := .inl he
  entered _ _ ht := .inl ((mem_smembers_expire (by omega)).mp ht)
  stays _ _ ht := .inl ((mem_smembers_expire (by omega)).mpr ht)
  outlasts _ _ hle h := h.expire (by omega) hle
  returned r hr := by
    rcases List.mem_append.mp hr with hold | hnew
    · exact .inl hold
    · obtain rfl := List.mem_singleton.mp hnew
      refine .inr ⟨htoken, fun e he => (mem_smembers_expire (by omega)).mpr (hindexed e he),
        fun e he => ?_⟩
      obtain ⟨-, y, hy, hle⟩ := hs.sessions token e (lookup_eq_some.mp he).1
      refine ⟨y, hy, fun i hi x hx => ?_⟩
      have hlate := outlasts_expire_self (by omega) i hi x hx
      omega
  revoked _ hr := .inl hr

theorem command_revoked {r : Revocation Token} (hdone : r.Done opts m) :
    Command opts m { m with revoked := m.revoked ++ [r] } where
  now := rfl
  drawn := le_rfl
  sessions _ _ he := .inl he
  entered _ _ ht := .inl ht
  stays _ _ ht := .inl ht
  outlasts _ _ _ h := h
  returned _ hr := .inl hr
  revoked r' hr := by
    rcases List.mem_append.mp hr with hold | hnew
    · exact .inl hold
    · obtain rfl := List.mem_singleton.mp hnew
      exact .inr hdone

variable [DecidableEq Token]

theorem command_set (m : Store T Token) (identity : T) (context : SessionContext) :
    Command opts m { m with
      drawn := m.drawn + 1
      sessions := setEx m.sessions m.now (opts.randomToken m.drawn)
        ⟨identity, m.now, context⟩ opts.ttlSeconds } where
  now := rfl
  drawn := Nat.le_succ _
  sessions token e he := by
    by_cases hnew : token = opts.randomToken m.drawn
    · subst hnew
      simp only [setEx, Function.update_self] at he
      obtain rfl := Option.some.inj he
      refine .inr ⟨?_, ⟨m.drawn, Nat.lt_succ_self _, rfl⟩, ⟨_, rfl, le_rfl⟩⟩
      rintro ⟨n, hn, htoken⟩
      have heq : n = m.drawn := opts.distinct htoken
      omega
    · simp only [setEx, Function.update_of_ne hnew] at he
      exact .inl he
  entered _ _ ht := .inl ht
  stays _ _ ht := .inl ht
  outlasts _ _ _ h := h
  returned r hr := .inl hr
  revoked r hr := .inl hr

theorem command_del (m : Store T Token) (doomed : List Token) :
    Command opts m { m with sessions := del m.sessions doomed } where
  now := rfl
  drawn := le_rfl
  sessions token e he := by
    simp only [del] at he
    split_ifs at he
    exact .inl he
  entered _ _ ht := .inl ht
  stays _ _ ht := .inl ht
  outlasts _ _ _ h := h
  returned _ hr := .inl hr
  revoked _ hr := .inl hr

theorem command_sadd (userId : String) (htoken : Drawn opts m token) :
    Command opts m { m with index := sadd m.index m.now userId token } where
  now := rfl
  drawn := le_rfl
  sessions _ _ he := .inl he
  entered userId' t ht := by
    rcases mem_smembers_sadd.mp ht with hold | ⟨-, rfl⟩
    · exact .inl hold
    · exact .inr htoken
  stays userId' t ht := .inl (mem_smembers_sadd.mpr (.inl ht))
  outlasts _ _ _ h := h.sadd
  returned _ hr := .inl hr
  revoked _ hr := .inl hr

theorem command_srem (userId : String) {tokens : List Token}
    {revocation : Option (Revocation Token)} (hgone : ∀ t ∈ tokens, Gone opts m t)
    (hdone : ∀ r ∈ revocation, r.Done opts m) :
    Command opts m { m with
      index := srem m.index m.now userId tokens
      revoked := m.revoked ++ revocation.toList } where
  now := rfl
  drawn := le_rfl
  sessions _ _ he := .inl he
  entered _ _ ht := .inl (mem_smembers_srem.mp ht).1
  stays userId' t ht := by
    by_cases hremoved : t ∈ tokens
    · exact .inr (hgone t hremoved)
    · exact .inl (mem_smembers_srem.mpr ⟨ht, fun h => hremoved h.2⟩)
  outlasts _ _ _ h := h.srem
  returned _ hr := .inl hr
  revoked r hr := by
    rcases List.mem_append.mp hr with hold | hnew
    · exact .inl hold
    · exact .inr (hdone r (Option.mem_toList.mp hnew))

theorem gone_del {doomed : List Token} (htoken : Drawn opts m token) (hdoomed : token ∈ doomed) :
    Gone opts { m with sessions := del m.sessions doomed } token := by
  refine ⟨htoken, get_eq_none.mpr ?_⟩
  refine Option.eq_none_iff_forall_ne_some.mpr fun e he => ?_
  exact (lookup_del_eq_some.mp he).2 hdoomed

theorem keeps_start (hs : Sound opts m) (others : List (SessionCall Token))
    (request : SessionRequest T Token) :
    Keeps (Sound opts) (fun m c => c.Assertion opts m) m others
      (startSession opts m request) := by
  cases request with
  | create userId identity context =>
    refine keeps_of_command hs (command_set m identity context) fun c hc => ?_
    obtain rfl := Option.some.inj hc
    exact ⟨m.drawn, Nat.lt_succ_self _, rfl⟩
  | destroy token =>
    refine keeps_of_command hs (Command.refl m) fun c hc => ?_
    obtain rfl := Option.some.inj hc
    intro u hu
    obtain ⟨s, hget, -⟩ := Option.map_eq_some_iff.mp hu
    exact drawn_of_get hs hget
  | list userId =>
    exact keeps_of_command hs (Command.refl m)
      (assertion_listRest (hs.members userId) (by simp))
  | revokeOthers userId keepToken =>
    -- every session created before is over, or its token is among the members
    have hearlier : ∀ t ∈ (m.returned.filter fun r => r.1 = userId).map Prod.snd,
        some t ≠ keepToken → Gone opts m t ∨
          t ∈ (smembers m.index m.now userId).filter fun t => some t ≠ keepToken := by
      intro t ht hkeep
      obtain ⟨r, hr, rfl⟩ := List.mem_map.mp ht
      obtain ⟨hmem, huser⟩ := List.mem_filter.mp hr
      obtain ⟨hdrawn, hindexed, -⟩ := hs.returned r hmem
      obtain rfl := of_decide_eq_true huser
      cases hlive : lookup m.sessions m.now r.2 with
      | none => exact .inl ⟨hdrawn, get_eq_none.mpr hlive⟩
      | some e => exact .inr (List.mem_filter.mpr ⟨hindexed e hlive, by simpa using hkeep⟩)
    simp only [startSession]
    split_ifs with hnone
    · refine keeps_of_command hs (command_revoked fun t ht hkeep => ?_) (by simp)
      rcases hearlier t ht hkeep with hgone | hdoomed
      · exact hgone
      · rw [hnone] at hdoomed
        cases hdoomed
    · refine keeps_of_command hs (Command.refl m) fun c hc => ?_
      obtain rfl := Option.some.inj hc
      exact ⟨fun t ht => hs.members userId t (List.mem_filter.mp ht).1, hearlier⟩

theorem keeps_resume (hs : Sound opts m) (others : List (SessionCall Token))
    {c : SessionCall Token} (hc : c.Assertion opts m) :
    Keeps (Sound opts) (fun m c => c.Assertion opts m) m others (resumeSession opts m c ()) := by
  cases c with
  | sadd userId token =>
    refine keeps_of_command hs (command_sadd userId hc) fun c' hc' => ?_
    obtain rfl := Option.some.inj hc'
    exact ⟨hc, fun e he => mem_smembers_sadd.mpr (.inr ⟨rfl, rfl⟩)⟩
  | expire userId token =>
    exact keeps_of_command hs (command_expire hs hc.1 hc.2) (by simp [resumeSession])
  | del token userId =>
    refine keeps_of_command hs (command_del m [token]) fun c' hc' => ?_
    obtain ⟨u, hu, hrest⟩ := Option.bind_eq_some_iff.mp hc'
    obtain rfl := Option.some.inj hrest
    refine ⟨fun t ht => ?_, by simp⟩
    obtain rfl := List.mem_singleton.mp ht
    exact gone_del (hc u hu) ht
  | readStored userId token rest expired =>
    have hrest : ∀ t ∈ rest, Drawn opts m t := fun t ht => hc.1 t (List.mem_cons_of_mem _ ht)
    simp only [resumeSession]
    split
    next hnone =>
      refine keeps_of_command hs (Command.refl m) (assertion_listRest hrest fun t ht => ?_)
      rcases List.mem_append.mp ht with hold | hnew
      · exact hc.2 t hold
      · obtain rfl := List.mem_singleton.mp hnew
        exact ⟨hc.1 t List.mem_cons_self, hnone⟩
    next => exact keeps_of_command hs (Command.refl m) (assertion_listRest hrest hc.2)
  | delAll doomed r =>
    have hcommand : Command opts m { m with sessions := del m.sessions doomed } :=
      command_del m doomed
    refine keeps_of_command hs hcommand fun c' hc' => ?_
    obtain rfl := Option.some.inj hc'
    refine ⟨fun t ht => gone_del (hc.1 t ht) ht, fun r' hr' => ?_⟩
    obtain rfl := Option.some.inj hr'
    intro t ht hkeep
    rcases hc.2 t ht hkeep with hgone | hdoomed
    · exact hgone.later hcommand.later
    · exact gone_del (hc.1 t hdoomed) hdoomed
  | srem userId tokens revocation =>
    exact keeps_of_command hs (command_srem userId hc.1 hc.2) (by simp [resumeSession])

section Run

variable {s : State (Store T Token) (SessionCall Token)}
  {a : Action (SessionRequest T Token) Unit ℕ}

theorem stepKeeps_spared (hs : Holds (Sound opts) (fun m c => c.Assertion opts m) s)
    (hspared : IndexSpared s a) :
    StepKeeps (sessionStore opts) (Sound opts) (fun m c => c.Assertion opts m) s a := by
  cases a with
  | start request => exact keeps_start hs.shared s.calls request
  | advance i answer =>
    intro c hc
    exact keeps_resume hs.shared _ (hs.calls c (List.mem_of_getElem? hc))
  | environment milliseconds => exact keeps_tick hs.shared (by omega) hspared

/-- Over all interleavings of the commands of creations, sign-outs, lists and revocations of
any users, with time passing anywhere but past the end of an index between the `SADD` and the
`EXPIRE` of a `create`: the index of a user has every live session whose `create` returned, and
a revocation leaves none of the sessions created before it but the one to keep. -/
theorem index_complete_spared (now : ℤ) (as : List (Action (SessionRequest T Token) Unit ℕ))
    (hspared : Guarded (sessionStore opts).step IndexSpared (signedOut now) as) :
    Throughout (sessionStore opts).step (fun s => s.shared.IndexComplete) (signedOut now) as := by
  have hstart : Holds (Sound opts) (fun m c => c.Assertion opts m)
      (signedOut now : State (Store T Token) (SessionCall Token)) :=
    ⟨sound_signedOut now, by simp [signedOut]⟩
  have hrun := throughout_holds (fun _ _ hs ha => stepKeeps_spared hs ha) hstart hspared
  exact hrun.mono fun s hs => indexComplete_of_sound hs.shared

end Run

/-- Identities are user ids, tokens are numbers, and a session lives a minute. -/
def minuteSessions : Options String ℕ := ⟨id, 60, id, Function.injective_id⟩

def browser : SessionContext := ⟨some "192.0.2.7", none⟩

/-- Two sign-ins half a minute apart, and a revocation from the second. -/
def revokedFirst : List (Action (SessionRequest String ℕ) Unit ℕ) :=
  [.start (.create "ada" "ada" browser), .advance 0 (), .advance 0 (), .environment 30000,
    .start (.create "ada" "ada" browser), .advance 0 (), .environment 20000, .advance 0 (),
    .start (.revokeOthers "ada" (some 1)), .advance 0 (), .environment 10000, .advance 0 ()]

theorem index_complete_revokedFirst :
    (exec (sessionStore minuteSessions).step (signedOut 0) revokedFirst).map
      (fun s => s.shared.revoked) = some [⟨"ada", some 1, [0, 1]⟩] ∧
    Throughout (sessionStore minuteSessions).step (fun s => s.shared.IndexComplete) (signedOut 0)
      revokedFirst :=
  ⟨by decide +kernel, index_complete_spared 0 revokedFirst (by decide +kernel)⟩

/-- The second sign-in puts its token in an index that ends a millisecond later. -/
def indexedLate : List (Action (SessionRequest String ℕ) Unit ℕ) :=
  [.start (.create "ada" "ada" browser), .advance 0 (), .advance 0 (), .environment 60000,
    .start (.create "ada" "ada" browser), .advance 0 (), .environment 1, .advance 0 (),
    .start (.revokeOthers "ada" none)]

/-- The index runs out before `EXPIRE`: the second session is live and in no index, and a
revocation of all sessions leaves it. -/
theorem session_outside_index :
    ¬Throughout (sessionStore minuteSessions).step (fun s => s.shared.IndexComplete)
      (signedOut 0) indexedLate := by
  have hend : (exec (sessionStore minuteSessions).step (signedOut 0) indexedLate).map
      (fun s => (s.shared.revoked, (get s.shared.sessions s.shared.now 1).isSome)) =
        some ([⟨"ada", none, [0, 1]⟩], true) := by
    decide +kernel
  intro h
  obtain ⟨s, hs, hfacts⟩ := Option.map_eq_some_iff.mp hend
  have hrevoked : s.shared.revoked = [⟨"ada", none, [0, 1]⟩] := congrArg Prod.fst hfacts
  have hlive : (get s.shared.sessions s.shared.now 1).isSome = true := congrArg Prod.snd hfacts
  have hover := (h.exec hs).revoked _ (hrevoked ▸ List.mem_singleton_self _) 1 (by simp) (by simp)
  rw [hover] at hlive
  cases hlive

end HeirsOcr.SessionStore

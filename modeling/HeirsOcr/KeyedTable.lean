import Mathlib.Data.List.Nodup
import Mathlib.Tactic

/-!
# Tables with a primary key

A table is a list of rows whose keys are distinct. The operations are the SQL
statements a store issues: `UPDATE … WHERE`, `DELETE … WHERE`, `INSERT` and
`INSERT … ON CONFLICT (key) DO UPDATE`. Each is one atomic function, and each has
a lemma that says what a lookup by key, or membership, gives afterwards.
-/
namespace HeirsOcr.KeyedTable

/-- Rows with pairwise different keys. -/
structure Table {ρ κ : Type*} (key : ρ → κ) where
  rows : List ρ
  nodup : (rows.map key).Nodup

variable {ρ κ : Type*} {key : ρ → κ}

namespace Table

instance : EmptyCollection (Table key) := ⟨⟨[], by simp⟩⟩

instance : Membership ρ (Table key) := ⟨fun t r => r ∈ t.rows⟩

theorem mem_def {t : Table key} {r : ρ} : r ∈ t ↔ r ∈ t.rows := Iff.rfl

/-- Two rows with one key are one row. -/
theorem eq_of_key_eq {t : Table key} {r r' : ρ} (hr : r ∈ t) (hr' : r' ∈ t)
    (h : key r = key r') : r = r' :=
  List.inj_on_of_nodup_map t.nodup hr hr' h

/-- `UPDATE … SET f WHERE p`, for a statement that leaves the key column alone. -/
def update (t : Table key) (p : ρ → Bool) (f : ρ → ρ) (hf : ∀ r, key (f r) = key r) :
    Table key where
  rows := t.rows.map fun r => if p r then f r else r
  nodup := by
    have h : (key ∘ fun r => if p r then f r else r) = key := by
      funext r
      by_cases hp : p r <;> simp [hp, hf]
    simpa only [List.map_map, h] using t.nodup

/-- `DELETE … WHERE p`. -/
def delete (t : Table key) (p : ρ → Bool) : Table key where
  rows := t.rows.filter fun r => !p r
  nodup := (List.filter_sublist.map key).nodup t.nodup

theorem mem_update {t : Table key} {p : ρ → Bool} {f : ρ → ρ} {hf : ∀ r, key (f r) = key r}
    {r : ρ} : r ∈ t.update p f hf ↔ ∃ r₀ ∈ t, (if p r₀ then f r₀ else r₀) = r := by
  simp only [mem_def, update, List.mem_map]

theorem mem_delete {t : Table key} {p : ρ → Bool} {r : ρ} :
    r ∈ t.delete p ↔ r ∈ t ∧ p r = false := by
  simp [mem_def, delete]

/-- Of two rows with a property one has another key. -/
theorem exists_ne_of_two_le_countP {t : Table key} {p : ρ → Bool} (h : 2 ≤ t.rows.countP p)
    (k : κ) : ∃ r ∈ t, p r ∧ key r ≠ k := by
  by_contra hnone
  push Not at hnone
  have hall : ∀ k' ∈ (t.rows.filter p).map key, k' = k := by
    intro k' hk'
    obtain ⟨r, hr, rfl⟩ := List.mem_map.mp hk'
    obtain ⟨hmem, hp⟩ := List.mem_filter.mp hr
    exact hnone r hmem hp
  have hnodup : ((t.rows.filter p).map key).Nodup :=
    (List.filter_sublist.map key).nodup t.nodup
  rw [List.eq_replicate_of_mem hall, List.nodup_replicate, List.length_map,
    ← List.countP_eq_length_filter] at hnodup
  omega

section Lookup

variable [DecidableEq κ]

/-- `SELECT … WHERE key = k`. -/
def find? (t : Table key) (k : κ) : Option ρ := t.rows.find? fun r => key r = k

theorem find?_eq_some {t : Table key} {k : κ} {r : ρ} :
    t.find? k = some r ↔ r ∈ t ∧ key r = k := by
  constructor
  · intro h
    exact ⟨List.mem_of_find?_eq_some h, by simpa using List.find?_some h⟩
  · rintro ⟨hr, rfl⟩
    cases h : t.find? (key r) with
    | none =>
      have hne := List.find?_eq_none.mp h r hr
      simp at hne
    | some r' =>
      have hk : key r' = key r := by simpa using List.find?_some h
      rw [eq_of_key_eq (List.mem_of_find?_eq_some h) hr hk]

theorem find?_eq_none {t : Table key} {k : κ} : t.find? k = none ↔ ∀ r ∈ t, key r ≠ k := by
  simp [find?, List.find?_eq_none, mem_def]

theorem mem_of_find? {t : Table key} {k : κ} {r : ρ} (h : t.find? k = some r) : r ∈ t :=
  (find?_eq_some.mp h).1

theorem key_of_find? {t : Table key} {k : κ} {r : ρ} (h : t.find? k = some r) : key r = k :=
  (find?_eq_some.mp h).2

theorem find?_key {t : Table key} {r : ρ} (h : r ∈ t) : t.find? (key r) = some r :=
  find?_eq_some.mpr ⟨h, rfl⟩

@[simp] theorem find?_update (t : Table key) (p : ρ → Bool) (f : ρ → ρ)
    (hf : ∀ r, key (f r) = key r) (k : κ) :
    (t.update p f hf).find? k = (t.find? k).map fun r => if p r then f r else r := by
  cases h : t.find? k with
  | none =>
    rw [Option.map_none, find?_eq_none]
    intro r hr
    obtain ⟨r₀, h₀, rfl⟩ := mem_update.mp hr
    have hk := find?_eq_none.mp h r₀ h₀
    split_ifs <;> simp [hf, hk]
  | some r =>
    obtain ⟨hr, rfl⟩ := find?_eq_some.mp h
    rw [Option.map_some, find?_eq_some]
    refine ⟨mem_update.mpr ⟨r, hr, rfl⟩, ?_⟩
    split_ifs <;> simp [hf]

@[simp] theorem find?_delete (t : Table key) (p : ρ → Bool) (k : κ) :
    (t.delete p).find? k = (t.find? k).filter fun r => !p r := by
  cases h : t.find? k with
  | none =>
    rw [Option.filter_none, find?_eq_none]
    exact fun r hr => find?_eq_none.mp h r (mem_delete.mp hr).1
  | some r =>
    obtain ⟨hr, rfl⟩ := find?_eq_some.mp h
    cases hp : p r with
    | false =>
      rw [Option.filter_some_pos (by simp [hp])]
      exact find?_eq_some.mpr ⟨mem_delete.mpr ⟨hr, hp⟩, rfl⟩
    | true =>
      rw [Option.filter_some_neg (by simp [hp]), find?_eq_none]
      intro r' hr' hk
      obtain ⟨hr', hp'⟩ := mem_delete.mp hr'
      rw [eq_of_key_eq hr' hr hk, hp] at hp'
      cases hp'

/-- `INSERT`; `none` when the key is taken. -/
def insert (t : Table key) (r : ρ) : Option (Table key) :=
  if h : t.find? (key r) = none then
    some {
      rows := t.rows ++ [r]
      nodup := by
        rw [List.map_append, List.map_singleton, ← List.concat_eq_append, List.nodup_concat]
        refine ⟨?_, t.nodup⟩
        intro hk
        obtain ⟨r', hr', he⟩ := List.mem_map.mp hk
        exact find?_eq_none.mp h r' hr' he }
  else none

/-- `INSERT … ON CONFLICT (key) DO UPDATE SET merge`; `merge old new` keeps the key. -/
def upsert (t : Table key) (r : ρ) (merge : ρ → ρ → ρ)
    (hm : ∀ old, key (merge old r) = key old) : Table key :=
  match t.insert r with
  | some t' => t'
  | none => t.update (fun old => key old = key r) (fun old => merge old r) hm

theorem insert_eq_some {t t' : Table key} {r : ρ} (h : t.insert r = some t') :
    t.find? (key r) = none ∧ t'.rows = t.rows ++ [r] := by
  unfold insert at h
  split at h
  · rename_i hn
    cases h
    exact ⟨hn, rfl⟩
  · cases h

theorem insert_eq_none {t : Table key} {r : ρ} :
    t.insert r = none ↔ ∃ r', t.find? (key r) = some r' := by
  unfold insert
  split
  · rename_i hn
    simp [hn]
  · rename_i hn
    simpa using Option.ne_none_iff_exists'.mp hn

theorem mem_insert {t t' : Table key} {r x : ρ} (h : t.insert r = some t') :
    x ∈ t' ↔ x ∈ t ∨ x = r := by
  simp [mem_def, (insert_eq_some h).2]

theorem find?_insert {t t' : Table key} {r : ρ} (h : t.insert r = some t') (k : κ) :
    t'.find? k = if key r = k then some r else t.find? k := by
  have hr : r ∈ t' := (mem_insert h).mpr (Or.inr rfl)
  split_ifs with hk
  · exact find?_eq_some.mpr ⟨hr, hk⟩
  · cases hf : t.find? k with
    | some x =>
      obtain ⟨hx, hkx⟩ := find?_eq_some.mp hf
      exact find?_eq_some.mpr ⟨(mem_insert h).mpr (Or.inl hx), hkx⟩
    | none =>
      rw [find?_eq_none]
      intro x hx
      rcases (mem_insert h).mp hx with hx | rfl
      · exact find?_eq_none.mp hf x hx
      · exact hk

/-- After an upsert the key's row is the merged or the new one; other keys keep theirs. -/
theorem find?_upsert (t : Table key) (r : ρ) (merge : ρ → ρ → ρ)
    (hm : ∀ old, key (merge old r) = key old) (k : κ) :
    (t.upsert r merge hm).find? k =
      if key r = k then some ((t.find? k).elim r fun old => merge old r) else t.find? k := by
  unfold upsert
  cases h : t.insert r with
  | some t' =>
    rw [find?_insert h k]
    split_ifs with hk
    · subst hk
      simp [(insert_eq_some h).1]
    · rfl
  | none =>
    obtain ⟨old, ho⟩ := insert_eq_none.mp h
    simp only [find?_update, decide_eq_true_eq]
    split_ifs with hk
    · subst hk
      simp [ho, key_of_find? ho]
    · cases hf : t.find? k with
      | none => rfl
      | some x =>
        have hx : ¬ key x = key r := by rw [key_of_find? hf]; exact Ne.symm hk
        simp [hx]

/-- Rows of an upserted table: old ones with another key, or the row of the key itself. -/
theorem mem_upsert {t : Table key} {r x : ρ} {merge : ρ → ρ → ρ}
    {hm : ∀ old, key (merge old r) = key old} (hx : x ∈ t.upsert r merge hm) :
    x ∈ t ∧ key x ≠ key r ∨ x = (t.find? (key r)).elim r fun old => merge old r := by
  have hf := find?_key hx
  rw [find?_upsert] at hf
  split_ifs at hf with hk
  · right
    rw [← hk] at hf
    exact (Option.some.inj hf).symm
  · exact Or.inl ⟨mem_of_find? hf, Ne.symm hk⟩

end Lookup

end Table

end HeirsOcr.KeyedTable

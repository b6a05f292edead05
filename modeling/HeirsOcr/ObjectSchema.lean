import HeirsOcr.JsRecord
import Mathlib.Data.List.Forall2

/-!
# Schemas of objects

A validator takes an object by its shape: it parses what is under each key of the shape, strips
the other keys, and answers with an object in the order of the shape. An object that was put
together entry by entry beside its shape, with a value each type takes as it is, comes out of
that shape as it went in, however often a key came.
-/
namespace HeirsOcr.ObjectSchema
open JsRecord KeyedTable

variable {τ ν : Type*}

/-- What a shape makes of an object; `parse` sees none for a key that is not there. -/
def parseObject (parse : τ → Option ν → Option ν) (shape : Record τ) (o : Record ν) :
    Option (Record ν) :=
  (shape.rows.mapM fun entry =>
    (parse entry.2 (get o entry.1)).map fun value => (entry.1, value)).map fromEntries

theorem rows_set_of_mem {o : Record ν} {key : String} (h : key ∈ o.rows.map Prod.fst) (value : ν) :
    (JsRecord.set o key value).rows =
      o.rows.map fun e => if e.1 = key then (e.1, value) else e := by
  obtain ⟨e, hmem, hkey⟩ := List.mem_map.mp h
  have hsome : o.insert (key, value) = none := by
    rw [Table.insert_eq_none]
    exact ⟨e, Table.find?_eq_some.mpr ⟨hmem, hkey⟩⟩
  simp [JsRecord.set, Table.upsert, hsome, Table.update]

theorem rows_set_of_not_mem {o : Record ν} {key : String} (h : key ∉ o.rows.map Prod.fst)
    (value : ν) : (JsRecord.set o key value).rows = o.rows ++ [(key, value)] := by
  rw [JsRecord.set, Table.upsert]
  cases hinsert : o.insert (key, value) with
  | none =>
    obtain ⟨e, hfind⟩ := Table.insert_eq_none.mp hinsert
    obtain ⟨hmem, hkey⟩ := Table.find?_eq_some.mp hfind
    exact absurd (List.mem_map.mpr ⟨e, hmem, hkey⟩) h
  | some o' => exact (Table.insert_eq_some hinsert).2

/-- Entries with a key each are the rows of their record. -/
theorem rows_fromEntries {entries : List (String × ν)} (h : (entries.map Prod.fst).Nodup) :
    (fromEntries entries).rows = entries := by
  induction entries using List.reverseRecOn with
  | nil => rfl
  | append_singleton rest entry ih =>
    rw [List.map_append, List.nodup_append] at h
    have hrest := ih h.1
    have hnew : entry.1 ∉ (fromEntries rest).rows.map Prod.fst := by
      rw [hrest]
      exact fun hmem => h.2.2 _ hmem entry.1 (by simp) rfl
    have hset := rows_set_of_not_mem hnew entry.2
    rw [hrest] at hset
    rw [fromEntries, List.foldl_append]
    exact hset

theorem fromEntries_rows (o : Record ν) : fromEntries o.rows = o := by
  have hrows := rows_fromEntries o.nodup
  cases hfrom : fromEntries o.rows with
  | mk rows nodup =>
    rw [hfrom] at hrows
    cases o
    simpa using hrows

/-- A shape and an object with the same keys in the same order, each with a value that its type
takes as it is. -/
def Fits (parse : τ → Option ν → Option ν) (shape : Record τ) (o : Record ν) : Prop :=
  List.Forall₂ (fun s v => s.1 = v.1 ∧ parse s.2 (some v.2) = some v.2) shape.rows o.rows

variable {parse : τ → Option ν → Option ν} {shape : Record τ} {o : Record ν}

theorem Fits.keys (h : Fits parse shape o) : shape.rows.map Prod.fst = o.rows.map Prod.fst := by
  rw [← List.forall₂_eq_eq_eq, List.forall₂_map_left_iff, List.forall₂_map_right_iff]
  exact h.imp fun _ _ hpair => hpair.1

/-- To set a key of both keeps them alike. -/
theorem Fits.set (h : Fits parse shape o) (key : String) {type : τ} {value : ν}
    (hvalue : parse type (some value) = some value) :
    Fits parse (JsRecord.set shape key type) (JsRecord.set o key value) := by
  by_cases hmem : key ∈ shape.rows.map Prod.fst
  · rw [Fits, rows_set_of_mem hmem, rows_set_of_mem (h.keys ▸ hmem), List.forall₂_map_left_iff,
      List.forall₂_map_right_iff]
    refine h.imp fun s v hpair => ?_
    by_cases hkey : s.1 = key
    · rw [if_pos hkey, if_pos (hpair.1 ▸ hkey)]
      exact ⟨hpair.1, hvalue⟩
    · rw [if_neg hkey, if_neg (hpair.1 ▸ hkey)]
      exact hpair
  · rw [Fits, rows_set_of_not_mem hmem, rows_set_of_not_mem (h.keys ▸ hmem)]
    exact List.rel_append h (.cons ⟨rfl, hvalue⟩ .nil)

/-- A shape and an object made of the same entries. -/
theorem fits_fromEntries {entries : List (String × τ × ν)}
    (h : ∀ entry ∈ entries, parse entry.2.1 (some entry.2.2) = some entry.2.2) :
    Fits parse (fromEntries (entries.map fun e => (e.1, e.2.1)))
      (fromEntries (entries.map fun e => (e.1, e.2.2))) := by
  induction entries using List.reverseRecOn with
  | nil => exact .nil
  | append_singleton rest entry ih =>
    have hrest := ih fun e he => h e (List.mem_append_left _ he)
    simp only [fromEntries, List.map_append, List.map_singleton, List.foldl_append,
      List.foldl_cons, List.foldl_nil] at hrest ⊢
    exact hrest.set entry.1 (h entry (by simp))

theorem mapM_of_forall₂ {β γ : Type*} {f : β → Option γ} {l : List β} {l' : List γ}
    (h : List.Forall₂ (fun b c => f b = some c) l l') : l.mapM f = some l' := by
  induction h with
  | nil => rfl
  | cons hfirst _ ih => simp [List.mapM_cons, hfirst, ih]

/-- What fits comes out as it went in. -/
theorem Fits.parseObject (h : Fits parse shape o) : parseObject parse shape o = some o := by
  have hget : ∀ v ∈ o.rows, get o v.1 = some v.2 := fun v hv => get_eq_some.mpr hv
  have hall : List.Forall₂ (fun s v =>
      ((parse s.2 (get o s.1)).map fun value => (s.1, value)) = some v) shape.rows o.rows := by
    rw [Fits] at h
    refine (List.forall₂_iff_get.mpr ⟨h.length_eq, fun i hi hi' => ?_⟩)
    obtain ⟨hkey, hvalue⟩ := (List.forall₂_iff_get.mp h).2 i hi hi'
    rw [hkey, hget _ (List.get_mem _ _), hvalue, Option.map_some]
  rw [ObjectSchema.parseObject, mapM_of_forall₂ hall, Option.map_some, fromEntries_rows]

end HeirsOcr.ObjectSchema

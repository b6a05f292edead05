import HeirsOcr.KeyedTable

/-!
# Records of JavaScript

An object as its own properties: keys with a value each, in the order they came. To set a
property that is there keeps its place and loses its value, so a record made of a list of
entries has, under each key, the value that came last.
-/
namespace HeirsOcr.JsRecord
open KeyedTable

variable {ν : Type*}

abbrev Record (ν : Type*) := Table (Prod.fst : String × ν → String)

/-- `o[key]`, where `undefined` is none. -/
def get (o : Record ν) (key : String) : Option ν := (o.find? key).map Prod.snd

/-- `o[key] = value`. -/
def set (o : Record ν) (key : String) (value : ν) : Record ν :=
  o.upsert (key, value) (fun old new => (old.1, new.2)) fun _ => rfl

def fromEntries (entries : List (String × ν)) : Record ν :=
  entries.foldl (fun o entry => set o entry.1 entry.2) ∅

theorem get_eq_some {o : Record ν} {key : String} {value : ν} :
    get o key = some value ↔ (key, value) ∈ o := by
  rw [get, Option.map_eq_some_iff]
  constructor
  · rintro ⟨⟨key', value'⟩, hfind, rfl⟩
    obtain ⟨hmem, rfl⟩ := Table.find?_eq_some.mp hfind
    exact hmem
  · intro hmem
    exact ⟨(key, value), Table.find?_key hmem, rfl⟩

theorem get_set (o : Record ν) (key key' : String) (value : ν) :
    get (set o key value) key' = if key = key' then some value else get o key' := by
  rw [get, set, Table.find?_upsert]
  by_cases hkey : key = key'
  · subst hkey
    cases o.find? key with
    | none => simp
    | some old => simp
  · simp [hkey, get]

theorem get_foldl_set (entries : List (String × ν)) (o : Record ν) (key : String) :
    get (entries.foldl (fun o entry => set o entry.1 entry.2) o) key =
      ((entries.reverse.find? fun entry => entry.1 = key).map Prod.snd).or (get o key) := by
  induction entries generalizing o with
  | nil => simp
  | cons entry rest ih =>
    rw [List.foldl_cons, ih, get_set, List.reverse_cons, List.find?_append]
    by_cases hkey : entry.1 = key
    · cases rest.reverse.find? fun entry => entry.1 = key with
      | none => simp [hkey]
      | some last => simp
    · simp [hkey]

/-- The last of the entries with a key gives the value. -/
theorem get_fromEntries (entries : List (String × ν)) (key : String) :
    get (fromEntries entries) key =
      (entries.reverse.find? fun entry => entry.1 = key).map Prod.snd := by
  have hempty : get (∅ : Record ν) key = none := rfl
  rw [fromEntries, get_foldl_set, hempty, Option.or_none]

/-- When no two entries have the same key, each of them is in the record. -/
theorem get_fromEntries_of_mem {entries : List (String × ν)}
    (hnodup : (entries.map Prod.fst).Nodup) {key : String} {value : ν}
    (hmem : (key, value) ∈ entries) : get (fromEntries entries) key = some value := by
  rw [get_fromEntries]
  have hlast : entries.reverse.find? (fun entry => entry.1 = key) = some (key, value) := by
    cases hfind : entries.reverse.find? fun entry => entry.1 = key with
    | none =>
      have hne := List.find?_eq_none.mp hfind _ (List.mem_reverse.mpr hmem)
      simp at hne
    | some last =>
      have hkey : last.1 = key := by simpa using List.find?_some hfind
      have hlast := List.mem_reverse.mp (List.mem_of_find?_eq_some hfind)
      rw [List.inj_on_of_nodup_map hnodup hlast hmem hkey]
  rw [hlast, Option.map_some]

end HeirsOcr.JsRecord

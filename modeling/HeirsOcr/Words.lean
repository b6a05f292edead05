import HeirsOcr.Runs

/-!
# Words between separators

The stretches of a list between separators, without the empty ones. Words joined by a separator
are read back, and a separator in the middle cuts the words of a list in two.
-/
namespace HeirsOcr.Words
open Runs

variable {α : Type*} (p : α → Bool)

def words (t : List α) : List (List α) := (t.splitOnP p).filter fun w => !w.isEmpty

/-- A stretch without a separator that is not empty. -/
structure IsWord (w : List α) : Prop where
  ne_nil : w ≠ []
  free : ∀ a ∈ w, p a = false

variable {p}

@[simp] theorem words_nil : words p [] = [] := by simp [words]

theorem words_append_cons {a : α} (ha : p a = true) (x y : List α) :
    words p (x ++ a :: y) = words p x ++ words p y := by
  rw [words, List.splitOnP_append_cons x y ha, List.filter_append]
  rfl

theorem words_cons_of_pos {a : α} (ha : p a = true) (t : List α) : words p (a :: t) = words p t :=
  words_append_cons ha [] t

theorem words_of_isWord {w : List α} (h : IsWord p w) : words p w = [w] := by
  rw [words, List.splitOnP_eq_singleton h.free]
  simp [h.ne_nil]

/-- A letter before a letter joins the first word. -/
theorem words_cons_cons {a b : α} (ha : p a = false) (hb : p b = false) (t : List α) :
    ∃ w ws, words p (b :: t) = w :: ws ∧ words p (a :: b :: t) = (a :: w) :: ws := by
  obtain ⟨v, vs, hv⟩ := List.exists_cons_of_ne_nil (List.splitOnP_ne_nil p t)
  refine ⟨b :: v, vs.filter fun w => !w.isEmpty, ?_, ?_⟩
  · simp [words, List.splitOnP_cons_eq_if_modifyHead, hb, hv]
  · simp [words, List.splitOnP_cons_eq_if_modifyHead, ha, hb, hv]

/-- A letter before a separator is a word. -/
theorem words_cons_of_head {a : α} (ha : p a = false) {t : List α}
    (h : t.head?.any p = true) : words p (a :: t) = [a] :: words p t := by
  cases t with
  | nil => simp at h
  | cons b t =>
    have hb : p b = true := by simpa using h
    have ha' : IsWord p [a] := ⟨List.cons_ne_nil _ _, by simpa using ha⟩
    have hcut := words_append_cons hb [a] t
    rw [List.singleton_append, words_of_isWord ha'] at hcut
    rw [hcut, words_cons_of_pos hb]
    rfl

theorem isWord_of_mem {t w : List α} (h : w ∈ words p t) : IsWord p w ∧ ∀ a ∈ w, a ∈ t := by
  induction t generalizing w with
  | nil => simp at h
  | cons a t ih =>
    cases ha : p a with
    | true =>
      rw [words_cons_of_pos ha] at h
      obtain ⟨hword, hmem⟩ := ih h
      exact ⟨hword, fun b hb => List.mem_cons_of_mem a (hmem b hb)⟩
    | false =>
      cases t with
      | nil =>
        have hword : IsWord p [a] := ⟨List.cons_ne_nil _ _, by simpa using ha⟩
        rw [words_of_isWord hword] at h
        obtain rfl := List.mem_singleton.mp h
        exact ⟨hword, fun b hb => hb⟩
      | cons b t =>
        cases hb : p b with
        | true =>
          rw [words_cons_of_head ha (by simpa using hb)] at h
          rcases List.mem_cons.mp h with rfl | h
          · exact ⟨⟨List.cons_ne_nil _ _, by simpa using ha⟩, fun c hc => by simp_all⟩
          · obtain ⟨hword, hmem⟩ := ih h
            exact ⟨hword, fun c hc => List.mem_cons_of_mem a (hmem c hc)⟩
        | false =>
          obtain ⟨v, vs, hv, hav⟩ := words_cons_cons ha hb t
          rw [hav] at h
          rcases List.mem_cons.mp h with rfl | h
          · obtain ⟨hword, hmem⟩ := ih (hv ▸ List.mem_cons_self)
            exact ⟨⟨List.cons_ne_nil _ _, List.forall_mem_cons.mpr ⟨ha, hword.free⟩⟩,
              List.forall_mem_cons.mpr
                ⟨List.mem_cons_self, fun c hc => List.mem_cons_of_mem a (hmem c hc)⟩⟩
          · obtain ⟨hword, hmem⟩ := ih (hv ▸ List.mem_cons_of_mem v h)
            exact ⟨hword, fun c hc => List.mem_cons_of_mem a (hmem c hc)⟩

/-- The words of joined texts are the words of each. -/
theorem words_intercalate {s : α} (hs : p s = true) (ts : List (List α)) :
    words p ([s].intercalate ts) = ts.flatMap (words p) := by
  induction ts with
  | nil => simp
  | cons t ts ih =>
    cases ts with
    | nil => simp
    | cons t' ts =>
      rw [List.intercalate_cons_cons, List.append_assoc, List.singleton_append,
        words_append_cons hs, ih]
      rfl

theorem forall_mem_intercalate {s : α} {P : α → Prop} (hs : P s) {ts : List (List α)}
    (h : ∀ t ∈ ts, ∀ a ∈ t, P a) : ∀ a ∈ [s].intercalate ts, P a := by
  induction ts with
  | nil => simp
  | cons t ts ih =>
    have ht := h t List.mem_cons_self
    have hts := ih fun t' ht' => h t' (List.mem_cons_of_mem t ht')
    cases ts with
    | nil => simpa using ht
    | cons t' ts =>
      intro a ha
      rw [List.intercalate_cons_cons, List.append_assoc, List.mem_append, List.singleton_append,
        List.mem_cons] at ha
      rcases ha with ha | rfl | ha
      · exact ht a ha
      · exact hs
      · exact hts a ha

/-- Words are read back from a text that joins them. -/
theorem words_join {s : α} (hs : p s = true) {ws : List (List α)} (h : ∀ w ∈ ws, IsWord p w) :
    words p ([s].intercalate ws) = ws := by
  rw [words_intercalate hs]
  exact (List.flatMap_congr fun w hw => words_of_isWord (h w hw)).trans (List.flatMap_singleton' _)

/-- Runs of one kind are words. -/
theorem runs_eq_words {kind : α → Option Unit} (hkind : ∀ a, kind a = if p a then none else some ())
    (t : List α) : runs kind t = words p t := by
  induction t with
  | nil => simp
  | cons a t ih =>
    cases ha : p a with
    | true =>
      have hnone : kind a = none := by rw [hkind, if_pos ha]
      rw [runs_cons_none hnone, words_cons_of_pos ha, ih]
    | false =>
      have hsome : kind a = some () := by rw [hkind, if_neg (by simp [ha])]
      cases t with
      | nil =>
        have hend : ([] : List α).head?.bind kind ≠ some () := by simp
        rw [words_of_isWord ⟨List.cons_ne_nil _ _, by simpa using ha⟩,
          runs_singleton_append hsome hend, runs_nil]
      | cons b t =>
        cases hb : p b with
        | true =>
          have hend : (b :: t).head?.bind kind ≠ some () := by simp [hkind, hb]
          rw [runs_singleton_append hsome hend, words_cons_of_head ha (by simpa using hb), ih]
        | false =>
          have hnext : (b :: t).head?.bind kind = some () := by simp [hkind, hb]
          obtain ⟨w, ws, hw, haw⟩ := words_cons_cons ha hb t
          rw [haw, runs, hsome, ih, hw]
          exact if_pos hnext

end HeirsOcr.Words

import Mathlib.Tactic

/-!
# Replacing matches

A text cut at the matches of a pattern, the leftmost first and each after the end of the one
before, as a global replacement cuts it. Every piece knows where in the text it stands. The pieces
are those of the text alone: what stands for a match in the result is not searched again.
-/
namespace HeirsOcr.Replace

variable {α β : Type*} (m : List α → Option (β × ℕ))

/-- The pieces from position `pos` on when the next `skip` elements belong to a match: elements
that are kept, and matches. `m` is a match at the beginning of a list and its length. -/
def piecesFrom : ℕ → ℕ → List α → List ((α ⊕ β) × ℕ)
  | _, _, [] => []
  | pos, skip + 1, _ :: as => piecesFrom (pos + 1) skip as
  | pos, 0, a :: as =>
    match m (a :: as) with
    | some (b, n) => (.inr b, pos) :: piecesFrom (pos + 1) (n - 1) as
    | none => (.inl a, pos) :: piecesFrom (pos + 1) 0 as

def pieces (as : List α) : List ((α ⊕ β) × ℕ) := piecesFrom m 0 0 as

variable (f : β → List α)

/-- What a piece becomes. -/
def pieceText (piece : α ⊕ β) : List α := piece.elim (fun a => [a]) f

/-- The result, each element with the position of the piece it comes from. -/
def traced (as : List α) : List (α × ℕ) :=
  (pieces m as).flatMap fun p => (pieceText f p.1).map fun a => (a, p.2)

/-- Every match replaced by its `f`, and everything else kept. -/
def replaceAll (as : List α) : List α := (pieces m as).flatMap fun p => pieceText f p.1

/-- The matches in order. -/
def found (as : List α) : List β := (pieces m as).filterMap fun p => p.1.getRight?

variable {m f}

@[simp] theorem pieceText_inl (a : α) : pieceText f (.inl a) = [a] := rfl

@[simp] theorem pieceText_inr (b : β) : pieceText f (.inr b) = f b := rfl

@[simp] theorem piecesFrom_nil (pos skip : ℕ) : piecesFrom m pos skip [] = [] := by
  cases skip with
  | zero => rfl
  | succ skip => rfl

theorem piecesFrom_succ (pos skip : ℕ) (a : α) (as : List α) :
    piecesFrom m pos (skip + 1) (a :: as) = piecesFrom m (pos + 1) skip as := rfl

theorem piecesFrom_some {pos : ℕ} {a : α} {as : List α} {b : β} {n : ℕ}
    (h : m (a :: as) = some (b, n)) :
    piecesFrom m pos 0 (a :: as) = (.inr b, pos) :: piecesFrom m (pos + 1) (n - 1) as := by
  rw [piecesFrom, h]

theorem piecesFrom_none {pos : ℕ} {a : α} {as : List α} (h : m (a :: as) = none) :
    piecesFrom m pos 0 (a :: as) = (.inl a, pos) :: piecesFrom m (pos + 1) 0 as := by
  rw [piecesFrom, h]

theorem map_fst_traced (as : List α) : (traced m f as).map Prod.fst = replaceAll m f as := by
  simp only [traced, replaceAll, List.map_flatMap, List.map_map]
  exact List.flatMap_congr fun p _ => List.map_id _

theorem mem_found {as : List α} {b : β} {i : ℕ} (h : (.inr b, i) ∈ pieces m as) :
    b ∈ found m as :=
  List.mem_filterMap.mpr ⟨_, h, rfl⟩

/-- What a piece says about the text that begins with it. -/
def Begins (m : List α → Option (β × ℕ)) (rest : List α) : α ⊕ β → Prop
  | .inl a => rest.head? = some a
  | .inr b => ∃ n, m rest = some (b, n)

theorem begins_of_mem {pos skip : ℕ} {as : List α} {piece : α ⊕ β} {i : ℕ}
    (h : (piece, i) ∈ piecesFrom m pos skip as) :
    ∃ before rest, as = before ++ rest ∧ i = pos + before.length ∧ Begins m rest piece := by
  induction as generalizing pos skip with
  | nil => simp at h
  | cons a as ih =>
    have hlater : ∀ {skip}, (piece, i) ∈ piecesFrom m (pos + 1) skip as →
        ∃ before rest, a :: as = before ++ rest ∧ i = pos + before.length ∧
          Begins m rest piece := by
      intro skip hmem
      obtain ⟨before, rest, rfl, rfl, hbegins⟩ := ih hmem
      exact ⟨a :: before, rest, rfl, by rw [List.length_cons]; omega, hbegins⟩
    cases skip with
    | succ skip => exact hlater h
    | zero =>
      cases hmatch : m (a :: as) with
      | none =>
        rw [piecesFrom_none hmatch] at h
        rcases List.mem_cons.mp h with heq | hmem
        · obtain ⟨rfl, rfl⟩ := Prod.mk.inj heq
          exact ⟨[], a :: as, rfl, rfl, rfl⟩
        · exact hlater hmem
      | some p =>
        rw [piecesFrom_some hmatch] at h
        rcases List.mem_cons.mp h with heq | hmem
        · obtain ⟨rfl, rfl⟩ := Prod.mk.inj heq
          exact ⟨[], a :: as, rfl, rfl, p.2, hmatch⟩
        · exact hlater hmem

theorem pos_le_of_mem {pos skip : ℕ} {as : List α} {p : (α ⊕ β) × ℕ}
    (h : p ∈ piecesFrom m pos skip as) : pos ≤ p.2 := by
  obtain ⟨piece, i⟩ := p
  obtain ⟨before, rest, -, hpos, -⟩ := begins_of_mem h
  exact hpos ▸ Nat.le_add_right pos before.length

/-- No two pieces stand at one position. -/
theorem pairwise_piecesFrom (pos skip : ℕ) (as : List α) :
    (piecesFrom m pos skip as).Pairwise fun p q => p.2 < q.2 := by
  induction as generalizing pos skip with
  | nil => simp
  | cons a as ih =>
    cases skip with
    | succ skip => exact ih (pos + 1) skip
    | zero =>
      cases hmatch : m (a :: as) with
      | none =>
        rw [piecesFrom_none hmatch]
        exact List.pairwise_cons.mpr ⟨fun p hp => pos_le_of_mem hp, ih _ _⟩
      | some p =>
        rw [piecesFrom_some hmatch]
        exact List.pairwise_cons.mpr ⟨fun p hp => pos_le_of_mem hp, ih _ _⟩

/-- What comes from a position is what its one piece became. -/
theorem filter_traced_pos {as : List α} {piece : α ⊕ β} {i : ℕ}
    (h : (piece, i) ∈ pieces m as) :
    ((traced m f as).filter fun a => a.2 = i).map Prod.fst = pieceText f piece := by
  have hdistinct := pairwise_piecesFrom (m := m) 0 0 as
  rw [traced]
  rw [pieces] at h ⊢
  generalize piecesFrom m 0 0 as = l at h hdistinct
  obtain ⟨l₁, l₂, rfl⟩ := List.append_of_mem h
  obtain ⟨-, hcons, hbefore⟩ := List.pairwise_append.mp hdistinct
  have hafter := (List.pairwise_cons.mp hcons).1
  have hother : ∀ l' : List ((α ⊕ β) × ℕ), (∀ p ∈ l', p.2 ≠ i) →
      (l'.flatMap fun p => (pieceText f p.1).map fun a => (a, p.2)).filter
        (fun a => a.2 = i) = [] := by
    intro l' hne
    simp only [List.filter_eq_nil_iff, List.mem_flatMap, List.mem_map, decide_eq_true_eq]
    rintro a ⟨p, hp, _, _, rfl⟩
    exact hne p hp
  have hleft := hother l₁ fun p hp => (hbefore p hp _ List.mem_cons_self).ne
  have hright := hother l₂ fun p hp => (hafter p hp).ne'
  simp [List.flatMap_append, hleft, hright, List.filter_map, Function.comp_def]

/-- Elements that neither a match nor its replacement has stand in the result as in the text,
at their positions. -/
theorem filter_traced {p : α → Bool}
    (hm : ∀ {as b n}, m as = some (b, n) →
      0 < n ∧ (∀ a ∈ as.take n, p a = false) ∧ ∀ a ∈ f b, p a = false)
    (as : List α) :
    (traced m f as).filter (fun a => p a.1) = as.zipIdx.filter fun a => p a.1 := by
  suffices hfrom : ∀ as pos skip, (∀ a ∈ as.take skip, p a = false) →
      ((piecesFrom m pos skip as).flatMap fun p => (pieceText f p.1).map fun a => (a, p.2)).filter
        (fun a => p a.1) = (as.zipIdx pos).filter fun a => p a.1 from
    hfrom as 0 0 (by simp)
  intro as
  induction as with
  | nil => simp
  | cons a as ih =>
    intro pos skip hskip
    cases skip with
    | succ skip =>
      have ha : p a = false := hskip a (by simp)
      have hrest : ∀ b ∈ as.take skip, p b = false := fun b hb => hskip b (by simp [hb])
      rw [piecesFrom_succ, ih _ _ hrest]
      simp [ha]
    | zero =>
      cases hmatch : m (a :: as) with
      | none =>
        have hrest := ih (pos + 1) 0 (by simp)
        simp [piecesFrom_none hmatch, hrest, List.filter_cons]
      | some r =>
        obtain ⟨b, n⟩ := r
        obtain ⟨hpos, hclean, hreplaced⟩ := hm hmatch
        obtain ⟨n, rfl⟩ : ∃ k, n = k + 1 := ⟨n - 1, by omega⟩
        have ha : p a = false := hclean a (by simp)
        have hrest : ∀ c ∈ as.take n, p c = false := fun c hc => hclean c (by simp [hc])
        have hnone : ((f b).map fun c => (c, pos)).filter (fun c => p c.1) = [] := by
          simp only [List.filter_eq_nil_iff, List.mem_map]
          rintro _ ⟨c, hc, rfl⟩
          simp [hreplaced c hc]
        simp [piecesFrom_some hmatch, hnone, ih _ _ hrest, ha]

theorem flatMap_piecesFrom (pos pos' skip : ℕ) (as : List α) :
    ((piecesFrom m pos skip as).flatMap fun p => pieceText f p.1) =
      (piecesFrom m pos' skip as).flatMap fun p => pieceText f p.1 := by
  induction as generalizing pos pos' skip with
  | nil => simp
  | cons a as ih =>
    cases skip with
    | succ skip => exact ih _ _ _
    | zero =>
      cases hmatch : m (a :: as) with
      | none => simp only [piecesFrom_none hmatch, List.flatMap_cons, ih (pos + 1) (pos' + 1)]
      | some p => simp only [piecesFrom_some hmatch, List.flatMap_cons, ih (pos + 1) (pos' + 1)]

@[simp] theorem replaceAll_nil : replaceAll m f [] = [] := rfl

theorem replaceAll_cons_of_none {a : α} {as : List α} (h : m (a :: as) = none) :
    replaceAll m f (a :: as) = a :: replaceAll m f as := by
  rw [replaceAll, pieces, piecesFrom_none h, List.flatMap_cons, flatMap_piecesFrom (0 + 1) 0]
  rfl

theorem piecesFrom_append (pos : ℕ) (whole as : List α) :
    piecesFrom m pos whole.length (whole ++ as) = piecesFrom m (pos + whole.length) 0 as := by
  induction whole generalizing pos with
  | nil => rfl
  | cons a whole ih =>
    rw [List.cons_append, List.length_cons, piecesFrom_succ, ih]
    congr 1
    omega

theorem replaceAll_append_of_some {whole as : List α} {b : β} (hne : whole ≠ [])
    (h : m (whole ++ as) = some (b, whole.length)) :
    replaceAll m f (whole ++ as) = f b ++ replaceAll m f as := by
  cases whole with
  | nil => exact absurd rfl hne
  | cons a whole =>
    rw [List.cons_append] at h ⊢
    rw [replaceAll, pieces, piecesFrom_some h, List.flatMap_cons, List.length_cons,
      Nat.add_sub_cancel, piecesFrom_append, flatMap_piecesFrom _ 0]
    rfl

end HeirsOcr.Replace

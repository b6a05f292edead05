import Mathlib.Tactic

/-!
# Keyed books and the history they add up

A book keeps one running total for each key. An entry of the history belongs to one key
or to none, and has an amount. A book is right when every total is the sum of the amounts
of the entries under its key; posting to it keeps it right exactly when what is posted is
the amount of the entry.
-/
namespace HeirsOcr.KeyedBooks

variable {κ ε M : Type*} [DecidableEq κ]

section Monoid
variable [AddCommMonoid M]

/-- What the history adds up to under a key. -/
def posted (key : ε → Option κ) (amount : ε → M) (history : List ε) (k : κ) : M :=
  ((history.filter fun e => key e = some k).map amount).sum

/-- Adds to the total of a key, where there is one. -/
def post (book : κ → M) : Option κ → M → κ → M
  | none, _ => book
  | some k, x => Function.update book k (book k + x)

@[simp] theorem post_none (book : κ → M) (x : M) : post book none x = book := rfl

@[simp] theorem post_zero (book : κ → M) (k : Option κ) : post book k 0 = book := by
  cases k <;> simp [post]

@[simp] theorem posted_nil (key : ε → Option κ) (amount : ε → M) :
    posted key amount [] = fun _ => 0 := by
  funext k
  simp [posted]

theorem posted_append (key : ε → Option κ) (amount : ε → M) (history : List ε) (e : ε) :
    posted key amount (history ++ [e]) = post (posted key amount history) (key e) (amount e) := by
  funext k
  cases hk : key e with
  | none => simp [posted, hk]
  | some k' =>
    by_cases h : k = k'
    · subst h
      simp [posted, post, hk]
    · have hne : ¬k' = k := fun hk' => h hk'.symm
      simp [posted, post, hk, h, hne]

end Monoid

/-- Two postings to one key agree exactly when their amounts do. -/
theorem post_some_inj [AddCommMonoid M] [IsLeftCancelAdd M] (book : κ → M) (k : κ) {x y : M} :
    post book (some k) x = post book (some k) y ↔ x = y := by
  refine ⟨fun h => ?_, fun h => by rw [h]⟩
  have hk := congrFun h k
  simp only [post, Function.update_self] at hk
  exact add_left_cancel hk

end HeirsOcr.KeyedBooks

import HeirsOcr.AddressText

/-!
# Numbers in decimal

Numbers as JavaScript writes them and as padded to a width. Texts of one width are in the order
of their numbers, whatever follows.
-/
namespace HeirsOcr.DecimalText
open JsText AddressText

/-- `String(n)` of a whole number. -/
def intText (n : ℤ) : List Char :=
  if n < 0 then '-' :: Nat.toDigits 10 n.natAbs else Nat.toDigits 10 n.toNat

/-- The last `w` digits of a number. -/
def decText : ℕ → ℕ → List Char
  | 0, _ => []
  | w + 1, n => decText w (n / 10) ++ [Nat.digitChar (n % 10)]

@[simp] theorem length_decText (w n : ℕ) : (decText w n).length = w := by
  induction w generalizing n with
  | zero => rfl
  | succ w ih => simp [decText, ih]

theorem digitChar_spec : ∀ d < 10, isDigit (Nat.digitChar d) = true ∧
    (Nat.digitChar d).toNat = 0x30 + d := by
  decide

theorem isDigit_decText (w n : ℕ) : ∀ c ∈ decText w n, isDigit c = true := by
  induction w generalizing n with
  | zero => simp [decText]
  | succ w ih =>
    intro c hc
    rcases List.mem_append.mp hc with hc | hc
    · exact ih _ c hc
    · obtain rfl := List.mem_singleton.mp hc
      exact (digitChar_spec _ (Nat.mod_lt _ (by decide))).1

theorem decValue_append_singleton (o : List Char) (c : Char) :
    decValue (o ++ [c]) = 10 * decValue o + (c.toNat - 0x30) := by
  simp [decValue]

theorem decValue_decText {w n : ℕ} (h : n < 10 ^ w) : decValue (decText w n) = n := by
  induction w generalizing n with
  | zero =>
    rw [pow_zero] at h
    have hzero : n = 0 := by omega
    rw [hzero]
    rfl
  | succ w ih =>
    have hinit : n / 10 < 10 ^ w := by
      rw [pow_succ] at h
      omega
    rw [decText, decValue_append_singleton, ih hinit,
      (digitChar_spec _ (Nat.mod_lt _ (by decide))).2]
    omega

/-- The number of digits bounds what they spell. -/
theorem decValue_lt {o : List Char} (h : ∀ c ∈ o, isDigit c = true) :
    decValue o < 10 ^ o.length := by
  induction o using List.reverseRecOn with
  | nil => simp [decValue]
  | append_singleton o c ih =>
    have hinit := ih fun d hd => h d (List.mem_append_left _ hd)
    have hc := h c (by simp)
    simp only [isDigit, Bool.and_eq_true, decide_eq_true_eq] at hc
    rw [decValue_append_singleton, List.length_append, List.length_singleton, pow_succ]
    omega

theorem decText_zero (w : ℕ) : decText w 0 = List.replicate w '0' := by
  induction w with
  | zero => rfl
  | succ w ih =>
    rw [decText, ih, List.replicate_succ']
    rfl

/-- A padded number has its last digits when it has no more than the width. -/
theorem padStart_toDigits {w n : ℕ} (hw : 1 ≤ w) (h : n < 10 ^ w) :
    padStart w '0' (Nat.toDigits 10 n) = decText w n := by
  induction w generalizing n with
  | zero => omega
  | succ w ih =>
    rw [decText]
    by_cases hsmall : n < 10
    · rw [Nat.toDigits_of_lt_base hsmall, Nat.div_eq_of_lt hsmall, Nat.mod_eq_of_lt hsmall,
        decText_zero]
      simp [padStart]
    · have hwidth : 1 ≤ w := by
        by_contra hzero
        have hone : w = 0 := by omega
        rw [hone] at h
        omega
      have hinit : n / 10 < 10 ^ w := by
        rw [pow_succ] at h
        omega
      rw [Nat.toDigits_of_base_le (by decide) (by omega), ← ih hwidth hinit]
      simp [padStart]

theorem charLt_iff (c d : Char) : c < d ↔ c.toNat < d.toNat := by
  rw [Char.lt_def, UInt32.lt_iff_toNat_lt]
  rfl

/-- Texts of one width are in the order of their numbers. -/
theorem decText_append_lt_iff {w a b : ℕ} (ha : a < 10 ^ w) (hb : b < 10 ^ w)
    (s t : List Char) :
    decText w a ++ s < decText w b ++ t ↔ a < b ∨ a = b ∧ s < t := by
  induction w generalizing a b s t with
  | zero =>
    rw [pow_zero] at ha hb
    have hzero : a = 0 ∧ b = 0 := by omega
    simp [hzero.1, hzero.2, decText]
  | succ w ih =>
    have hinit : ∀ {n : ℕ}, n < 10 ^ (w + 1) → n / 10 < 10 ^ w := by
      intro n hn
      rw [pow_succ] at hn
      omega
    have hdigit : ∀ m n : ℕ, Nat.digitChar (m % 10) < Nat.digitChar (n % 10) ↔ m % 10 < n % 10 := by
      intro m n
      have hm := (digitChar_spec _ (Nat.mod_lt m (by decide : 0 < 10))).2
      have hn := (digitChar_spec _ (Nat.mod_lt n (by decide : 0 < 10))).2
      rw [charLt_iff, hm, hn]
      omega
    have hsame : Nat.digitChar (a % 10) = Nat.digitChar (b % 10) ↔ a % 10 = b % 10 := by
      refine ⟨fun heq => ?_, fun heq => by rw [heq]⟩
      have hm := (digitChar_spec _ (Nat.mod_lt a (by decide : 0 < 10))).2
      rw [heq, (digitChar_spec _ (Nat.mod_lt b (by decide : 0 < 10))).2] at hm
      omega
    rw [decText, decText, List.append_assoc, List.append_assoc, ih (hinit ha) (hinit hb),
      List.singleton_append, List.singleton_append, List.cons_lt_cons_iff, hdigit, hsame]
    constructor
    · rintro (hlt | ⟨heq, hlt | ⟨hlast, hst⟩⟩)
      · left; omega
      · left; omega
      · exact .inr ⟨by omega, hst⟩
    · rintro (hlt | ⟨rfl, hst⟩)
      · by_cases heq : a / 10 = b / 10
        · exact .inr ⟨heq, .inl (by omega)⟩
        · left; omega
      · exact .inr ⟨rfl, .inr ⟨rfl, hst⟩⟩

/-- Digits are the text of what they spell. -/
theorem decText_decValue {o : List Char} (h : ∀ c ∈ o, isDigit c = true) :
    decText o.length (decValue o) = o := by
  induction o using List.reverseRecOn with
  | nil => rfl
  | append_singleton o c ih =>
    have hinit := ih fun d hd => h d (List.mem_append_left _ hd)
    have hc := h c (by simp)
    simp only [isDigit, Bool.and_eq_true, decide_eq_true_eq] at hc
    have hdiv : (10 * decValue o + (c.toNat - 0x30)) / 10 = decValue o := by omega
    have hmod : (10 * decValue o + (c.toNat - 0x30)) % 10 = c.toNat - 0x30 := by omega
    have hchar : Nat.digitChar (c.toNat - 0x30) = c := by
      obtain ⟨hlow, hhigh⟩ := hc
      refine Char.toNat_inj.mp ?_
      rw [(digitChar_spec _ (by omega)).2]
      omega
    rw [List.length_append, List.length_singleton, decText, decValue_append_singleton, hdiv, hmod,
      hinit, hchar]

theorem isDigit_toDigits (n : ℕ) : ∀ c ∈ Nat.toDigits 10 n, isDigit c = true := by
  intro c hc
  have hdigit := Nat.isDigit_of_mem_toDigits (by decide) (by decide) hc
  simp only [Char.isDigit, Bool.and_eq_true, decide_eq_true_eq] at hdigit
  simp only [isDigit, Bool.and_eq_true, decide_eq_true_eq]
  exact ⟨UInt32.le_iff_toNat_le.mp hdigit.1, UInt32.le_iff_toNat_le.mp hdigit.2⟩

end HeirsOcr.DecimalText

import HeirsOcr.JsText

/-!
# Tables of Unicode

What programs that fold names and dates look up about a character: its decomposition, and whether
it is a mark, a letter or a digit. The tables grow with each version of Unicode; of a table only
what holds in all of them is known here.
-/
namespace HeirsOcr.JsText

/-- The tables of one version. -/
structure Unicode where
  /-- The canonical decomposition of a character, to the end. -/
  decompose : Char → List Char
  /-- The class `\p{M}`. -/
  isMark : Char → Bool
  /-- The classes `\p{L}` and `\p{Nd}`. -/
  isLetterOrDigit : Char → Bool
  decompose_ascii : ∀ c : Char, c.toNat < 0x80 → decompose c = [c]
  isMark_ascii : ∀ c : Char, c.toNat < 0x80 → isMark c = false
  isMark_decompose : ∀ c, isMark c = false → ∃ d ∈ decompose c, isMark d = false
  isLetterOrDigit_ascii : ∀ c : Char, c.toNat < 0x80 → isLetterOrDigit c = c.isAlphanum
  isLetterOrDigit_decompose : ∀ c, ∀ d ∈ decompose c, isLetterOrDigit d → isLetterOrDigit c
  isLetterOrDigit_upper : ∀ c, upperChar c ≠ [c] → isLetterOrDigit c

/-- `value.normalize("NFD").replace(/\p{M}/gu, "")`. Canonical order moves marks only, and marks
are dropped. -/
def stripDiacritics (u : Unicode) (value : List Char) : List Char :=
  (value.flatMap u.decompose).filter fun c => !u.isMark c

/-- A fact about the characters of a range, checked one by one. -/
theorem forall_char_range (P : Char → Prop) {low high : ℕ}
    (h : ∀ n ≤ high, low ≤ n → P (Char.ofNat n)) (c : Char) (hlow : low ≤ c.toNat)
    (hhigh : c.toNat ≤ high) : P c := by
  have hof := h c.toNat hhigh hlow
  rwa [Char.ofNat_toNat] at hof

/-- An ASCII character has one capital. -/
theorem length_upperChar_ascii (c : Char) (h : c.toNat < 0x80) : (upperChar c).length = 1 :=
  forall_char_range (fun c => (upperChar c).length = 1) (by decide +kernel) c (Nat.zero_le _)
    (Nat.le_of_lt_succ h)

/-- Letters with a mark, the letter and the mark. -/
def latinLetters : List (ℕ × Char × ℕ) :=
  [(0xc0, 'A', 0x300), (0xc1, 'A', 0x301), (0xc2, 'A', 0x302), (0xc3, 'A', 0x303),
    (0xc4, 'A', 0x308), (0xc5, 'A', 0x30a), (0xc7, 'C', 0x327), (0xc8, 'E', 0x300),
    (0xc9, 'E', 0x301), (0xca, 'E', 0x302), (0xcb, 'E', 0x308), (0xcc, 'I', 0x300),
    (0xcd, 'I', 0x301), (0xce, 'I', 0x302), (0xcf, 'I', 0x308), (0xd1, 'N', 0x303),
    (0xd2, 'O', 0x300), (0xd3, 'O', 0x301), (0xd4, 'O', 0x302), (0xd5, 'O', 0x303),
    (0xd6, 'O', 0x308), (0xd9, 'U', 0x300), (0xda, 'U', 0x301), (0xdb, 'U', 0x302),
    (0xdc, 'U', 0x308), (0xdd, 'Y', 0x301), (0xe0, 'a', 0x300), (0xe1, 'a', 0x301),
    (0xe2, 'a', 0x302), (0xe3, 'a', 0x303), (0xe4, 'a', 0x308), (0xe5, 'a', 0x30a),
    (0xe7, 'c', 0x327), (0xe8, 'e', 0x300), (0xe9, 'e', 0x301), (0xea, 'e', 0x302),
    (0xeb, 'e', 0x308), (0xec, 'i', 0x300), (0xed, 'i', 0x301), (0xee, 'i', 0x302),
    (0xef, 'i', 0x308), (0xf1, 'n', 0x303), (0xf2, 'o', 0x300), (0xf3, 'o', 0x301),
    (0xf4, 'o', 0x302), (0xf5, 'o', 0x303), (0xf6, 'o', 0x308), (0xf9, 'u', 0x300),
    (0xfa, 'u', 0x301), (0xfb, 'u', 0x302), (0xfc, 'u', 0x308), (0xfd, 'y', 0x301),
    (0xff, 'y', 0x308)]

def latinDecompose (c : Char) : List Char :=
  match latinLetters.find? fun p => p.1 = c.toNat with
  | some p => [p.2.1, Char.ofNat p.2.2]
  | none => [c]

def latinLetterOrDigit (c : Char) : Bool :=
  if c.toNat < 0x80 then c.isAlphanum
  else c.toNat = 0xaa || c.toNat = 0xb5 || c.toNat = 0xba ||
    (0xc0 ≤ c.toNat && c.toNat ≤ 0x24f && c.toNat ≠ 0xd7 && c.toNat ≠ 0xf7) ||
    (0x1e00 ≤ c.toNat && c.toNat ≤ 0x1eff) || (0xfb00 ≤ c.toNat && c.toNat ≤ 0xfb06)

theorem latinDecompose_cases (c : Char) : latinDecompose c = [c] ∨
    ∃ p ∈ latinLetters, c.toNat = p.1 ∧ latinDecompose c = [p.2.1, Char.ofNat p.2.2] := by
  cases hfind : latinLetters.find? fun p => p.1 = c.toNat with
  | none => exact .inl (by rw [latinDecompose, hfind])
  | some p =>
    have hkey : p.1 = c.toNat := by simpa using List.find?_some hfind
    exact .inr ⟨p, List.mem_of_find?_eq_some hfind, hkey.symm, by rw [latinDecompose, hfind]⟩

theorem latinLetters_range : ∀ p ∈ latinLetters, 0xc0 ≤ p.1 ∧ p.1 ≤ 0xff ∧ p.1 ≠ 0xd7 ∧
    p.1 ≠ 0xf7 ∧ p.2.1.toNat < 0x80 := by
  decide

theorem latinLetterOrDigit_of_upper (c : Char) (h : upperChar c ≠ [c]) :
    latinLetterOrDigit c = true := by
  by_cases hsmall : 0x61 ≤ c.toNat ∧ c.toNat ≤ 0x7a
  · exact forall_char_range (fun c => latinLetterOrDigit c = true) (by decide) c hsmall.1 hsmall.2
  · have hother : ¬(decide (0x61 ≤ c.toNat) && decide (c.toNat ≤ 0x7a)) = true := by
      simpa using hsmall
    rw [upperChar, if_neg hother] at h
    split at h
    all_goals first
      | exact absurd rfl h
      | simp [latinLetterOrDigit, *]

/-- The tables as far as the marked letters of Latin-1, with the marks put on them. -/
def latin : Unicode where
  decompose := latinDecompose
  isMark c := 0x300 ≤ c.toNat && c.toNat ≤ 0x36f
  isLetterOrDigit := latinLetterOrDigit
  decompose_ascii c hc := by
    rcases latinDecompose_cases c with hsame | ⟨p, hp, hkey, -⟩
    · exact hsame
    · have hrange := latinLetters_range p hp
      omega
  isMark_ascii c hc := by
    simp only [Bool.and_eq_false_iff, decide_eq_false_iff_not]
    omega
  isMark_decompose c hc := by
    rcases latinDecompose_cases c with hsame | ⟨p, hp, -, hpair⟩
    · exact ⟨c, by simp [hsame], hc⟩
    · obtain ⟨-, -, -, -, hbase⟩ := latinLetters_range p hp
      refine ⟨p.2.1, by simp [hpair], ?_⟩
      simp only [Bool.and_eq_false_iff, decide_eq_false_iff_not]
      omega
  isLetterOrDigit_ascii c hc := by rw [latinLetterOrDigit, if_pos hc]
  isLetterOrDigit_decompose c d hd hletter := by
    rcases latinDecompose_cases c with hsame | ⟨p, hp, hkey, -⟩
    · rw [hsame] at hd
      exact List.mem_singleton.mp hd ▸ hletter
    · obtain ⟨hlow, hhigh, htimes, hdivide, -⟩ := latinLetters_range p hp
      have hbase : ¬c.toNat < 0x80 := by omega
      rw [latinLetterOrDigit, if_neg hbase]
      simp only [Bool.or_eq_true, Bool.and_eq_true, decide_eq_true_eq]
      omega
  isLetterOrDigit_upper := latinLetterOrDigit_of_upper

end HeirsOcr.JsText

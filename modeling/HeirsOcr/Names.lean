import HeirsOcr.IdVerification
import HeirsOcr.Words

/-!
# Names in any split and any order

Names are normalized under the whole case map of Unicode, of which only what holds in every
version is known here. A normalized part is its words, joined by single spaces, so normalizing again
changes nothing and the given names do not remember under which label they stood. Two names match
when they have the same words, counted.
-/
namespace HeirsOcr.Names
open JsText Words
open IdVerification (CaseMap NameParts collapse nonEmpty joinSpace nameTokens namesMatch isAlnum
  isApostrophe normalizeNamePart normalizeNameParts)

variable (m : CaseMap)

/-- The given names, one after the other. -/
def givenTokens (parts : NameParts) : List (List Char) :=
  ((normalizeNamePart m parts.firstName).map (List.splitOn ' ')).getD [] ++
    ((normalizeNamePart m parts.middleName).map (List.splitOn ' ')).getD []

/-- The class `[<,]`. -/
def isFiller (c : Char) : Bool := c == '<' || c == ','

/-- What lies between the words of a part. -/
def isGap (c : Char) : Bool := isSpace c || isFiller c

theorem head_collapse (t : List Char) :
    (collapse isFiller t).head?.any isSpace = t.head?.any isGap := by
  induction t with
  | nil => rfl
  | cons c t ih =>
    rw [collapse]
    by_cases hc : isFiller c = true
    · have hgap : (c :: t).head?.any isGap = true := by simp [isGap, hc]
      rw [if_pos hc, hgap]
      split_ifs with hnext
      · rw [ih]
        cases t with
        | nil => simp at hnext
        | cons d t =>
          have hd : isFiller d = true := by simpa using hnext
          simp [isGap, hd]
      · rfl
    · rw [if_neg hc]
      simp [isGap, hc]

/-- Fillers and spaces collapse together. -/
theorem collapse_collapse (t : List Char) :
    collapse isSpace (collapse isFiller t) = collapse isGap t := by
  induction t with
  | nil => rfl
  | cons c t ih =>
    have hhead := head_collapse t
    rw [collapse, collapse.eq_2 isGap]
    by_cases hc : isFiller c = true
    · have hgap : isGap c = true := by simp [isGap, hc]
      rw [if_pos hc, if_pos hgap]
      by_cases hnext : t.head?.any isFiller = true
      · have hnext' : t.head?.any isGap = true := by
          cases t with
          | nil => simp at hnext
          | cons d t =>
            have hd : isFiller d = true := by simpa using hnext
            simp [isGap, hd]
        rw [if_pos hnext, if_pos hnext', ih]
      · rw [if_neg hnext, collapse, if_pos (by decide), hhead, ih]
    · rw [if_neg hc, collapse, hhead, ih]
      have hsame : isGap c = isSpace c := by simp [isGap, hc]
      rw [hsame]

/-- A collapsed text is its words, with a space before and behind at most. -/
theorem collapse_eq (t : List Char) : ∃ lead trail : List Char,
    lead = (if t.head?.any isGap then [' '] else []) ∧
      (trail = [] ∨ trail = [' '] ∧ words isGap t ≠ []) ∧
      collapse isGap t = lead ++ [' '].intercalate (words isGap t) ++ trail := by
  induction t with
  | nil => exact ⟨[], [], rfl, .inl rfl, by simp [collapse]⟩
  | cons c t ih =>
    obtain ⟨lead, trail, hlead, htrail, heq⟩ := ih
    rw [collapse]
    cases hc : isGap c with
    | true =>
      have hfirst : (c :: t).head?.any isGap = true := by simpa using hc
      rw [if_pos rfl, words_cons_of_pos hc, hfirst, if_pos rfl]
      refine ⟨[' '], trail, rfl, htrail, ?_⟩
      by_cases hnext : t.head?.any isGap = true
      · rw [if_pos hnext] at hlead ⊢
        rw [heq, hlead]
      · rw [if_neg hnext] at hlead ⊢
        rw [heq, hlead]
        rfl
    | false =>
      have hfirst : (c :: t).head?.any isGap = false := by simpa using hc
      rw [hfirst, if_neg Bool.false_ne_true, if_neg Bool.false_ne_true]
      refine ⟨[], ?_⟩
      by_cases hnext : t.head?.any isGap = true
      · rw [if_pos hnext] at hlead
        rw [words_cons_of_head hc hnext, heq, hlead]
        cases hwords : words isGap t with
        | nil =>
          have hnone : trail = [] := by
            rcases htrail with h | ⟨-, h⟩
            · exact h
            · exact absurd hwords h
          exact ⟨[' '], rfl, .inr ⟨rfl, by simp⟩, by simp [hnone]⟩
        | cons w ws =>
          refine ⟨trail, rfl, ?_, by simp [List.intercalate_cons_cons]⟩
          rcases htrail with h | ⟨h, -⟩
          · exact .inl h
          · exact .inr ⟨h, by simp⟩
      · rw [if_neg hnext] at hlead
        cases t with
        | nil =>
          have hword : IsWord isGap [c] := ⟨List.cons_ne_nil _ _, by simpa using hc⟩
          exact ⟨[], rfl, .inl rfl, by simp [collapse, words_of_isWord hword]⟩
        | cons d t =>
          have hd : isGap d = false := by simpa using hnext
          obtain ⟨w, ws, hw, hcw⟩ := words_cons_cons hc hd t
          rw [hw] at htrail heq
          rw [hcw, heq, hlead]
          refine ⟨trail, rfl, ?_, ?_⟩
          · rcases htrail with h | ⟨h, -⟩
            · exact .inl h
            · exact .inr ⟨h, by simp⟩
          · cases ws with
            | nil => simp
            | cons w' ws => simp [List.intercalate_cons_cons]

/-- Words joined by single spaces. -/
def joined (ws : List (List Char)) : Option (List Char) := nonEmpty ([' '].intercalate ws)

def nameWords (value : Option (List Char)) : List (List Char) :=
  (value.map fun value => words isGap (value.flatMap m.upper)).getD []

theorem trim_pad {lead text trail : List Char} (hlead : ∀ c ∈ lead, isSpace c = true)
    (htrail : ∀ c ∈ trail, isSpace c = true) (htext : Trimmed text) :
    trim (lead ++ text ++ trail) = text := by
  rw [trim, List.append_assoc, List.dropWhile_append_of_pos hlead]
  cases text with
  | nil =>
    have hgone : trail.dropWhile isSpace = [] := by
      rw [← List.append_nil trail, List.dropWhile_append_of_pos htrail]
      rfl
    rw [List.nil_append, hgone]
    rfl
  | cons c text =>
    have hfirst : ∀ d ∈ (c :: text ++ trail).head?, isSpace d = false := htext.1
    have hlast : ∀ d ∈ (c :: text).reverse.head?, isSpace d = false := by
      rw [List.head?_reverse]
      exact htext.2
    rw [dropWhile_of_head hfirst, List.reverse_append,
      List.dropWhile_append_of_pos (by simpa using htrail), dropWhile_of_head hlast,
      List.reverse_reverse]

theorem trimmed_of_isWord {w : List Char} (h : IsWord isGap w) : Trimmed w := by
  have hspace : ∀ c ∈ w, isSpace c = false := fun c hc =>
    (Bool.or_eq_false_iff.mp (h.free c hc)).1
  exact ⟨fun c hc => hspace c (List.mem_of_mem_head? hc),
    fun c hc => hspace c (List.mem_of_mem_getLast? hc)⟩

theorem trimmed_intercalate {ws : List (List Char)} (h : ∀ w ∈ ws, IsWord isGap w) :
    Trimmed ([' '].intercalate ws) := by
  induction ws with
  | nil => exact ⟨by simp, by simp⟩
  | cons w ws ih =>
    have hw := h w List.mem_cons_self
    have hrest := ih fun v hv => h v (List.mem_cons_of_mem w hv)
    obtain ⟨hfirst, hlast⟩ := trimmed_of_isWord hw
    cases ws with
    | nil => simpa using ⟨hfirst, hlast⟩
    | cons v ws =>
      have hv := h v (List.mem_cons_of_mem w List.mem_cons_self)
      rw [List.intercalate_cons_cons]
      constructor
      · rw [List.append_assoc, List.head?_append_of_ne_nil _ hw.ne_nil]
        exact hfirst
      · have hne : [' '].intercalate (v :: ws) ≠ [] := by
          cases ws with
          | nil => simpa using hv.ne_nil
          | cons x ws => simp [List.intercalate_cons_cons]
        rw [List.getLast?_append_of_ne_nil _ hne]
        exact hrest.2

/-- A normalized part is its words. -/
theorem normalizeNamePart_eq (value : Option (List Char)) :
    normalizeNamePart m value = joined (nameWords m value) := by
  cases value with
  | none => rfl
  | some value =>
    obtain ⟨lead, trail, hlead, htrail, heq⟩ := collapse_eq (value.flatMap m.upper)
    have hspaces : ∀ c ∈ lead, isSpace c = true := by
      rw [hlead]
      split_ifs
      · simpa using (by decide : isSpace ' ' = true)
      · simp
    have hspaces' : ∀ c ∈ trail, isSpace c = true := by
      rcases htrail with rfl | ⟨rfl, -⟩
      · simp
      · simpa using (by decide : isSpace ' ' = true)
    have htrim : trim (collapse isSpace (collapse isFiller (value.flatMap m.upper))) =
        [' '].intercalate (words isGap (value.flatMap m.upper)) := by
      rw [collapse_collapse, heq]
      exact trim_pad hspaces hspaces' (trimmed_intercalate fun w hw => (isWord_of_mem hw).1)
    exact congrArg nonEmpty htrim

/-- A word of capitals. -/
structure IsNameWord (w : List Char) : Prop where
  word : IsWord isGap w
  upper : ∀ c ∈ w, m.upper c = [c]

variable {m}

theorem isNameWord_of_mem {value : Option (List Char)} :
    ∀ w ∈ nameWords m value, IsNameWord m w := by
  intro w hw
  cases value with
  | none => simp [nameWords] at hw
  | some value =>
    obtain ⟨hword, hmem⟩ := isWord_of_mem (p := isGap) hw
    refine ⟨hword, fun c hc => ?_⟩
    obtain ⟨b, -, hb⟩ := List.mem_flatMap.mp (hmem c hc)
    exact m.upper_upper b c hb

theorem upper_space : m.upper ' ' = [' '] := m.upper_ascii ' ' (by decide)

theorem joined_of_ne_nil {ws : List (List Char)} (h : ∀ w ∈ ws, IsNameWord m w) (hne : ws ≠ []) :
    joined ws = some ([' '].intercalate ws) := by
  have htext : [' '].intercalate ws ≠ [] := by
    intro hnil
    have hwords := words_join (p := isGap) (s := ' ') (by decide) fun w hw => (h w hw).word
    rw [hnil, words_nil] at hwords
    exact hne hwords.symm
  rw [joined, nonEmpty, if_neg htext]

theorem nameWords_of_fixed {text : List Char} (h : ∀ c ∈ text, m.upper c = [c]) :
    nameWords m (some text) = words isGap text := by
  have hupper : text.flatMap m.upper = text :=
    (List.flatMap_congr h).trans (List.flatMap_singleton' _)
  rw [nameWords, Option.map_some, Option.getD_some, hupper]

theorem upper_intercalate {ws : List (List Char)} (h : ∀ w ∈ ws, IsNameWord m w) :
    ∀ c ∈ [' '].intercalate ws, m.upper c = [c] :=
  forall_mem_intercalate (P := fun c => m.upper c = [c]) upper_space fun w hw => (h w hw).upper

/-- The words of joined words. -/
theorem nameWords_joined {ws : List (List Char)} (h : ∀ w ∈ ws, IsNameWord m w) :
    nameWords m (joined ws) = ws := by
  by_cases hne : ws = []
  · subst hne
    rfl
  · rw [joined_of_ne_nil h hne, nameWords_of_fixed (upper_intercalate h)]
    exact words_join (by decide) fun w hw => (h w hw).word

/-- The words of joined words by their spaces. -/
theorem splitOn_joined {ws : List (List Char)} (h : ∀ w ∈ ws, IsNameWord m w) :
    ((joined ws).map (List.splitOn ' ')).getD [] = ws := by
  by_cases hne : ws = []
  · subst hne
    rfl
  · have hspace : ∀ w ∈ ws, ' ' ∉ w := by
      intro w hw hmem
      have hfree := (h w hw).word.free ' ' hmem
      revert hfree
      decide
    rw [joined_of_ne_nil h hne, Option.map_some, Option.getD_some,
      List.splitOn_intercalate ' ' hspace hne]

/-- The texts that are joined when a part comes behind words. -/
theorem filterMap_joined {front : List (List Char)} (hfront : ∀ w ∈ front, IsNameWord m w)
    (back : List (List Char)) :
    (front.map some ++ [joined back]).filterMap (fun part => part.bind nonEmpty) =
      front ++ (joined back).toList := by
  have hself : front.filterMap nonEmpty = front := by
    have hsome : ∀ w ∈ front, nonEmpty w = some w := fun w hw => if_neg (hfront w hw).word.ne_nil
    exact (List.filterMap_congr hsome).trans List.filterMap_some
  have hlast : (joined back).bind nonEmpty = joined back := by
    rw [joined]
    by_cases hnil : [' '].intercalate back = []
    · rw [nonEmpty, if_pos hnil]
      rfl
    · rw [nonEmpty, if_neg hnil]
      exact if_neg hnil
  rw [List.filterMap_append, List.filterMap_map]
  congr 1
  rw [List.filterMap_cons, hlast]
  cases joined back with
  | none => rfl
  | some text => rfl

/-- Joining joined words behind others joins them all. -/
theorem nameWords_joinSpace {front back : List (List Char)} (hfront : ∀ w ∈ front, IsNameWord m w)
    (hback : ∀ w ∈ back, IsNameWord m w) :
    nameWords m (some (joinSpace (front.map some ++ [joined back]))) = front ++ back := by
  have hfixed : ∀ text ∈ front ++ (joined back).toList, ∀ c ∈ text, m.upper c = [c] := by
    intro text htext
    rcases List.mem_append.mp htext with h | h
    · exact (hfront text h).upper
    · by_cases hne : back = []
      · subst hne
        exact absurd h (by simp [joined, nonEmpty])
      · rw [joined_of_ne_nil hback hne] at h
        obtain rfl : text = [' '].intercalate back := by simpa using h
        exact upper_intercalate hback
  have hbackWords : (joined back).toList.flatMap (words isGap) = back := by
    by_cases hne : back = []
    · subst hne
      rfl
    · rw [joined_of_ne_nil hback hne, Option.toList_some, List.flatMap_singleton]
      exact words_join (by decide) fun w hw => (hback w hw).word
  have hfrontWords : front.flatMap (words isGap) = front :=
    (List.flatMap_congr fun w hw => words_of_isWord (hfront w hw).word).trans
      (List.flatMap_singleton' _)
  rw [joinSpace, filterMap_joined hfront, nameWords_of_fixed
    (forall_mem_intercalate (P := fun c => m.upper c = [c]) upper_space hfixed),
    words_intercalate (by decide), List.flatMap_append, hfrontWords, hbackWords]

/-- Normalized parts by their words. -/
theorem normalizeNameParts_eq (parts : NameParts) : normalizeNameParts m parts =
    { surname := joined (nameWords m parts.surname)
      firstName := (nameWords m parts.firstName).head?
      middleName := joined
        ((nameWords m parts.firstName).tail ++ nameWords m parts.middleName) } := by
  have hgiven : ((normalizeNamePart m parts.firstName).map (List.splitOn ' ')).getD [] =
      nameWords m parts.firstName := by
    rw [normalizeNamePart_eq, splitOn_joined isNameWord_of_mem]
  have htail : ∀ w ∈ (nameWords m parts.firstName).tail, IsNameWord m w := fun w hw =>
    isNameWord_of_mem w (List.mem_of_mem_tail hw)
  have hmiddle : ∀ w ∈ nameWords m parts.middleName, IsNameWord m w := isNameWord_of_mem
  rw [normalizeNameParts, hgiven, normalizeNamePart_eq, normalizeNamePart_eq, normalizeNamePart_eq,
    nameWords_joinSpace htail hmiddle]

theorem nameWords_head (parts : NameParts) : nameWords m (nameWords m parts.firstName).head? =
    (nameWords m parts.firstName).head?.toList := by
  cases hwords : nameWords m parts.firstName with
  | nil => rfl
  | cons w ws =>
    have hw : IsNameWord m w := isNameWord_of_mem w (hwords ▸ List.mem_cons_self)
    rw [List.head?_cons, nameWords_of_fixed hw.upper, words_of_isWord hw.word]
    rfl

/-- Normalizing twice is normalizing once. -/
theorem normalizeNameParts_idem (parts : NameParts) :
    normalizeNameParts m (normalizeNameParts m parts) = normalizeNameParts m parts := by
  have hsurname : nameWords m (joined (nameWords m parts.surname)) = nameWords m parts.surname :=
    nameWords_joined isNameWord_of_mem
  have hgiven : ∀ w ∈ (nameWords m parts.firstName).tail ++ nameWords m parts.middleName,
      IsNameWord m w := by
    intro w hw
    rcases List.mem_append.mp hw with h | h
    · exact isNameWord_of_mem w (List.mem_of_mem_tail h)
    · exact isNameWord_of_mem w h
  rw [normalizeNameParts_eq (normalizeNameParts m parts), normalizeNameParts_eq parts]
  dsimp only
  rw [hsurname, nameWords_head, nameWords_joined hgiven]
  cases nameWords m parts.firstName with
  | nil => rfl
  | cons w ws => rfl

theorem givenTokens_eq (parts : NameParts) :
    givenTokens m parts = nameWords m parts.firstName ++ nameWords m parts.middleName := by
  rw [givenTokens, normalizeNamePart_eq, normalizeNamePart_eq, splitOn_joined isNameWord_of_mem,
    splitOn_joined isNameWord_of_mem]

/-- A first name that is not empty comes from the row of given names, wherever it was cut. -/
theorem normalizeNameParts_of_first {parts : NameParts}
    (h : normalizeNamePart m parts.firstName ≠ none) : normalizeNameParts m parts =
      { surname := normalizeNamePart m parts.surname
        firstName := (givenTokens m parts).head?
        middleName := joined (givenTokens m parts).tail } := by
  have hne : nameWords m parts.firstName ≠ [] := by
    intro hnil
    rw [normalizeNamePart_eq, hnil] at h
    exact h rfl
  obtain ⟨w, ws, hwords⟩ := List.exists_cons_of_ne_nil hne
  rw [normalizeNameParts_eq, givenTokens_eq, normalizeNamePart_eq, hwords]
  rfl

section Matching

variable (u : Unicode)

/-- A name without marks and apostrophes, in capitals. -/
def foldName (value : List Char) : List Char :=
  (toUpperCase (stripDiacritics u value)).filter fun c => !isApostrophe c

/-- The normalized tokens of a name, counted. -/
def tokenCounts (value : List Char) : Multiset (List Char) :=
  ↑(words (fun c => !isAlnum c) (foldName u value))

variable {u}

theorem coe_nameTokens (value : List Char) :
    (↑(nameTokens u value) : Multiset (List Char)) = tokenCounts u value := by
  have hkind : ∀ c : Char, (if isAlnum c then some () else none) =
      if !isAlnum c then none else some () := by
    intro c
    cases isAlnum c <;> rfl
  rw [nameTokens, runs_eq_words hkind]
  exact Multiset.coe_eq_coe.mpr (List.perm_insertionSort _ _)

/-- Sorted tokens are equal when the tokens are the same, counted. -/
theorem nameTokens_eq_iff {a b : List Char} :
    nameTokens u a = nameTokens u b ↔ tokenCounts u a = tokenCounts u b := by
  constructor
  · intro h
    rw [← coe_nameTokens, ← coe_nameTokens, h]
  · intro h
    rw [← coe_nameTokens, ← coe_nameTokens, Multiset.coe_eq_coe] at h
    exact h.eq_of_pairwise' (List.pairwise_insertionSort _ _) (List.pairwise_insertionSort _ _)

theorem foldName_append (a b : List Char) : foldName u (a ++ b) = foldName u a ++ foldName u b := by
  simp [foldName, stripDiacritics, toUpperCase]

theorem foldName_space : foldName u [' '] = [' '] := by
  have hstrip : stripDiacritics u [' '] = [' '] := by
    simp [stripDiacritics, u.decompose_ascii ' ' (by decide), u.isMark_ascii ' ' (by decide)]
  rw [foldName, hstrip]
  rfl

/-- The tokens of names with spaces between them are the tokens of each. -/
theorem tokenCounts_intercalate (names : List (List Char)) :
    tokenCounts u ([' '].intercalate names) = (names.map (tokenCounts u)).sum := by
  induction names with
  | nil => simp [tokenCounts, foldName, stripDiacritics, toUpperCase]
  | cons name names ih =>
    cases names with
    | nil => simp
    | cons name' names =>
      rw [List.intercalate_cons_cons, List.map_cons, List.sum_cons, ← ih, tokenCounts,
        foldName_append, foldName_append, foldName_space, List.append_assoc,
        List.singleton_append, words_append_cons (by decide), ← Multiset.coe_add]
      rfl

end Matching

/-- Normalized names are stable, and names match by their tokens. -/
structure StableNames (m : CaseMap) (u : Unicode) : Prop where
  idempotent : ∀ parts,
    normalizeNameParts m (normalizeNameParts m parts) = normalizeNameParts m parts
  split : ∀ parts parts' : NameParts, normalizeNamePart m parts.firstName ≠ none →
    normalizeNamePart m parts'.firstName ≠ none →
    normalizeNamePart m parts.surname = normalizeNamePart m parts'.surname →
    givenTokens m parts = givenTokens m parts' →
      normalizeNameParts m parts = normalizeNameParts m parts'
  absent : ∀ expected, namesMatch u none expected = false
  same : ∀ actual expected, namesMatch u (some actual) expected = true ↔
    tokenCounts u actual ≠ 0 ∧ tokenCounts u actual = tokenCounts u expected
  symmetric : ∀ actual expected,
    namesMatch u (some actual) expected = namesMatch u (some expected) actual
  unordered : ∀ (names names' : List (List Char)) (expected : List Char), names.Perm names' →
    namesMatch u (some ([' '].intercalate names)) expected =
      namesMatch u (some ([' '].intercalate names')) expected

theorem namesMatch_iff_tokenCounts {u : Unicode} (actual expected : List Char) :
    namesMatch u (some actual) expected = true ↔
      tokenCounts u actual ≠ 0 ∧ tokenCounts u actual = tokenCounts u expected := by
  have hempty : nameTokens u actual ≠ [] ↔ tokenCounts u actual ≠ 0 := by
    rw [← coe_nameTokens, ne_eq, ne_eq, Multiset.coe_eq_zero]
  rw [IdVerification.namesMatch_iff]
  constructor
  · rintro ⟨name, hname, hne, heq⟩
    obtain rfl := Option.some_inj.mp hname
    exact ⟨hempty.mp hne, nameTokens_eq_iff.mp heq⟩
  · rintro ⟨hne, heq⟩
    exact ⟨actual, rfl, hempty.mpr hne, nameTokens_eq_iff.mpr heq⟩

theorem names_stable (m : CaseMap) (u : Unicode) : StableNames m u := by
  refine ⟨normalizeNameParts_idem, ?_, fun _ => rfl, namesMatch_iff_tokenCounts, ?_, ?_⟩
  · intro parts parts' hfirst hfirst' hsurname hgiven
    rw [normalizeNameParts_of_first hfirst, normalizeNameParts_of_first hfirst', hsurname, hgiven]
  · intro actual expected
    rw [Bool.eq_iff_iff, namesMatch_iff_tokenCounts, namesMatch_iff_tokenCounts]
    constructor
    · rintro ⟨hne, heq⟩
      exact ⟨heq ▸ hne, heq.symm⟩
    · rintro ⟨hne, heq⟩
      exact ⟨heq ▸ hne, heq.symm⟩
  · intro names names' expected hperm
    have hcounts : tokenCounts u ([' '].intercalate names) =
        tokenCounts u ([' '].intercalate names') := by
      rw [tokenCounts_intercalate, tokenCounts_intercalate, (hperm.map _).sum_eq]
    rw [Bool.eq_iff_iff, namesMatch_iff_tokenCounts, namesMatch_iff_tokenCounts, hcounts]

end HeirsOcr.Names

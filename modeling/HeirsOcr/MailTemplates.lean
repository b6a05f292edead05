import HeirsOcr.NumberText
import HeirsOcr.Replace
import Mathlib.Data.Finset.Sort
import Mathlib.Data.String.Basic
import Mathlib.Data.Bool.AllAny

/-!
# Mail templates

A template is HTML with placeholders between double braces. Values go in escaped and in one pass,
so what they say is text wherever a placeholder stands, and the markup of a message is the markup
of its template.
-/
namespace HeirsOcr.MailTemplates
open JsText NumberText Replace

inductive TemplateValue where
  | text (s : List Char)
  | number (x : NumberText.Num)

/-- `String(value)`. -/
def TemplateValue.toText : TemplateValue → List Char
  | .text s => s
  | .number x => x.toText

/-- What `values[key]` gives, `none` for `undefined` and `null`. -/
abbrev TemplateValues := String → Option TemplateValue

def HTML_ESCAPES : List (Char × List Char) :=
  [('&', "&amp;".toList), ('<', "&lt;".toList), ('>', "&gt;".toList), ('"', "&quot;".toList),
    ('\'', "&#39;".toList)]

def escapeChar (c : Char) : List Char := (HTML_ESCAPES.lookup c).getD [c]

def escapeHtml (value : TemplateValue) : List Char := value.toText.flatMap escapeChar

def ENTITIES : List (List Char × Char) :=
  [("&rsquo;".toList, '’'), ("&lsquo;".toList, '‘'), ("&rdquo;".toList, '”'),
    ("&ldquo;".toList, '“'), ("&mdash;".toList, '—'), ("&ndash;".toList, '–'),
    ("&hellip;".toList, '…'), ("&nbsp;".toList, ' '), ("&middot;".toList, '·'),
    ("&quot;".toList, '"'), ("&#39;".toList, '\''), ("&apos;".toList, '\''),
    ("&lt;".toList, '<'), ("&gt;".toList, '>'), ("&amp;".toList, '&')]

/-- A run of `p` that ends in a semicolon, the semicolon apart. -/
def runToSemicolon (p : Char → Bool) (cs : List Char) : Option (List Char) :=
  let run := cs.takeWhile p
  if run ≠ [] ∧ (cs.dropWhile p).head? = some ';' then some run else none

/-- `/&(?:[a-zA-Z]+|#\d+);/` at the beginning of a text. -/
def entity : List Char → Option (List Char × ℕ)
  | '&' :: '#' :: cs =>
    (runToSemicolon isDigit cs).map fun digits => ('&' :: '#' :: digits ++ [';'], digits.length + 3)
  | '&' :: cs =>
    (runToSemicolon Char.isAlpha cs).map fun letters =>
      ('&' :: letters ++ [';'], letters.length + 2)
  | _ => none

/-- The character of a known entity; an unknown one stays. -/
def decodeEntity (whole : List Char) : List Char :=
  ((ENTITIES.lookup whole).map fun c => [c]).getD whole

def decodeEntities (text : List Char) : List Char := replaceAll entity decodeEntity text

/-- `PLACEHOLDER` at the beginning of a text, with its key. -/
def placeholder : List Char → Option (List Char × ℕ)
  | '{' :: '{' :: cs =>
    let key := cs.takeWhile Char.isAlphanum
    if key.head?.any Char.isAlpha ∧ (cs.dropWhile Char.isAlphanum).take 2 = ['}', '}'] then
      some (key, key.length + 4)
    else none
  | _ => none

/-- What a placeholder becomes; without a value it stays. -/
def supply (values : TemplateValues) (escape : Bool) (key : List Char) : List Char :=
  match values (String.ofList key) with
  | none => '{' :: '{' :: key ++ ['}', '}']
  | some value => if escape then escapeHtml value else value.toText

/-- The keys a text references. -/
def keysOf (source : List Char) : Finset String :=
  ((found placeholder source).map String.ofList).toFinset

/-- The text with its values, and the keys found missing so far. -/
def interpolate (source : List Char) (values : TemplateValues) (escape : Bool)
    (missing : Finset String) : List Char × Finset String :=
  (replaceAll placeholder (supply values escape) source,
    missing ∪ (keysOf source).filter fun key => (values key).isNone)

/-- Whether a text begins with a word, in capitals or not. -/
def startsWith (word cs : List Char) : Bool := (cs.take word.length).map Char.toLower = word

/-- How much stands before the first place where a text goes on with a word. -/
def before (word : List Char) : List Char → Option ℕ
  | [] => none
  | c :: cs => if startsWith word (c :: cs) then some 0 else (before word cs).map (· + 1)

/-- A replacement by a fixed text, if the match has a length. -/
def replaceBy (text : List Char) (length : List Char → Option ℕ) (cs : List Char) :
    Option (List Char × ℕ) :=
  (length cs).map fun n => (text, n)

/-- A script or style element of a name, up to the end tag of the same name. -/
def elementLength (name cs : List Char) : Option ℕ :=
  let start := '<' :: name
  let stop := '<' :: '/' :: name ++ ['>']
  if startsWith start cs then
    (before stop (cs.drop start.length)).map fun n => start.length + n + stop.length
  else none

/-- `/<(script|style)[\s\S]*?<\/\1>/i`. -/
def scriptLength (cs : List Char) : Option ℕ :=
  (elementLength "script".toList cs).or (elementLength "style".toList cs)

def BLOCKS : List (List Char) :=
  ["p", "div", "tr", "h1", "h2", "h3", "h4", "h5", "h6", "li", "table"].map String.toList

/-- `/<\/(p|div|tr|h[1-6]|li|table)>/i`. -/
def blockEndLength (cs : List Char) : Option ℕ :=
  ((BLOCKS.map fun name => '<' :: '/' :: name ++ ['>']).find? (startsWith · cs)).map List.length

/-- `/<br\s*\/?>/i`. -/
def breakLength (cs : List Char) : Option ℕ :=
  if startsWith "<br".toList cs then
    let spaces := (cs.drop 3).takeWhile isSpace
    match (cs.drop 3).dropWhile isSpace with
    | '/' :: '>' :: _ => some (spaces.length + 5)
    | '>' :: _ => some (spaces.length + 4)
    | _ => none
  else none

/-- `/<[^>]+>/`. -/
def tagLength : List Char → Option ℕ
  | '<' :: cs =>
    let body := cs.takeWhile (· ≠ '>')
    if body ≠ [] ∧ cs.dropWhile (· ≠ '>') ≠ [] then some (body.length + 2) else none
  | _ => none

/-- A run of at least `least` characters. -/
def runLength (p : Char → Bool) (least : ℕ) (cs : List Char) : Option ℕ :=
  let n := (cs.takeWhile p).length
  if least ≤ n then some n else none

/-- `/ *\n */`. -/
def lineEndLength (cs : List Char) : Option ℕ :=
  match cs.dropWhile (· = ' ') with
  | '\n' :: rest => some ((cs.takeWhile (· = ' ')).length + 1 + (rest.takeWhile (· = ' ')).length)
  | _ => none

/-- `text.replace(pattern, replacement)` for a global pattern. -/
def replace (length : List Char → Option ℕ) (replacement text : List Char) : List Char :=
  replaceAll (replaceBy replacement length) id text

def isBlank (c : Char) : Bool := c = ' ' || c = '\t' || c = Char.ofNat 0xa0

/-- The alternative for clients that show text only. -/
def htmlToText (html : List Char) : List Char :=
  let stripped := replace tagLength [] (replace breakLength ['\n']
    (replace blockEndLength ['\n'] (replace scriptLength [] html)))
  trim (replace (runLength (· = '\n') 3) ['\n', '\n'] (replace lineEndLength ['\n']
    (replace (runLength isBlank 1) [' '] (decodeEntities stripped))))

/-- `/<title>([\s\S]*?)<\/title>/i` at the beginning of a text, with its group. -/
def title (cs : List Char) : Option (List Char × ℕ) :=
  if startsWith "<title>".toList cs then
    (before "</title>".toList (cs.drop 7)).map fun n => ((cs.drop 7).take n, n + 15)
  else none

structure RenderedEmail where
  subject : List Char
  html : List Char
  text : List Char
  deriving DecidableEq

/-- Renders the source of a template; a placeholder without a value throws. -/
def renderTemplate (name : String) (source : List Char) (values : TemplateValues) :
    Except String RenderedEmail :=
  let html := interpolate source values true ∅
  let rawTitle := (found title source).head?.getD []
  let plain := interpolate rawTitle values false html.2
  let subject := trim (replace (runLength isSpace 1) [' '] (decodeEntities plain.1))
  if 0 < plain.2.card then
    .error ("Cannot render email template \"" ++ name ++ "\": no value supplied for " ++
      ", ".intercalate (plain.2.sort (· ≤ ·)))
  else .ok ⟨subject, html.1, htmlToText html.1⟩

/-- What ends a text node or a quoted attribute value. -/
def MARKUP : List Char := ['<', '>', '"', '\'']

def isMarkup (c : Char) : Bool := MARKUP.contains c

/-- The rendered HTML, each character with the place in the template it comes from. -/
def rendering (source : List Char) (values : TemplateValues) : List (Char × ℕ) :=
  traced placeholder (supply values true) source

/-- The markup among placed characters. -/
def markup (placed : List (Char × ℕ)) : List (Char × ℕ) := placed.filter fun c => isMarkup c.1

/-- What comes from one place. -/
def textAt (i : ℕ) (placed : List (Char × ℕ)) : List Char :=
  (placed.filter fun c => c.2 = i).map Prod.fst

theorem escapeChar_spec (c : Char) : (c, escapeChar c) ∈ HTML_ESCAPES ∨
    escapeChar c = [c] ∧ ∀ e ∈ HTML_ESCAPES, c ≠ e.1 := by
  cases h : HTML_ESCAPES.lookup c with
  | none =>
    have hne := List.lookup_eq_none_iff.mp h
    exact .inr ⟨by rw [escapeChar, h, Option.getD_none], fun e he => by simpa using hne e he⟩
  | some whole =>
    obtain ⟨l₁, l₂, heq, -⟩ := List.lookup_eq_some_iff.mp h
    refine .inl ?_
    rw [escapeChar, h, Option.getD_some, heq]
    simp

theorem isMarkup_of_mem_escape : ∀ e ∈ HTML_ESCAPES, ∀ d ∈ e.2, isMarkup d = false := by
  have htable : (HTML_ESCAPES.all fun e => e.2.all fun d => isMarkup d = false) = true := by decide
  intro e he
  exact List.all_iff_forall_prop.mp (List.all_eq_true.mp htable e he)

theorem mem_escapes_of_isMarkup {c : Char} (h : isMarkup c = true) :
    ∃ e ∈ HTML_ESCAPES, c = e.1 := by
  have htable : ∀ c ∈ MARKUP, (HTML_ESCAPES.any fun e => c = e.1) = true :=
    List.all_iff_forall_prop.mp (by decide)
  exact List.any_iff_exists_prop.mp (htable c (List.contains_iff_mem.mp h))

/-- No value brings markup. -/
theorem isMarkup_escapeHtml (value : TemplateValue) :
    ∀ c ∈ escapeHtml value, isMarkup c = false := by
  intro c hc
  obtain ⟨d, -, hc⟩ := List.mem_flatMap.mp hc
  rcases escapeChar_spec d with hmem | ⟨hself, hother⟩
  · exact isMarkup_of_mem_escape _ hmem c hc
  · rw [hself, List.mem_singleton] at hc
    subst hc
    by_contra hmarkup
    obtain ⟨e, he, heq⟩ := mem_escapes_of_isMarkup (Bool.not_eq_false _ ▸ hmarkup)
    exact hother e he heq

theorem placeholder_spec {cs key : List Char} {n : ℕ} (h : placeholder cs = some (key, n)) :
    (∃ rest, cs = '{' :: '{' :: key ++ '}' :: '}' :: rest) ∧ n = key.length + 4 ∧
      ∀ c ∈ key, c.isAlphanum = true := by
  unfold placeholder at h
  split at h
  · rename_i rest
    obtain ⟨⟨-, hclose⟩, heq⟩ := Option.ite_none_right_eq_some.mp h
    obtain ⟨rfl, rfl⟩ := Prod.mk.inj (Option.some.inj heq)
    refine ⟨⟨(rest.dropWhile Char.isAlphanum).drop 2, ?_⟩, rfl,
      List.all_eq_true.mp List.all_takeWhile⟩
    have hrest := List.take_append_drop 2 (rest.dropWhile Char.isAlphanum)
    rw [hclose] at hrest
    have hsplit := List.takeWhile_append_dropWhile (p := Char.isAlphanum) (l := rest)
    rw [← hrest] at hsplit
    rw [List.cons_append, List.cons_append]
    exact congrArg (fun cs => '{' :: '{' :: cs) hsplit.symm
  · cases h

theorem isMarkup_of_isAlphanum {c : Char} (h : c.isAlphanum = true) : isMarkup c = false := by
  have htable : ∀ c ∈ MARKUP, c.isAlphanum = false := List.all_iff_forall_prop.mp (by decide)
  by_contra hmarkup
  have hmem := List.contains_iff_mem.mp (Bool.not_eq_false _ ▸ hmarkup)
  exact absurd (htable c hmem) (by simp [h])

/-- Neither a placeholder nor what it becomes has markup. -/
theorem placeholder_clean (values : TemplateValues) {cs key : List Char} {n : ℕ}
    (h : placeholder cs = some (key, n)) :
    0 < n ∧ (∀ c ∈ cs.take n, isMarkup c = false) ∧
      ∀ c ∈ supply values true key, isMarkup c = false := by
  obtain ⟨⟨rest, rfl⟩, rfl, hkey⟩ := placeholder_spec h
  have hwhole : ∀ c ∈ '{' :: '{' :: key ++ ['}', '}'], isMarkup c = false := by
    intro c hc
    simp only [List.cons_append, List.mem_cons, List.mem_append, List.not_mem_nil, or_false] at hc
    rcases hc with rfl | rfl | hc | rfl | rfl
    · decide
    · decide
    · exact isMarkup_of_isAlphanum (hkey c hc)
    · decide
    · decide
  refine ⟨by omega, ?_, ?_⟩
  · have htake : ('{' :: '{' :: key ++ '}' :: '}' :: rest).take (key.length + 4) =
        '{' :: '{' :: key ++ ['}', '}'] := by
      simp [List.take_append]
    rwa [htake]
  · rw [supply]
    split
    · exact hwhole
    · exact isMarkup_escapeHtml _

/-- The markup of a message is that of its template. -/
theorem markup_rendering (source : List Char) (values : TemplateValues) :
    markup (rendering source values) = markup source.zipIdx :=
  filter_traced (placeholder_clean values) source

theorem entity_escape : ∀ e ∈ HTML_ESCAPES, ∀ rest,
    entity (e.2 ++ rest) = some (e.2, e.2.length) ∧ decodeEntity e.2 = [e.1] ∧ e.2 ≠ [] := by
  intro e he rest
  simp only [HTML_ESCAPES, List.mem_cons, List.not_mem_nil, or_false] at he
  rcases he with rfl | rfl | rfl | rfl | rfl
  · exact ⟨rfl, by decide, by decide⟩
  · exact ⟨rfl, by decide, by decide⟩
  · exact ⟨rfl, by decide, by decide⟩
  · exact ⟨rfl, by decide, by decide⟩
  · exact ⟨rfl, by decide, by decide⟩

theorem entity_cons_of_ne {c : Char} (h : c ≠ '&') (cs : List Char) : entity (c :: cs) = none := by
  rw [entity]
  · rintro cs' heq
    exact h (List.cons.inj heq).1
  · rintro cs' heq
    exact h (List.cons.inj heq).1

theorem decodeEntities_escapeHtml (value : TemplateValue) :
    decodeEntities (escapeHtml value) = value.toText := by
  rw [escapeHtml]
  induction value.toText with
  | nil => rfl
  | cons c cs ih =>
    rw [List.flatMap_cons, decodeEntities]
    rcases escapeChar_spec c with hmem | ⟨hself, hother⟩
    · obtain ⟨hmatch, hdecoded, hne⟩ := entity_escape _ hmem (cs.flatMap escapeChar)
      rw [replaceAll_append_of_some hne hmatch, hdecoded]
      exact congrArg (c :: ·) ih
    · have hamp : c ≠ '&' := hother ('&', "&amp;".toList) (by decide)
      rw [hself, List.singleton_append, replaceAll_cons_of_none (entity_cons_of_ne hamp _)]
      exact congrArg (c :: ·) ih

theorem not_of_ite_ok {ε α : Type*} {c : Prop} [Decidable c] {e : ε} {a b : α}
    (h : (if c then .error e else .ok a : Except ε α) = .ok b) : ¬c ∧ a = b := by
  split at h
  · cases h
  · exact ⟨‹¬c›, Except.ok.inj h⟩

/-- What rendering says when it succeeds. -/
theorem renderTemplate_ok {name : String} {source : List Char} {values : TemplateValues}
    {email : RenderedEmail} (h : renderTemplate name source values = .ok email) :
    email.html = replaceAll placeholder (supply values true) source ∧
      ∀ key ∈ keysOf source, (values key).isSome := by
  unfold renderTemplate at h
  obtain ⟨hmissing, rfl⟩ := not_of_ite_ok h
  refine ⟨rfl, fun key hkey => ?_⟩
  by_contra hnone
  refine hmissing (Finset.card_pos.mpr ⟨key, Finset.mem_union_left _ ?_⟩)
  exact Finset.mem_union_right _ (Finset.mem_filter.mpr ⟨hkey, by simpa using hnone⟩)

/-- What a placeholder of a rendered template becomes is its escaped value, as it is. -/
theorem textAt_placeholder {source : List Char} {values : TemplateValues}
    (hvalues : ∀ key ∈ keysOf source, (values key).isSome) {key : List Char} {i : ℕ}
    (h : (.inr key, i) ∈ pieces placeholder source) :
    ∃ value, values (String.ofList key) = some value ∧
      textAt i (rendering source values) = escapeHtml value := by
  have hkey : String.ofList key ∈ keysOf source :=
    List.mem_toFinset.mpr (List.mem_map_of_mem (mem_found h))
  obtain ⟨value, hvalue⟩ := Option.isSome_iff_exists.mp (hvalues _ hkey)
  refine ⟨value, hvalue, ?_⟩
  have hpiece := filter_traced_pos (f := supply values true) h
  rwa [pieceText_inr, supply, hvalue] at hpiece

/-- Two messages of one template have the markup of the template, each character of it at the
same place. A value stands where its placeholder stood as it was escaped, and the entities of an
escaped value decode to the value. -/
theorem not_injectable {name : String} {source : List Char} {values values' : TemplateValues}
    {email email' : RenderedEmail} (h : renderTemplate name source values = .ok email)
    (h' : renderTemplate name source values' = .ok email') :
    email.html = (rendering source values).map Prod.fst ∧
    email'.html = (rendering source values').map Prod.fst ∧
    markup (rendering source values) = markup (rendering source values') ∧
    markup (rendering source values) = markup source.zipIdx ∧
    (∀ key i, (.inr key, i) ∈ pieces placeholder source →
      ∃ value value', values (String.ofList key) = some value ∧
        values' (String.ofList key) = some value' ∧
        textAt i (rendering source values) = escapeHtml value ∧
        textAt i (rendering source values') = escapeHtml value') ∧
    ∀ value, decodeEntities (escapeHtml value) = value.toText := by
  obtain ⟨hhtml, hvalues⟩ := renderTemplate_ok h
  obtain ⟨hhtml', hvalues'⟩ := renderTemplate_ok h'
  have hmarkup := markup_rendering source values
  have hmarkup' := markup_rendering source values'
  refine ⟨hhtml.trans (map_fst_traced source).symm, hhtml'.trans (map_fst_traced source).symm,
    hmarkup.trans hmarkup'.symm, hmarkup, fun key i hpiece => ?_, decodeEntities_escapeHtml⟩
  obtain ⟨value, hvalue, htext⟩ := textAt_placeholder hvalues hpiece
  obtain ⟨value', hvalue', htext'⟩ := textAt_placeholder hvalues' hpiece
  exact ⟨value, value', hvalue, hvalue', htext, htext'⟩

def LINK : List Char := "<a href=\"{{Url}}\">{{Name}}</a>".toList

/-- The values of a link. -/
def linkValues (url name : List Char) : TemplateValues := fun key =>
  if key = "Url" then some (.text url) else if key = "Name" then some (.text name) else none

theorem not_injectable_link :
    markup (rendering LINK (linkValues "/a".toList "A".toList)) =
      markup (rendering LINK (linkValues "\"><b x='".toList "{{Url}}<script>".toList)) := by
  have hplain : renderTemplate "link" LINK (linkValues "/a".toList "A".toList) =
      .ok ⟨[], "<a href=\"/a\">A</a>".toList, "A".toList⟩ := by decide +kernel
  have hhostile : renderTemplate "link" LINK
      (linkValues "\"><b x='".toList "{{Url}}<script>".toList) =
      .ok ⟨[], "<a href=\"&quot;&gt;&lt;b x=&#39;\">{{Url}}&lt;script&gt;</a>".toList,
        "{{Url}}<script>".toList⟩ := by decide +kernel
  exact (not_injectable hplain hhostile).2.2.1

end HeirsOcr.MailTemplates

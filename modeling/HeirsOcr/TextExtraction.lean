import HeirsOcr.ProviderRouter
import HeirsOcr.JsText
import Mathlib.Data.PNat.Notation

/-!
# The text of a range of pages

The text of a recognized document comes back as markdown or as plain text, on request only for a
range of its pages. A document without text on its pages has its text as a whole, and so the
markdown of a range where nothing is written is the markdown of the whole document.
-/
namespace HeirsOcr.TextExtraction
open Providers

inductive Format where
  | markdown | plain
  deriving DecidableEq, Repr

/-- A first and a last page, both positive; a range may be empty. -/
abbrev PageRange := ℕ+ × ℕ+

structure TextExtractionArgs where
  format : Format
  pageRange : Option PageRange
  includeBlocks : Bool
  deriving DecidableEq

structure TextExtractionResult where
  text : String
  format : Format
  pageCount : ℕ
  blocks : Option (List LayoutBlock)
  deriving DecidableEq

def isLineEnd (c : Char) : Bool := c.toNat ∈ [0x0a, 0x0d, 0x2028, 0x2029]

/-- How much of the text `#{1,6}\s+` takes, which is zero when it does not match. -/
def headingLength (cs : List Char) : ℕ :=
  let hashes := (cs.takeWhile (· = '#')).length
  let spaces := ((cs.drop hashes).takeWhile JsText.isSpace).length
  if 1 ≤ hashes ∧ hashes ≤ 6 ∧ 0 < spaces then hashes + spaces else 0

/-- `replace(/^#{1,6}\s+/gm, "")`; the spaces may end the line, and the next one then starts. -/
def stripHeadings : (skip : ℕ) → (lineStart : Bool) → List Char → List Char
  | _, _, [] => []
  | skip + 1, _, c :: rest => stripHeadings skip (isLineEnd c) rest
  | 0, lineStart, c :: rest =>
    if lineStart ∧ 0 < headingLength (c :: rest) then
      stripHeadings (headingLength (c :: rest) - 1) (isLineEnd c) rest
    else c :: stripHeadings 0 (isLineEnd c) rest

/-- ``replace(/[*_`>#]/g, "")``. -/
def stripMarks (cs : List Char) : List Char :=
  cs.filter fun c => c.toNat ∉ [0x2a, 0x5f, 0x60, 0x3e, 0x23]

/-- The text of the link that starts here, and the length of all of it. -/
def linkAt : List Char → Option (List Char × ℕ)
  | '[' :: rest =>
    let text := rest.takeWhile (· ≠ ']')
    match rest.drop text.length with
    | ']' :: '(' :: after =>
      let target := after.takeWhile (· ≠ ')')
      if text ≠ [] ∧ target.length < after.length then
        some (text, text.length + target.length + 4)
      else none
    | _ => none
  | _ => none

/-- `replace(/\[([^\]]+)\]\([^)]*\)/g, "$1")`. -/
def stripLinks : (skip : ℕ) → List Char → List Char
  | _, [] => []
  | skip + 1, _ :: rest => stripLinks skip rest
  | 0, c :: rest =>
    match linkAt (c :: rest) with
    | some (text, length) => text ++ stripLinks (length - 1) rest
    | none => c :: stripLinks 0 rest

def stripMarkdown (md : String) : String :=
  String.ofList (stripLinks 0 (stripMarks (stripHeadings 0 true md.toList)))

example : stripMarkdown "# Terms\n##  *Due* [on `1 May`](https://a.b) #\n####### x" =
    "Terms\nDue on 1 May \n x" := by decide +kernel

def trim (s : String) : String := String.ofList (JsText.trim s.toList)

/-- The pages of a document, one after the other, in a format. -/
def joinPages (format : Format) (pages : List PageResult) : String :=
  trim ("\n\n".intercalate (pages.map fun p =>
    match format with
    | .markdown => p.markdown
    | .plain => stripMarkdown p.markdown))

def inRange (range : PageRange) (page : ℕ) : Bool := range.1 ≤ page ∧ page ≤ range.2

def pagesToPlain (pages : List PageResult) (whole : String) (ranged : Bool) : String :=
  if !ranged ∧ pages.length ≤ 1 then trim whole else joinPages .plain pages

def executeTextExtraction (doc : RecognizedDocument) (args : TextExtractionArgs) :
    TextExtractionResult :=
  let pages := match args.pageRange with
    | some range => doc.pages.filter fun p => inRange range p.page
    | none => doc.pages
  let text := match args.format with
    | .plain => pagesToPlain pages doc.plainText args.pageRange.isSome
    | .markdown =>
      let joined := joinPages .markdown pages
      if joined = "" then doc.markdown else joined
  let inRange := match args.pageRange with
    | some range => doc.blocks.filter fun b => inRange range b.page
    | none => doc.blocks
  ⟨text, args.format, doc.pageCount, if args.includeBlocks then some inRange else none⟩

def pagesIn (range : PageRange) (doc : RecognizedDocument) : List PageResult :=
  doc.pages.filter fun p => inRange range p.page

def blocksIn (range : PageRange) (doc : RecognizedDocument) : List LayoutBlock :=
  doc.blocks.filter fun b => inRange range b.page

/-- Two documents that differ in nothing a range selects. -/
structure SameInRange (range : PageRange) (doc doc' : RecognizedDocument) : Prop where
  pages : pagesIn range doc' = pagesIn range doc
  blocks : blocksIn range doc' = blocksIn range doc

/-- The text is that of the pages in the range, the blocks are those in the range, and both stay
when the document changes elsewhere. -/
structure HonoursRange (doc : RecognizedDocument) (format : Format) (range : PageRange)
    (includeBlocks : Bool) : Prop where
  text : (executeTextExtraction doc ⟨format, some range, includeBlocks⟩).text =
    joinPages format (pagesIn range doc)
  blocks : (executeTextExtraction doc ⟨format, some range, includeBlocks⟩).blocks =
    if includeBlocks then some (blocksIn range doc) else none
  unchanged : ∀ doc', SameInRange range doc doc' →
    (executeTextExtraction doc' ⟨format, some range, includeBlocks⟩).text =
      (executeTextExtraction doc ⟨format, some range, includeBlocks⟩).text ∧
    (executeTextExtraction doc' ⟨format, some range, includeBlocks⟩).blocks =
      (executeTextExtraction doc ⟨format, some range, includeBlocks⟩).blocks

section Range

variable {doc : RecognizedDocument} {format : Format} {range : PageRange} {includeBlocks : Bool}

theorem text_plain : (executeTextExtraction doc ⟨.plain, some range, includeBlocks⟩).text =
    joinPages .plain (pagesIn range doc) := by
  show pagesToPlain (pagesIn range doc) doc.plainText true = _
  unfold pagesToPlain
  exact if_neg (by simp)

theorem text_markdown : (executeTextExtraction doc ⟨.markdown, some range, includeBlocks⟩).text =
    if joinPages .markdown (pagesIn range doc) = "" then doc.markdown
    else joinPages .markdown (pagesIn range doc) := by
  simp only [executeTextExtraction, pagesIn]
  rfl

/-- Where the format is plain or the range has text, no other text is read. -/
theorem text_of_written
    (h : format = .plain ∨ joinPages .markdown (pagesIn range doc) ≠ "") :
    (executeTextExtraction doc ⟨format, some range, includeBlocks⟩).text =
      joinPages format (pagesIn range doc) := by
  cases format with
  | plain => exact text_plain
  | markdown =>
    rcases h with hplain | hwritten
    · cases hplain
    · rw [text_markdown, if_neg hwritten]

/-- A range is honoured exactly when plain text is asked for or there is text in the range. -/
theorem honours_range_iff (doc : RecognizedDocument) (format : Format) (range : PageRange)
    (includeBlocks : Bool) : HonoursRange doc format range includeBlocks ↔
      format = .plain ∨ joinPages .markdown (pagesIn range doc) ≠ "" := by
  constructor
  · intro hhonours
    by_contra hother
    obtain ⟨hmarkdown, hblank⟩ := not_or.mp hother
    obtain rfl : format = .markdown := by
      cases format with
      | markdown => rfl
      | plain => exact absurd rfl hmarkdown
    have hblank' := not_not.mp hblank
    -- the same pages and blocks, with more text in the document as a whole
    have hchanged := (hhonours.unchanged { doc with markdown := doc.markdown ++ "x" }
      ⟨rfl, rfl⟩).1
    have hpages : pagesIn range { doc with markdown := doc.markdown ++ "x" } =
      pagesIn range doc := rfl
    rw [text_markdown, text_markdown, hpages, if_pos hblank', if_pos hblank'] at hchanged
    have hlength := congrArg (fun s : String => s.toList.length) hchanged
    simp at hlength
  · intro hwritten
    refine ⟨text_of_written hwritten, rfl, fun doc' hsame => ⟨?_, ?_⟩⟩
    · rw [text_of_written hwritten, ← hsame.pages]
      apply text_of_written
      rwa [hsame.pages]
    · show (if includeBlocks then some (blocksIn range doc') else none) =
        if includeBlocks then some (blocksIn range doc) else none
      rw [hsame.blocks]

end Range

/-- A report with nothing on its second page. -/
def report : RecognizedDocument where
  markdown := "# Salaries\n\nAda: 500000"
  plainText := "Salaries Ada: 500000"
  pages := [⟨1, "# Salaries\n\nAda: 500000", none, none⟩, ⟨2, "", none, none⟩]
  blocks := []
  pageCount := 2
  provider := "pdf-text"
  fellBackFrom := none
  tokensUsed := none
  ocrConfidence := none

/-- The markdown of the second page alone is the text of the first. -/
theorem blank_page_shows_others : ¬ ∀ (doc : RecognizedDocument) (format : Format)
    (range : PageRange) (includeBlocks : Bool), HonoursRange doc format range includeBlocks := by
  intro hall
  have htext := (hall report .markdown (2, 2) false).text
  exact absurd htext (by decide +kernel)

end HeirsOcr.TextExtraction

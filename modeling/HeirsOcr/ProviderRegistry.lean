import HeirsOcr.JsText
import HeirsOcr.ProviderRouter

/-!
# The providers of the registry

Each provider maps what its engine reads into the canonical document and stamps its own
name on it. The engines (UTF-8 decoding, pdf-parse, mammoth and turndown, pdf-to-img,
Tesseract, the GLM-OCR endpoint) are parameters; any of them may fail. A run passes no
page range and no language, so every provider reads the whole document.
-/
namespace HeirsOcr.Providers
open JsText

/-- The text layer of a PDF: the pages with their numbers, the text, the page total. -/
structure TextResult where
  pages : List (ℕ × String)
  text : String
  total : ℕ

/-- A word box in pixels; confidence runs from 0 to 100. -/
structure Word where
  text : String
  confidence : ℚ
  bbox : ℚ × ℚ × ℚ × ℚ

structure PageData where
  text : String
  words : List Word

structure LayoutDetail where
  label : String
  bbox_2d : ℚ × ℚ × ℚ × ℚ
  content : Option String

structure LayoutParsingRequest where
  model : String
  file : String
  request_id : Option String
  user_id : Option String

/-- The fields of a response the mapper reads; absent ones are `none`. -/
structure LayoutParsingResponse where
  md_results : Option String
  layout_details : Option (List (Option (List LayoutDetail)))
  dims : Option (List (ℚ × ℚ))
  total_tokens : Option ℕ

structure Engines where
  utf8 : Buffer → String
  base64 : Buffer → String
  getText : Buffer → Except String TextResult
  convertToHtml : Buffer → Except String String
  turndown : String → String
  rasterizePdf : Buffer → Except String (List Buffer)
  readPage : Buffer → Except String PageData
  layoutParsing : LayoutParsingRequest → Except String LayoutParsingResponse

def trimmed (s : String) : String := String.ofList (trim s.toList)

/-- The length of a text in UTF-16 units. -/
def utf16Length (s : String) : ℕ :=
  (s.toList.map fun c => if 0x10000 ≤ c.toNat then 2 else 1).sum

/-- Every document a provider answers with carries the provider's own name. -/
def StampsName (p : OcrProvider) : Prop :=
  ∀ input opts doc, p.recognize input opts = .ok doc → doc.provider = p.name

/-- A document of one page without geometry. -/
def singlePage (provider markdown plainText : String) : RecognizedDocument where
  markdown := markdown
  plainText := plainText
  pages := [⟨1, markdown, none, none⟩]
  blocks := []
  pageCount := 1
  provider := provider
  fellBackFrom := none
  tokensUsed := none
  ocrConfidence := none

def PlainTextProvider (engines : Engines) : OcrProvider where
  name := "plain-text"
  accepts := [.text]
  capabilities := [.text]
  recognize input _ :=
    let markdown := trimmed (engines.utf8 input.buffer)
    .ok (singlePage "plain-text" markdown markdown)

def PdfTextProvider (engines : Engines) : OcrProvider where
  name := "pdf-text"
  accepts := [.pdf]
  capabilities := [.text]
  recognize input _ := do
    let result ← engines.getText input.buffer
    let markdown := trimmed result.text
    return {
      markdown := markdown
      plainText := markdown
      pages := result.pages.map fun p => ⟨p.1, p.2, none, none⟩
      blocks := []
      pageCount := result.total
      provider := "pdf-text"
      fellBackFrom := none
      tokensUsed := none
      ocrConfidence := none }

/-- `replace(/<[^>]+>/g, " ")`: a `<` with no `>` after it, or one right after it, stays. -/
def stripTags : List Char → List Char
  | [] => []
  | c :: cs =>
    if c = '<' ∧ cs.head? ≠ some '>' ∧ '>' ∈ cs then
      ' ' :: stripTags ((cs.dropWhile (· ≠ '>')).drop 1)
    else c :: stripTags cs
  termination_by cs => cs.length
  decreasing_by
    · have hdrop := (List.dropWhile_suffix (p := (· ≠ '>')) (l := cs)).length_le
      simp only [List.length_drop, List.length_cons]
      omega
    · simp

/-- `replace(/\s+/g, " ")`; the flag says that the run of spaces is already replaced. -/
def collapseSpaces : Bool → List Char → List Char
  | _, [] => []
  | inSpace, c :: cs =>
    if isSpace c then
      if inSpace then collapseSpaces true cs else ' ' :: collapseSpaces true cs
    else c :: collapseSpaces false cs

def htmlToText (html : String) : String :=
  String.ofList (trim (collapseSpaces false (stripTags html.toList)))

def MammothProvider (engines : Engines) : OcrProvider where
  name := "mammoth"
  accepts := [.docx]
  capabilities := [.text, .tables]
  recognize input _ := do
    let html ← engines.convertToHtml input.buffer
    return singlePage "mammoth" (trimmed (engines.turndown html)) (htmlToText html)

/-- The page size, inferred from the union of the word boxes. -/
def pageDimensions (words : List Word) : ℚ × ℚ :=
  words.foldl (fun dims w => (max dims.1 w.bbox.2.2.1, max dims.2 w.bbox.2.2.2)) (1, 1)

def normalizeBbox (word : Word) (dims : ℚ × ℚ) : ℚ × ℚ × ℚ × ℚ :=
  (word.bbox.1 / dims.1, word.bbox.2.1 / dims.2, word.bbox.2.2.1 / dims.1,
    word.bbox.2.2.2 / dims.2)

/-- What the loop over the page images accumulates. -/
structure TesseractRead where
  pages : List PageResult
  blocks : List LayoutBlock
  weightedConfidence : ℚ
  characters : ℕ

/-- The body of the inner loop: one word of a page. -/
def TesseractRead.addWord (page : ℕ) (dims : ℚ × ℚ) (r : TesseractRead) (word : Word) :
    TesseractRead :=
  let length := utf16Length (trimmed word.text)
  { r with
    weightedConfidence := r.weightedConfidence + length * word.confidence
    characters := r.characters + length
    blocks := r.blocks ++
      [⟨r.blocks.length, page, .text, some (normalizeBbox word dims), word.text⟩] }

/-- The body of the outer loop: the page after those read so far. -/
def TesseractRead.addPage (r : TesseractRead) (data : PageData) : TesseractRead :=
  let page := r.pages.length + 1
  let dims := pageDimensions data.words
  data.words.foldl (TesseractRead.addWord page dims)
    { r with pages := r.pages ++ [⟨page, trimmed data.text, none, none⟩] }

/-- The images to read: the pages of a PDF, or the upload itself. -/
def pageImages (engines : Engines) (input : DocumentInput) : Except String (List Buffer) :=
  if input.mimeGroup = .pdf then engines.rasterizePdf input.buffer else .ok [input.buffer]

def TesseractProvider (engines : Engines) : OcrProvider where
  name := "tesseract"
  accepts := [.image, .pdf]
  capabilities := [.text, .layout]
  recognize input _ := do
    let images ← pageImages engines input
    let data ← images.mapM engines.readPage
    let r := data.foldl TesseractRead.addPage ⟨[], [], 0, 0⟩
    let markdown := trimmed ("\n\n".intercalate (r.pages.map PageResult.markdown))
    return {
      markdown := markdown
      plainText := markdown
      pages := r.pages
      blocks := r.blocks
      pageCount := r.pages.length
      provider := "tesseract"
      fellBackFrom := none
      tokensUsed := none
      ocrConfidence := some
        (if 0 < r.characters then r.weightedConfidence / r.characters / 100 else 0) }

/-- Unknown labels degrade to `image`. -/
def toBlockLabel (label : String) : BlockLabel :=
  if label = "text" then .text
  else if label = "formula" then .formula
  else if label = "table" then .table
  else .image

def toBlocks (response : LayoutParsingResponse) (pageOffset : ℕ) : List LayoutBlock :=
  let details := (response.layout_details.getD []).zipIdx.flatMap fun page =>
    (page.1.getD []).map fun detail => (pageOffset + page.2 + 1, detail)
  details.mapIdx fun index detail =>
    ⟨index, detail.1, toBlockLabel detail.2.label, some detail.2.bbox_2d,
      detail.2.content.getD ""⟩

/-- The pages of a response; its markdown stays on the first. -/
def toPages (response : LayoutParsingResponse) (pageOffset : ℕ) : List PageResult :=
  let dims := response.dims.getD []
  let pageCount := max (max dims.length (response.layout_details.elim 0 List.length)) 1
  let markdown := trimmed (response.md_results.getD "")
  (List.range pageCount).map fun i =>
    ⟨pageOffset + i + 1, if i = 0 then markdown else "", dims[i]?.map Prod.fst,
      dims[i]?.map Prod.snd⟩

/-- What the loop over the responses accumulates. -/
structure Mapped where
  pages : List PageResult
  blocks : List LayoutBlock
  pageOffset : ℕ
  tokensUsed : ℕ

def Mapped.add (m : Mapped) (response : LayoutParsingResponse) : Mapped where
  pages := m.pages ++ toPages response m.pageOffset
  blocks := m.blocks ++ toBlocks response m.pageOffset
  pageOffset := m.pageOffset + (toPages response m.pageOffset).length
  tokensUsed := m.tokensUsed + response.total_tokens.getD 0

def mapLayoutParsing (responses : List LayoutParsingResponse) (provider : String) :
    RecognizedDocument :=
  let m := responses.foldl Mapped.add ⟨[], [], 0, 0⟩
  let texts := (m.pages.map PageResult.markdown).filter (· ≠ "")
  let markdown := trimmed ("\n\n".intercalate texts)
  { markdown := markdown
    plainText := markdown
    pages := m.pages
    blocks := m.blocks.mapIdx fun i block => { block with index := i }
    pageCount := m.pages.length
    provider := provider
    fellBackFrom := none
    tokensUsed := some m.tokensUsed
    ocrConfidence := none }

/-- The media type by magic bytes; whatever is not recognized is sent as a PNG. The last
test decodes as ASCII, which drops the high bit of each byte. -/
def imageMime (buffer : Buffer) : String :=
  let ascii := fun start => ((buffer.drop start).take 4).map (· &&& 0x7f)
  if buffer.length < 4 then "image/png"
  else if buffer.take 4 = [0x89, 0x50, 0x4e, 0x47] then "image/png"
  else if buffer.take 3 = [0xff, 0xd8, 0xff] then "image/jpeg"
  else if buffer.take 3 = [0x47, 0x49, 0x46] then "image/gif"
  else if buffer.take 2 = [0x42, 0x4d] then "image/bmp"
  else if buffer.take 2 = [0x49, 0x49] then "image/tiff"
  else if buffer.take 2 = [0x4d, 0x4d] then "image/tiff"
  else if 12 ≤ buffer.length ∧ ascii 0 = [0x52, 0x49, 0x46, 0x46] ∧
      ascii 8 = [0x57, 0x45, 0x42, 0x50] then "image/webp"
  else "image/png"

/-- A value the endpoint would refuse for its length is left out. -/
def inRange (value : String) (min max : ℕ) : Option String :=
  if min ≤ utf16Length value ∧ utf16Length value ≤ max then some value else none

def buildRequest (file : String) (opts : RecognizeOptions) : LayoutParsingRequest :=
  ⟨"glm-ocr", file, inRange opts.requestId 6 64, inRange opts.userIdHash 6 128⟩

/-- The data URIs to send: a PNG for each page of a PDF, or the upload under its own type. -/
def pageChunks (engines : Engines) (input : DocumentInput) : Except String (List String) :=
  if input.mimeGroup = .pdf then do
    let images ← engines.rasterizePdf input.buffer
    return images.map fun image => "data:image/png;base64," ++ engines.base64 image
  else
    let mime := imageMime input.buffer
    .ok ["data:" ++ mime ++ ";base64," ++ engines.base64 input.buffer]

def GlmOcrProvider (engines : Engines) : OcrProvider where
  name := "glm-ocr"
  accepts := [.pdf, .image]
  capabilities := [.text, .layout, .tables, .handwriting, .seals]
  recognize input opts := do
    let files ← pageChunks engines input
    let responses ← files.mapM fun file => engines.layoutParsing (buildRequest file opts)
    return mapLayoutParsing responses "glm-ocr"

/-- The composition root; GLM-OCR is there only when it is enabled. -/
def buildProviderRegistry (GLM_ENABLED : Bool) (engines : Engines) : List OcrProvider :=
  [PlainTextProvider engines, PdfTextProvider engines, MammothProvider engines,
    TesseractProvider engines] ++ if GLM_ENABLED then [GlmOcrProvider engines] else []

/-- A call that answers got what it asked its engine for. -/
theorem exists_read {Read Answer : Type} {read : Except String Read}
    {answer : Read → Except String Answer} {doc : Answer} (h : read >>= answer = .ok doc) :
    ∃ value, read = .ok value ∧ answer value = .ok doc := by
  cases hread : read with
  | error message =>
    rw [hread] at h
    cases h
  | ok value =>
    rw [hread] at h
    exact ⟨value, rfl, h⟩

theorem stampsName_pdfText (engines : Engines) : StampsName (PdfTextProvider engines) := by
  intro input opts doc h
  obtain ⟨result, -, hdoc⟩ := exists_read h
  obtain rfl := Except.ok.inj hdoc
  rfl

theorem stampsName_mammoth (engines : Engines) : StampsName (MammothProvider engines) := by
  intro input opts doc h
  obtain ⟨html, -, hdoc⟩ := exists_read h
  obtain rfl := Except.ok.inj hdoc
  rfl

theorem stampsName_tesseract (engines : Engines) : StampsName (TesseractProvider engines) := by
  intro input opts doc h
  obtain ⟨images, -, hread⟩ := exists_read h
  obtain ⟨data, -, hdoc⟩ := exists_read hread
  obtain rfl := Except.ok.inj hdoc
  rfl

theorem stampsName_glmOcr (engines : Engines) : StampsName (GlmOcrProvider engines) := by
  intro input opts doc h
  obtain ⟨files, -, hread⟩ := exists_read h
  obtain ⟨responses, -, hdoc⟩ := exists_read hread
  obtain rfl := Except.ok.inj hdoc
  rfl

/-- Whatever the engines read, every registered provider stamps its own name. -/
theorem stampsName_of_mem_buildProviderRegistry {GLM_ENABLED : Bool} {engines : Engines}
    {p : OcrProvider} (h : p ∈ buildProviderRegistry GLM_ENABLED engines) : StampsName p := by
  have hplain : StampsName (PlainTextProvider engines) := fun input opts doc h => by
    obtain rfl := Except.ok.inj h
    rfl
  rw [buildProviderRegistry, List.mem_append] at h
  rcases h with h | h
  · simp only [List.mem_cons, List.not_mem_nil, or_false] at h
    rcases h with rfl | rfl | rfl | rfl
    · exact hplain
    · exact stampsName_pdfText engines
    · exact stampsName_mammoth engines
    · exact stampsName_tesseract engines
  · split_ifs at h
    · obtain rfl := List.mem_singleton.mp h
      exact stampsName_glmOcr engines
    · cases h

/-- The registered names are distinct. -/
theorem nodup_buildProviderRegistry (GLM_ENABLED : Bool) (engines : Engines) :
    ((buildProviderRegistry GLM_ENABLED engines).map OcrProvider.name).Nodup := by
  cases GLM_ENABLED <;>
    simp [buildProviderRegistry, PlainTextProvider, PdfTextProvider, MammothProvider,
      TesseractProvider, GlmOcrProvider]

end HeirsOcr.Providers

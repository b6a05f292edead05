import HeirsOcr.JsonMeasure
import HeirsOcr.Pipeline
import HeirsOcr.Prompt
import HeirsOcr.ReceiptProjection
import HeirsOcr.Rounding

/-!
# Signatures and seals

A document is judged from crops of the regions a provider located or, when the provider cannot
locate any, from images of whole pages. A page has an image only if the rasterizer yields one, so
a region may be reported that no one looked at.
-/
namespace HeirsOcr.Signing
open Doubles Llm Pipeline Providers
open ReceiptProjection (Confidence)

abbrev Bbox := ℚ × ℚ × ℚ × ℚ

/-- What the language does with numbers and letters: how it rounds, `String.toLowerCase` and
`Math.hypot`. -/
structure Engine extends Rounding where
  toLowerCase : List Char → List Char
  hypot : ℚ → ℚ → ℚ

structure SigningArgs where
  geometryOnly : Bool
  signatureCues : List String
  maxVisionPages : ℕ+

structure SigningJudgment where
  signed : Bool
  hasSeal : Bool
  signatoryName : Option String
  signedDate : Option String
  deriving DecidableEq, Repr

/-- A block of the whole-page pass. -/
structure LabelledJudgment extends SigningJudgment where
  label : String
  deriving DecidableEq, Repr

structure SignatureBlock where
  label : String
  page : ℕ
  bbox : Option Bbox
  signed : Bool
  hasSeal : Bool
  signatoryName : Option String
  signedDate : Option String
  deriving DecidableEq, Repr

structure SigningResult where
  fullyExecuted : Bool
  blocks : List SignatureBlock
  unsignedBlocks : List String
  confidence : Confidence
  warnings : List String
  deriving DecidableEq, Repr

/-- A correlated pair of a cue label and a signature image: an expected signature slot. -/
structure Slot where
  label : String
  page : ℕ
  bbox : Bbox
  image : Option LayoutBlock
  context : String
  deriving DecidableEq

def CORRELATION_THRESHOLD : ℚ := 1 / 4

def CROP_PADDING : ℚ := 1 / 50

def trim (s : String) : String := String.ofList (JsText.trim s.toList)

/-- The first cue phrase present in a text. -/
def matchCue (js : Engine) (content : String) (cues : List String) : Option String :=
  let haystack := js.toLowerCase content.toList
  cues.find? fun cue => js.toLowerCase cue.toList <:+: haystack

def center (r : Rounding) (b : Bbox) : ℚ × ℚ :=
  (r.round (r.round (b.1 + b.2.2.1) / 2), r.round (r.round (b.2.1 + b.2.2.2) / 2))

def distance (js : Engine) (a b : Bbox) : ℚ :=
  let a := center js.toRounding a
  let b := center js.toRounding b
  js.hypot (js.round (a.1 - b.1)) (js.round (a.2 - b.2))

/-- The nearest image on the page within the threshold; of two as near, the later. -/
def nearestImage (js : Engine) (bbox : Bbox) (page : ℕ) (images : List (LayoutBlock × Bbox)) :
    Option (LayoutBlock × Bbox) :=
  (images.foldl (fun best image =>
    if image.1.page ≠ page then best
    else if distance js bbox image.2 ≤ best.2 then (some image, distance js bbox image.2)
    else best) (none, CORRELATION_THRESHOLD)).1

/-- The slots by the index of their image, and those without an image. -/
structure Slots where
  byImage : List (ℕ × Slot)
  orphans : List Slot

/-- A cue near an image makes its slot, or adds to the context of the slot that is there. -/
def Slots.addCue (slots : Slots) (block : LayoutBlock) (bbox : Bbox) (cue : String)
    (image : Option (LayoutBlock × Bbox)) : Slots :=
  match image with
  | some (image, imageBbox) =>
    if image.index ∈ slots.byImage.map Prod.fst then
      { slots with byImage := slots.byImage.map fun entry =>
          if entry.1 = image.index then
            (entry.1, { entry.2 with
              context := JsText.slice (trim (entry.2.context ++ "\n" ++ block.content)) 800 })
          else entry }
    else
      { slots with byImage := slots.byImage ++
          [(image.index, ⟨cue, block.page, imageBbox, some image, trim block.content⟩)] }
  | none =>
    { slots with orphans := slots.orphans ++ [⟨cue, block.page, bbox, none, trim block.content⟩] }

def imagesOf (allBlocks : List LayoutBlock) : List (LayoutBlock × Bbox) :=
  allBlocks.filterMap fun b => if b.label = .image then b.bbox.map fun bbox => (b, bbox) else none

def correlateBlock (js : Engine) (images : List (LayoutBlock × Bbox)) (cues : List String)
    (slots : Slots) (block : LayoutBlock) : Slots :=
  if block.label = .image then slots
  else
    match block.bbox, (matchCue js block.content cues).filter (· ≠ "") with
    | some bbox, some cue => slots.addCue block bbox cue (nearestImage js bbox block.page images)
    | _, _ => slots

def correlateSlots (js : Engine) (allBlocks : List LayoutBlock) (cues : List String) : List Slot :=
  let slots := allBlocks.foldl (correlateBlock js (imagesOf allBlocks) cues) ⟨[], []⟩
  slots.byImage.map Prod.snd ++ slots.orphans

/-- The pages a document yields, one after the other, and what it throws in place of the next. -/
structure PdfPages where
  images : List Buffer
  broken : Option Thrown

/-- The imaging libraries: `pdf` rasterizes, the others read and cut an image. -/
structure Imaging where
  pdf : Buffer → Except Thrown PdfPages
  metadata : Buffer → Except Thrown (Option ℕ × Option ℕ)
  extract : Buffer → (left top width height : ℤ) → Except Thrown Buffer
  base64 : Buffer → String

def rasterizePages (imaging : Imaging) (mimeGroup : MimeGroup) (buffer : Buffer)
    (pages : List ℕ) : Except Thrown (ℕ → Option Buffer) :=
  if pages = [] then .ok fun _ => none
  else if mimeGroup = .image then .ok fun page => if page ∈ pages then some buffer else none
  else
    match imaging.pdf buffer with
    | .error e => .error e
    | .ok doc =>
      -- the loop asks for one page more until it has the last one it needs
      match doc.broken.filter fun _ => doc.images.length < max 1 (pages.foldr max 0) with
      | some e => .error e
      | none => .ok fun page => if page ∈ pages ∧ 1 ≤ page then doc.images[page - 1]? else none

def clamp01 (n : ℚ) : ℚ := max 0 (min 1 n)

def cropRegion (r : Rounding) (imaging : Imaging) (pageImage : Buffer) (bbox : Bbox) :
    Except Thrown String := do
  let size ← imaging.metadata pageImage
  let width := size.1.getD 0
  let height := size.2.getD 0
  if width = 0 ∨ height = 0 then
    throw (.other "cropRegion: could not read page image dimensions")
  let padding := r.round CROP_PADDING
  let x0 := clamp01 (r.round (bbox.1 - padding))
  let y0 := clamp01 (r.round (bbox.2.1 - padding))
  let x1 := clamp01 (r.round (bbox.2.2.1 + padding))
  let y1 := clamp01 (r.round (bbox.2.2.2 + padding))
  let left : ℤ := min ⌊r.round (x0 * width)⌋ (width - 1)
  let top : ℤ := min ⌊r.round (y0 * height)⌋ (height - 1)
  let cropWidth : ℤ := max 1 (min ⌈r.round (r.round (x1 - x0) * width)⌉ (width - left))
  let cropHeight : ℤ := max 1 (min ⌈r.round (r.round (y1 - y0) * height)⌉ (height - top))
  let buffer ← imaging.extract pageImage left top cropWidth cropHeight
  return "data:image/png;base64," ++ imaging.base64 buffer

structure VisionRequest where
  prompt : Prompt
  image : String
  schemaName : String
  deriving DecidableEq, Repr

inductive VisionAnswer where
  | region (judgment : SigningJudgment)
  | page (blocks : List LabelledJudgment)
  deriving DecidableEq, Repr

structure VisionCall where
  request : VisionRequest
  answer : VisionAnswer
  deriving DecidableEq, Repr

/-- The model, asked under the schema of a region or of a page; what it answers may depend on what
it was asked before. -/
structure Vision where
  judge : List VisionCall → VisionRequest → Except Thrown SigningJudgment
  judgePage : List VisionCall → VisionRequest → Except Thrown (List LabelledJudgment)

def buildSigningJudgmentPrompt (cueContext : String) : Prompt where
  system := buildSystem [
    "You are a signature-block analyst.",
    "Given a cropped region of an executed document and its surrounding label text,",
    "decide whether it contains a handwritten signature, whether a company seal/stamp is present,",
    "and read any signatory name and date. " ++
      "Report signed=false if the region is an empty signature line."]
  user := wrapUntrusted "SIGNATURE-BLOCK CONTEXT" cueContext ++ "\n\nJudge the attached crop."

def buildWholePageSigningPrompt (pageText : String) : Prompt where
  system := buildSystem [
    "You are a signature-block analyst examining one full page of a document.",
    "Find every signature block on the page — both completed and empty ones.",
    "For each, report a short label identifying it (use the printed caption where there is one,",
    "e.g. \"Director\", \"Witness\", \"For and on behalf of X\"), " ++
      "whether a handwritten signature is",
    "actually present, whether a company seal or stamp is present, " ++
      "and any signatory name and date.",
    "An empty ruled line, a blank box, or a caption with nothing written on it is signed=false.",
    "A typed name alone is not a signature. Do not invent blocks that are not visible on the page;",
    "return an empty list if the page carries no signature blocks at all."]
  user := wrapUntrusted "PAGE TEXT" pageText ++
    "\n\nExamine the attached page image and report its signature blocks."

/-- A text that is neither missing nor empty. -/
def given (s : Option String) : Option String := s.filter (· ≠ "")

def toBlock (slot : Slot) (judgment : SigningJudgment) : SignatureBlock where
  label := slot.label
  page := slot.page
  bbox := some slot.bbox
  signed := judgment.signed
  hasSeal := judgment.hasSeal
  signatoryName := given judgment.signatoryName
  signedDate := given judgment.signedDate

/-- What is reported of a slot that was not judged. -/
def unjudged : SigningJudgment := ⟨false, false, none, none⟩

def pageBlock (page : ℕ) (judged : LabelledJudgment) : SignatureBlock where
  label := judged.label
  page := page
  bbox := none
  signed := judged.signed
  hasSeal := judged.hasSeal
  signatoryName := given judged.signatoryName
  signedDate := given judged.signedDate

/-- Fully executed with one slot at least, and every slot signed. -/
def assemble (blocks : List SignatureBlock) (confidence : Confidence) (warnings : List String) :
    SigningResult where
  fullyExecuted := 0 < blocks.length ∧ blocks.all SignatureBlock.signed
  blocks := blocks
  unsignedBlocks := (blocks.filter fun b => !b.signed).map SignatureBlock.label
  confidence := confidence
  warnings := warnings

section Strategies

variable (js : Engine) (imaging : Imaging)

/-- The loop over the slots: a slot is judged if it has an image and its page has one. -/
def judgeSlots (vision : Vision) (pageImages : ℕ → Option Buffer) :
    List Slot → List VisionCall → Except Thrown (List SignatureBlock × List VisionCall)
  | [], calls => .ok ([], calls)
  | slot :: rest, calls =>
    match slot.image with
    | none => do
      let (blocks, calls) ← judgeSlots vision pageImages rest calls
      return (toBlock slot unjudged :: blocks, calls)
    | some _ =>
      match pageImages slot.page with
      | none => do
        let (blocks, calls) ← judgeSlots vision pageImages rest calls
        return (toBlock slot unjudged :: blocks, calls)
      | some pageImage => do
        let crop ← cropRegion js.toRounding imaging pageImage slot.bbox
        let request := ⟨buildSigningJudgmentPrompt slot.context, crop, "SIGNING_judgment"⟩
        let judgment ← vision.judge calls request
        let (blocks, calls) ←
          judgeSlots vision pageImages rest (calls ++ [⟨request, .region judgment⟩])
        return (toBlock slot judgment :: blocks, calls)

def pageText (doc : RecognizedDocument) (page : ℕ) : String :=
  JsText.slice (((doc.pages.find? fun p => p.page = page).map PageResult.markdown).getD "") 4000

def wholePageRequest (doc : RecognizedDocument) (page : ℕ) (pageImage : Buffer) :
    VisionRequest where
  prompt := buildWholePageSigningPrompt (pageText doc page)
  image := "data:image/png;base64," ++ imaging.base64 pageImage
  schemaName := "SIGNING_whole_page"

def unexaminedWarning (page : ℕ) : String :=
  "Page " ++ toString page ++ " could not be rasterized and was not examined."

/-- The loop over the pages: a page without an image raises a warning. -/
def judgePages (vision : Vision) (doc : RecognizedDocument) (pageImages : ℕ → Option Buffer) :
    List ℕ → List VisionCall →
      Except Thrown (List SignatureBlock × List String × List VisionCall)
  | [], calls => .ok ([], [], calls)
  | page :: rest, calls =>
    match pageImages page with
    | none => do
      let (blocks, warnings, calls) ← judgePages vision doc pageImages rest calls
      return (blocks, unexaminedWarning page :: warnings, calls)
    | some pageImage => do
      let request := wholePageRequest imaging doc page pageImage
      let judged ← vision.judgePage calls request
      let (blocks, warnings, calls) ←
        judgePages vision doc pageImages rest (calls ++ [⟨request, .page judged⟩])
      return (judged.map (pageBlock page) ++ blocks, warnings, calls)

/-- The pages with a cue, or else the last one. -/
def candidatePages (doc : RecognizedDocument) (args : SigningArgs) : List ℕ :=
  let cued := (doc.pages.filter fun p => (matchCue js p.markdown args.signatureCues).isSome).map
    PageResult.page
  if 0 < cued.length then cued else [max 1 doc.pageCount]

/-- The latest candidates the budget allows, and whether it leaves any out. -/
def selectVisionPages (doc : RecognizedDocument) (args : SigningArgs) : List ℕ × Bool :=
  let candidates := candidatePages js doc args
  if candidates.length ≤ args.maxVisionPages then (candidates, false)
  else (candidates.drop (candidates.length - args.maxVisionPages), true)

def DEGRADED_WARNING : String :=
  "Extraction ran on a provider without `seals`, so signature regions could not be located. " ++
    "Judged from whole-page images instead: block geometry is absent and detection is less " ++
    "reliable. " ++
    "Treat `fullyExecuted` as indicative, not authoritative."

def truncatedWarning (args : SigningArgs) (pages : List ℕ) : String :=
  "More candidate pages than the `maxVisionPages` budget of " ++
    toString (args.maxVisionPages : ℕ) ++ "; scanned pages " ++
    ", ".intercalate (pages.map toString) ++ " only. Raise `maxVisionPages` to widen the scan."

def executeWholePage (ctx : OcrContext Vision) (args : SigningArgs) :
    Except Thrown (SigningResult × List VisionCall) :=
  if args.geometryOnly then
    .ok (assemble [] .low [DEGRADED_WARNING,
      "`geometryOnly` requires a `seals`-capable provider; no block geometry was produced."], [])
  else do
    let (pages, truncated) := selectVisionPages js ctx.doc args
    let pageImages ← rasterizePages imaging ctx.mimeGroup ctx.buffer pages
    let (blocks, unexamined, calls) ← judgePages imaging ctx.llm ctx.doc pageImages pages []
    let warnings := DEGRADED_WARNING ::
      (if truncated then [truncatedWarning args pages] else []) ++ unexamined ++
      if blocks.length = 0 then ["No signature blocks were identified on the scanned pages."]
      else []
    return (assemble blocks .low warnings, calls)

/-- The result, and the calls to the model it took. -/
def executeSigning (ctx : OcrContext Vision) (args : SigningArgs) :
    Except Thrown (SigningResult × List VisionCall) :=
  if .seals ∉ ctx.capabilities then executeWholePage js imaging ctx args
  else
    let slots := correlateSlots js ctx.doc.blocks args.signatureCues
    if args.geometryOnly then
      .ok (assemble (slots.map fun slot => toBlock slot unjudged) .high [], [])
    else do
      let pagesNeeded := (slots.filter fun s => s.image.isSome).map Slot.page
      let pageImages ← rasterizePages imaging ctx.mimeGroup ctx.buffer pagesNeeded
      let (blocks, calls) ← judgeSlots js imaging ctx.llm pageImages slots []
      return (assemble blocks .high [], calls)

end Strategies

end HeirsOcr.Signing

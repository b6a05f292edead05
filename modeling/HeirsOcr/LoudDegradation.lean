import HeirsOcr.Signing
import Mathlib.Data.List.Forall2

/-!
# How signing degrades

With a provider that locates regions the result has high confidence and no warnings, whatever
became of the images of the pages. Without one, confidence is low and every candidate page that
was not examined is named or left out of a list by a warning.
-/
namespace HeirsOcr.Signing
open Doubles Llm Pipeline Providers
open ReceiptProjection (Confidence)

/-- The image the rasterizer yields for a page. -/
def yielded (imaging : Imaging) (mimeGroup : MimeGroup) (buffer : Buffer) (page : ℕ) :
    Option Buffer :=
  if mimeGroup = .image then some buffer
  else
    match imaging.pdf buffer with
    | .ok doc => if 1 ≤ page then doc.images[page - 1]? else none
    | .error _ => none

section Degradation

variable (js : Engine) (imaging : Imaging) (ctx : OcrContext Vision) (args : SigningArgs)

/-- If the slot has an image, the block is what the model made of the image, cut out of its own
page. -/
def Judged (calls : List VisionCall) (slot : Slot) (block : SignatureBlock) : Prop :=
  ∀ image ∈ slot.image, ∃ pageImage bbox crop judgment,
    yielded imaging ctx.mimeGroup ctx.buffer image.page = some pageImage ∧
      image.bbox = some bbox ∧ cropRegion js.toRounding imaging pageImage bbox = .ok crop ∧
        ⟨⟨buildSigningJudgmentPrompt slot.context, crop, "SIGNING_judgment"⟩,
          .region judgment⟩ ∈ calls ∧ block = toBlock slot judgment

/-- The model was shown the page. -/
def Examined (calls : List VisionCall) (page : ℕ) : Prop :=
  ∃ pageImage, yielded imaging ctx.mimeGroup ctx.buffer page = some pageImage ∧
    ∃ call ∈ calls, call.request = wholePageRequest imaging ctx.doc page pageImage

/-- A warning says the page was not examined, or lists the pages that were without it. -/
def Covers (page : ℕ) (warning : String) : Prop :=
  warning = unexaminedWarning page ∨
    ∃ pages, page ∉ pages ∧ warning = truncatedWarning args pages

structure DegradesLoudly (result : SigningResult) (calls : List VisionCall) : Prop where
  judged : result.confidence = .high → result.warnings = [] →
    List.Forall₂ (Judged js imaging ctx calls)
      (correlateSlots js ctx.doc.blocks args.signatureCues) result.blocks
  degraded : .seals ∉ ctx.capabilities → result.confidence = .low ∧
    ∀ page ∈ candidatePages js ctx.doc args, ¬ Examined imaging ctx calls page →
      ∃ warning ∈ result.warnings, Covers args page warning

/-- The rasterizer yields the page of every image that a cue correlates with. -/
def ImagesYielded : Prop :=
  ∀ slot ∈ correlateSlots js ctx.doc.blocks args.signatureCues, ∀ image ∈ slot.image,
    (yielded imaging ctx.mimeGroup ctx.buffer image.page).isSome

end Degradation

/-- An image of a slot is an image block of the slot's page, in the slot's place. -/
def SlotOk (allBlocks : List LayoutBlock) (slot : Slot) : Prop :=
  ∀ image ∈ slot.image, image ∈ allBlocks ∧ image.label = .image ∧ image.page = slot.page ∧
    image.bbox = some slot.bbox

theorem slotOk_context {allBlocks : List LayoutBlock} {slot : Slot} (h : SlotOk allBlocks slot)
    (context : String) : SlotOk allBlocks { slot with context := context } := h

theorem mem_imagesOf {allBlocks : List LayoutBlock} {image : LayoutBlock} {bbox : Bbox}
    (h : (image, bbox) ∈ imagesOf allBlocks) :
    image ∈ allBlocks ∧ image.label = .image ∧ image.bbox = some bbox := by
  obtain ⟨b, hb, heq⟩ := List.mem_filterMap.mp h
  split_ifs at heq with hlabel
  obtain ⟨bbox', hbbox, hpair⟩ := Option.map_eq_some_iff.mp heq
  obtain ⟨rfl, rfl⟩ := Prod.mk.inj hpair
  exact ⟨hb, hlabel, hbbox⟩

theorem nearestImage_mem {js : Engine} {bbox : Bbox} {page : ℕ} {images : List (LayoutBlock × Bbox)}
    {nearest : LayoutBlock × Bbox} (h : nearestImage js bbox page images = some nearest) :
    nearest ∈ images ∧ nearest.1.page = page := by
  refine List.foldlRecOn (motive := fun best : Option (LayoutBlock × Bbox) × ℚ =>
    ∀ image, best.1 = some image → image ∈ images ∧ image.1.page = page) images _ ?_ ?_ nearest h
  · intro image hnone
    cases hnone
  · intro best hbest first hfirst image hnew
    split_ifs at hnew with hpage hnear
    · exact hbest image hnew
    · obtain rfl := Option.some.inj hnew
      exact ⟨hfirst, not_not.mp hpage⟩
    · exact hbest image hnew

def SlotsOk (allBlocks : List LayoutBlock) (slots : Slots) : Prop :=
  ∀ slot ∈ slots.byImage.map Prod.snd ++ slots.orphans, SlotOk allBlocks slot

theorem addCue_ok {js : Engine} {allBlocks : List LayoutBlock} {slots : Slots}
    (h : SlotsOk allBlocks slots) (block : LayoutBlock) (bbox : Bbox) (cue : String) :
    SlotsOk allBlocks
      (slots.addCue block bbox cue (nearestImage js bbox block.page (imagesOf allBlocks))) := by
  unfold Slots.addCue
  cases hnearest : nearestImage js bbox block.page (imagesOf allBlocks) with
  | none =>
    intro slot hslot
    rw [← List.append_assoc, List.mem_append, List.mem_singleton] at hslot
    rcases hslot with hslot | hnew
    · exact h slot hslot
    · rw [hnew]
      intro image himage
      exact absurd himage (Option.not_mem_none image)
  | some nearest =>
    obtain ⟨image, imageBbox⟩ := nearest
    dsimp only
    by_cases hknown : image.index ∈ slots.byImage.map Prod.fst
    · rw [if_pos hknown]
      intro slot hslot
      rcases List.mem_append.mp hslot with hslot | horphan
      · rw [List.map_map] at hslot
        obtain ⟨entry, hentry, hupdated⟩ := List.mem_map.mp hslot
        have hold := h entry.2 (List.mem_append_left _ (List.mem_map_of_mem hentry))
        rw [← hupdated, Function.comp_apply]
        by_cases hindex : entry.1 = image.index
        · rw [if_pos hindex]
          exact slotOk_context hold _
        · rw [if_neg hindex]
          exact hold
      · exact h slot (List.mem_append_right _ horphan)
    · rw [if_neg hknown]
      intro slot hslot
      dsimp only at hslot
      rw [List.map_append, List.map_singleton, List.mem_append, List.mem_append,
        List.mem_singleton] at hslot
      rcases hslot with (hslot | hnew) | horphan
      · exact h slot (List.mem_append_left _ hslot)
      · rw [hnew]
        intro image' himage
        obtain rfl := Option.some.inj himage
        obtain ⟨hmem, hpage⟩ := nearestImage_mem hnearest
        obtain ⟨hblock, hlabel, hbbox⟩ := mem_imagesOf hmem
        exact ⟨hblock, hlabel, hpage, hbbox⟩
      · exact h slot (List.mem_append_right _ horphan)

theorem correlateSlots_ok (js : Engine) (allBlocks : List LayoutBlock) (cues : List String) :
    ∀ slot ∈ correlateSlots js allBlocks cues, SlotOk allBlocks slot := by
  refine List.foldlRecOn (motive := SlotsOk allBlocks) allBlocks _ ?_ ?_
  · exact fun _ hmem => absurd hmem List.not_mem_nil
  · intro slots h block _
    unfold correlateBlock
    split_ifs
    · exact h
    · split
      · exact addCue_ok h block _ _
      · exact h

section Runs

variable {js : Engine} {imaging : Imaging} {ctx : OcrContext Vision} {args : SigningArgs}

theorem bind_eq_ok {ε α β : Type} {x : Except ε α} {f : α → Except ε β} {b : β} :
    x >>= f = .ok b ↔ ∃ a, x = .ok a ∧ f a = .ok b := by
  cases x with
  | error e => simp [bind, Except.bind]
  | ok a => simp [bind, Except.bind]

/-- Of the pages asked for, the rasterizer has those it yields. -/
theorem rasterizePages_eq {mimeGroup : MimeGroup} {buffer : Buffer} {pages : List ℕ}
    {pageImages : ℕ → Option Buffer}
    (h : rasterizePages imaging mimeGroup buffer pages = .ok pageImages) {page : ℕ}
    (hpage : page ∈ pages) : pageImages page = yielded imaging mimeGroup buffer page := by
  unfold rasterizePages at h
  unfold yielded
  have hsome : pages ≠ [] := List.ne_nil_of_mem hpage
  rw [if_neg hsome] at h
  by_cases himage : mimeGroup = .image
  · rw [if_pos himage] at h ⊢
    rw [← Except.ok.inj h]
    exact if_pos hpage
  · rw [if_neg himage] at h ⊢
    cases hdoc : imaging.pdf buffer with
    | error e =>
      rw [hdoc] at h
      cases h
    | ok doc =>
      rw [hdoc] at h
      dsimp only at h ⊢
      split at h
      · cases h
      · rw [← Except.ok.inj h]
        simp [hpage]

/-- The loop over the slots makes a block of each, and asks about every slot that has an image and
whose page has one. -/
theorem judgeSlots_spec {vision : Vision} {pageImages : ℕ → Option Buffer} {slots : List Slot}
    {calls calls' : List VisionCall} {blocks : List SignatureBlock}
    (h : judgeSlots js imaging vision pageImages slots calls = .ok (blocks, calls')) :
    calls ⊆ calls' ∧ List.Forall₂ (fun slot block =>
      (∃ judgment, block = toBlock slot judgment) ∧ (slot.image.isSome →
        ∀ pageImage ∈ pageImages slot.page, ∃ crop judgment,
          cropRegion js.toRounding imaging pageImage slot.bbox = .ok crop ∧
            ⟨⟨buildSigningJudgmentPrompt slot.context, crop, "SIGNING_judgment"⟩,
              .region judgment⟩ ∈ calls' ∧ block = toBlock slot judgment)) slots blocks := by
  induction slots generalizing calls blocks with
  | nil =>
    obtain ⟨rfl, rfl⟩ := Prod.mk.inj (Except.ok.inj h)
    exact ⟨List.Subset.refl _, .nil⟩
  | cons slot rest ih =>
    unfold judgeSlots at h
    cases himage : slot.image with
    | none =>
      rw [himage] at h
      obtain ⟨⟨blocks', calls''⟩, hrest, hdone⟩ := bind_eq_ok.mp h
      obtain ⟨rfl, rfl⟩ := Prod.mk.inj (Except.ok.inj hdone)
      obtain ⟨hsubset, hblocks⟩ := ih hrest
      refine ⟨hsubset, .cons ⟨⟨_, rfl⟩, fun hsome => ?_⟩ hblocks⟩
      rw [himage] at hsome
      cases hsome
    | some image =>
      rw [himage] at h
      dsimp only at h
      cases hpage : pageImages slot.page with
      | none =>
        rw [hpage] at h
        obtain ⟨⟨blocks', calls''⟩, hrest, hdone⟩ := bind_eq_ok.mp h
        obtain ⟨rfl, rfl⟩ := Prod.mk.inj (Except.ok.inj hdone)
        obtain ⟨hsubset, hblocks⟩ := ih hrest
        refine ⟨hsubset, .cons ⟨⟨_, rfl⟩, fun _ pageImage hmem => ?_⟩ hblocks⟩
        rw [hpage] at hmem
        exact absurd hmem (Option.not_mem_none _)
      | some pageImage =>
        rw [hpage] at h
        obtain ⟨crop, hcrop, h⟩ := bind_eq_ok.mp h
        obtain ⟨judgment, -, h⟩ := bind_eq_ok.mp h
        obtain ⟨⟨blocks', calls''⟩, hrest, hdone⟩ := bind_eq_ok.mp h
        obtain ⟨rfl, rfl⟩ := Prod.mk.inj (Except.ok.inj hdone)
        obtain ⟨hsubset, hblocks⟩ := ih hrest
        refine ⟨fun _ hmem => hsubset (List.mem_append_left _ hmem),
          .cons ⟨⟨judgment, rfl⟩, fun _ pageImage' hmem => ?_⟩ hblocks⟩
        rw [hpage] at hmem
        obtain rfl := Option.some.inj hmem
        exact ⟨crop, judgment, hcrop,
          hsubset (List.mem_append_right _ (List.mem_singleton_self _)), rfl⟩

/-- The loop over the pages shows the model every page that has an image, and names the others. -/
theorem judgePages_spec {vision : Vision} {doc : RecognizedDocument}
    {pageImages : ℕ → Option Buffer} {pages : List ℕ} {calls calls' : List VisionCall}
    {blocks : List SignatureBlock} {warnings : List String}
    (h : judgePages imaging vision doc pageImages pages calls = .ok (blocks, warnings, calls')) :
    calls ⊆ calls' ∧ ∀ page ∈ pages, unexaminedWarning page ∈ warnings ∨
      ∃ pageImage ∈ pageImages page, ∃ call ∈ calls',
        call.request = wholePageRequest imaging doc page pageImage := by
  induction pages generalizing calls blocks warnings with
  | nil =>
    obtain ⟨-, hcalls⟩ := Prod.mk.inj (Except.ok.inj h)
    obtain ⟨-, rfl⟩ := Prod.mk.inj hcalls
    exact ⟨List.Subset.refl _, fun _ hmem => absurd hmem List.not_mem_nil⟩
  | cons page rest ih =>
    unfold judgePages at h
    cases hpage : pageImages page with
    | none =>
      rw [hpage] at h
      obtain ⟨⟨blocks', warnings', calls''⟩, hrest, hdone⟩ := bind_eq_ok.mp h
      obtain ⟨-, hwarnings⟩ := Prod.mk.inj (Except.ok.inj hdone)
      obtain ⟨rfl, rfl⟩ := Prod.mk.inj hwarnings
      obtain ⟨hsubset, hpages⟩ := ih hrest
      refine ⟨hsubset, fun page' hmem => ?_⟩
      rcases List.mem_cons.mp hmem with rfl | hmem
      · exact .inl List.mem_cons_self
      · exact (hpages page' hmem).imp_left (List.mem_cons_of_mem _)
    | some pageImage =>
      rw [hpage] at h
      obtain ⟨judged, -, h⟩ := bind_eq_ok.mp h
      obtain ⟨⟨blocks', warnings', calls''⟩, hrest, hdone⟩ := bind_eq_ok.mp h
      obtain ⟨-, hwarnings⟩ := Prod.mk.inj (Except.ok.inj hdone)
      obtain ⟨rfl, rfl⟩ := Prod.mk.inj hwarnings
      obtain ⟨hsubset, hpages⟩ := ih hrest
      refine ⟨fun _ hmem => hsubset (List.mem_append_left _ hmem), fun page' hmem => ?_⟩
      rcases List.mem_cons.mp hmem with rfl | hmem
      · exact .inr ⟨pageImage, hpage, _,
          hsubset (List.mem_append_right _ (List.mem_singleton_self _)), rfl⟩
      · exact hpages page' hmem

/-- A candidate is only left out when there are more than the budget. -/
theorem truncated_of_left_out {doc : RecognizedDocument} {pages : List ℕ} {truncated : Bool}
    (h : selectVisionPages js doc args = (pages, truncated)) {page : ℕ}
    (hcandidate : page ∈ candidatePages js doc args) (hleftOut : page ∉ pages) :
    truncated = true := by
  unfold selectVisionPages at h
  dsimp only at h
  by_cases hbudget : (candidatePages js doc args).length ≤ args.maxVisionPages
  · rw [if_pos hbudget] at h
    rw [← (Prod.mk.inj h).1] at hleftOut
    exact absurd hcandidate hleftOut
  · rw [if_neg hbudget] at h
    exact (Prod.mk.inj h).2.symm

/-- Without a provider that locates regions, no candidate page goes unexamined in silence. -/
theorem degraded_of_executeWholePage (hgeometry : args.geometryOnly = false)
    {result : SigningResult} {calls : List VisionCall}
    (h : executeWholePage js imaging ctx args = .ok (result, calls)) :
    result.confidence = .low ∧ ∀ page ∈ candidatePages js ctx.doc args,
      ¬ Examined imaging ctx calls page →
        ∃ warning ∈ result.warnings, Covers args page warning := by
  unfold executeWholePage at h
  rw [if_neg (by simp [hgeometry])] at h
  generalize hselection : selectVisionPages js ctx.doc args = selection at h
  obtain ⟨pages, truncated⟩ := selection
  obtain ⟨pageImages, himages, h⟩ := bind_eq_ok.mp h
  obtain ⟨⟨blocks, unexamined, calls'⟩, hpages, hdone⟩ := bind_eq_ok.mp h
  obtain ⟨rfl, rfl⟩ := Prod.mk.inj (Except.ok.inj hdone)
  refine ⟨rfl, fun page hcandidate hnotExamined => ?_⟩
  by_cases hselected : page ∈ pages
  · rcases (judgePages_spec hpages).2 page hselected with hwarning | hshown
    · refine ⟨unexaminedWarning page, ?_, .inl rfl⟩
      simp [assemble, hwarning]
    · obtain ⟨pageImage, hmem, call, hcall, hrequest⟩ := hshown
      rw [rasterizePages_eq himages hselected] at hmem
      exact absurd ⟨pageImage, hmem, call, hcall, hrequest⟩ hnotExamined
  · have htruncated := truncated_of_left_out hselection hcandidate hselected
    refine ⟨truncatedWarning args pages, ?_, .inr ⟨pages, hselected, rfl⟩⟩
    simp [assemble, htruncated]

/-- What was judged was seen. -/
theorem imagesYielded_of_judged {calls : List VisionCall} {blocks : List SignatureBlock}
    (h : List.Forall₂ (Judged js imaging ctx calls)
      (correlateSlots js ctx.doc.blocks args.signatureCues) blocks) :
    ImagesYielded js imaging ctx args := by
  have hyielded : List.Forall₂ (fun slot _ => (∀ image ∈ slot.image,
      (yielded imaging ctx.mimeGroup ctx.buffer image.page).isSome) ∧ True)
      (correlateSlots js ctx.doc.blocks args.signatureCues) blocks := by
    refine h.imp fun slot block hjudged => ⟨?_, trivial⟩
    intro image himage
    obtain ⟨pageImage, _, _, _, hpage, -⟩ := hjudged image himage
    exact Option.isSome_iff_exists.mpr ⟨pageImage, hpage⟩
  exact ((List.forall₂_and_left _ _).mp hyielded).1

/-- Signing degrades loudly exactly when the provider locates no regions or the rasterizer yields
the page of every image that a cue correlates with. -/
theorem degrades_loudly_iff (hgeometry : args.geometryOnly = false) {result : SigningResult}
    {calls : List VisionCall} (h : executeSigning js imaging ctx args = .ok (result, calls)) :
    DegradesLoudly js imaging ctx args result calls ↔
      .seals ∉ ctx.capabilities ∨ ImagesYielded js imaging ctx args := by
  unfold executeSigning at h
  by_cases hseals : Capability.seals ∉ ctx.capabilities
  · rw [if_pos hseals] at h
    have hdegraded := degraded_of_executeWholePage hgeometry h
    refine iff_of_true ⟨fun hhigh => ?_, fun _ => hdegraded⟩ (.inl hseals)
    rw [hdegraded.1] at hhigh
    cases hhigh
  · rw [if_neg hseals] at h
    dsimp only at h
    rw [if_neg (by simp [hgeometry])] at h
    obtain ⟨pageImages, himages, h⟩ := bind_eq_ok.mp h
    obtain ⟨⟨blocks, calls'⟩, hslots, hdone⟩ := bind_eq_ok.mp h
    obtain ⟨rfl, rfl⟩ := Prod.mk.inj (Except.ok.inj hdone)
    have hok := correlateSlots_ok js ctx.doc.blocks args.signatureCues
    constructor
    · intro hloud
      exact .inr (imagesYielded_of_judged (hloud.judged rfl rfl))
    · rintro (hnone | hyielded)
      · exact absurd hnone hseals
      · refine ⟨fun _ _ => ?_, fun hnone => absurd hnone hseals⟩
        have hall : ∀ slot ∈ correlateSlots js ctx.doc.blocks args.signatureCues,
            ∀ image ∈ slot.image, image.page = slot.page ∧ image.bbox = some slot.bbox ∧
              ∃ pageImage, yielded imaging ctx.mimeGroup ctx.buffer image.page = some pageImage ∧
                pageImages slot.page = some pageImage := by
          intro slot hslot image himage
          obtain ⟨-, -, hpage, hbbox⟩ := hok slot hslot image himage
          obtain ⟨pageImage, himage'⟩ :=
            Option.isSome_iff_exists.mp (hyielded slot hslot image himage)
          have hneeded : slot.page ∈ ((correlateSlots js ctx.doc.blocks args.signatureCues).filter
              fun s => s.image.isSome).map Slot.page :=
            List.mem_map_of_mem (List.mem_filter.mpr ⟨hslot, by simp [Option.mem_def.mp himage]⟩)
          refine ⟨hpage, hbbox, pageImage, himage', ?_⟩
          rw [rasterizePages_eq himages hneeded, ← hpage, himage']
        refine ((List.forall₂_and_left _ _).mpr ⟨hall, (judgeSlots_spec hslots).2⟩).imp ?_
        rintro slot block ⟨himages', -, hjudged⟩ image himage
        obtain ⟨-, hbbox, pageImage, hyielded', hpage⟩ := himages' image himage
        obtain ⟨crop, judgment, hcrop, hcall, hblock⟩ :=
          hjudged (Option.isSome_iff_exists.mpr ⟨image, himage⟩) pageImage hpage
        exact ⟨pageImage, slot.bbox, crop, judgment, hyielded', hbbox, hcrop, hcall, hblock⟩

end Runs

/-- A signature line above an image, on one page. -/
def signatureOn (page : ℕ) : List LayoutBlock :=
  [⟨0, page, .text, some (1 / 8, 3 / 4, 3 / 8, 25 / 32), "Signature:"⟩,
    ⟨1, page, .image, some (1 / 8, 13 / 16, 3 / 8, 15 / 16), ""⟩]

/-- Doubles and Latin letters; two places above each other are as far apart as their heights. -/
def plain : Engine where
  toRounding := .double
  toLowerCase := JsText.toLowerCase
  hypot x y := |x| + |y|

/-- A rasterizer that yields one page, and an image library that takes all of it for a region. -/
def onePage : Imaging where
  pdf buffer := .ok ⟨[buffer], none⟩
  metadata _ := .ok (some 1000, some 1400)
  extract pageImage _ _ _ _ := .ok pageImage
  base64 _ := "JVBERg=="

/-- A model that finds every mark signed. -/
def approving : Vision where
  judge _ _ := .ok ⟨true, false, some "A. Okafor", none⟩
  judgePage _ _ := .ok []

def contract (page : ℕ) : OcrContext Vision where
  doc := ⟨"Signature:", "Signature:", [⟨page, "Signature:", none, none⟩], signatureOn page, 2,
    "glm-ocr", none, none, none⟩
  capabilities := [.text, .layout, .tables, .handwriting, .seals]
  sha256 := ""
  mimeGroup := .pdf
  sizeBytes := 4
  originalName := "contract.pdf"
  buffer := [0x25, 0x50, 0x44, 0x46]
  requestId := "r1"
  tenantId := "t1"
  llm := approving
  redactingLogger := false

def signatureCues : SigningArgs := ⟨false, ["Signature", "Director"], 3⟩

/-- The slot of the contract, judged. -/
def signatureBlock (page : ℕ) (judgment : SigningJudgment) : SignatureBlock :=
  toBlock ⟨"Signature", page, (1 / 8, 13 / 16, 3 / 8, 15 / 16), none, "Signature:"⟩ judgment

def signatureCall : VisionCall where
  request := ⟨buildSigningJudgmentPrompt "Signature:", "data:image/png;base64,JVBERg==",
    "SIGNING_judgment"⟩
  answer := .region ⟨true, false, some "A. Okafor", none⟩

/-- The slot that the line and the image make. -/
def signatureSlot (page : ℕ) : Slot :=
  ⟨"Signature", page, (1 / 8, 13 / 16, 3 / 8, 15 / 16), (signatureOn page)[1]?, "Signature:"⟩

theorem degrades_loudly_first_page : DegradesLoudly plain onePage (contract 1) signatureCues
    (assemble [signatureBlock 1 ⟨true, false, some "A. Okafor", none⟩] .high [])
    [signatureCall] := by
  have hslots : correlateSlots plain (contract 1).doc.blocks signatureCues.signatureCues =
      [signatureSlot 1] := by decide +kernel
  refine (degrades_loudly_iff rfl ?_).mpr (.inr ?_)
  · unfold executeSigning
    rw [if_neg (by decide), hslots]
    decide +kernel
  · unfold ImagesYielded
    rw [hslots]
    decide +kernel

/-- A signature on the second page of a document of which one page is yielded: the contract is
reported unsigned, with high confidence. -/
theorem unseen_signature : ¬ ∀ (imaging : Imaging) (ctx : OcrContext Vision) (args : SigningArgs)
    (result : SigningResult) (calls : List VisionCall), args.geometryOnly = false →
      executeSigning plain imaging ctx args = .ok (result, calls) →
        DegradesLoudly plain imaging ctx args result calls := by
  intro hall
  have hslots : correlateSlots plain (contract 2).doc.blocks signatureCues.signatureCues =
      [signatureSlot 2] := by decide +kernel
  have hrun : executeSigning plain onePage (contract 2) signatureCues =
      .ok (assemble [signatureBlock 2 unjudged] .high [], []) := by
    unfold executeSigning
    rw [if_neg (by decide), hslots]
    decide +kernel
  have hyielded := imagesYielded_of_judged ((hall _ _ _ _ _ rfl hrun).judged rfl rfl)
  unfold ImagesYielded at hyielded
  rw [hslots] at hyielded
  exact absurd hyielded (by decide +kernel)

end HeirsOcr.Signing

import HeirsOcr.ProviderRegistry
import Mathlib.Data.List.Forall2

/-!
# What a mapped layout keeps

GLM-OCR answers each chunk of a document with a response of its own, whose pages and details may
be missing or differ in number. The mapper numbers pages and blocks over all responses. Every
detail becomes one block, in order, on a page of the response it came in.
-/
namespace HeirsOcr.Providers
open JsText

/-- The details of a response, page after page. -/
def detailsOf (response : LayoutParsingResponse) : List LayoutDetail :=
  (response.layout_details.getD []).flatMap (·.getD [])

/-- As many pages as a response has sizes or lists of details for, and one at least. -/
def pagesOf (response : LayoutParsingResponse) : ℕ :=
  max (max (response.dims.getD []).length (response.layout_details.getD []).length) 1

def markdownOf (response : LayoutParsingResponse) : String := trimmed (response.md_results.getD "")

/-- A detail with the last page before its response and the last page of its response. -/
structure Sent where
  before : ℕ
  last : ℕ
  detail : LayoutDetail

/-- The details of responses that come after so many pages. -/
def sentAfter : ℕ → List LayoutParsingResponse → List Sent
  | _, [] => []
  | before, response :: rest =>
    (detailsOf response).map (fun detail => ⟨before, before + pagesOf response, detail⟩) ++
      sentAfter (before + pagesOf response) rest

/-- The block of a detail, on a page of its response. -/
structure BlockOf (sent : Sent) (block : LayoutBlock) : Prop where
  label : block.label = toBlockLabel sent.detail.label
  bbox : block.bbox = some sent.detail.bbox_2d
  content : block.content = sent.detail.content.getD ""
  page : sent.before < block.page ∧ block.page ≤ sent.last

structure Lossless (responses : List LayoutParsingResponse) (doc : RecognizedDocument) : Prop where
  blocks : List.Forall₂ BlockOf (sentAfter 0 responses) doc.blocks
  indexed : doc.blocks.map LayoutBlock.index = List.range doc.blocks.length
  numbered : doc.pages.map PageResult.page = List.range' 1 doc.pageCount
  pageCount : doc.pageCount = (responses.map pagesOf).sum
  tokens : doc.tokensUsed = some (responses.map fun r => r.total_tokens.getD 0).sum
  markdown : doc.markdown = "\n\n".intercalate ((responses.map markdownOf).filter (· ≠ ""))

theorem length_toPages (response : LayoutParsingResponse) (pageOffset : ℕ) :
    (toPages response pageOffset).length = pagesOf response := by
  simp only [toPages, pagesOf, List.length_map, List.length_range]
  cases response.layout_details with
  | none => rfl
  | some pages => rfl

theorem map_page_toPages (response : LayoutParsingResponse) (pageOffset : ℕ) :
    (toPages response pageOffset).map PageResult.page =
      List.range' (pageOffset + 1) (pagesOf response) := by
  have hlength := length_toPages response pageOffset
  simp only [toPages, List.length_map, List.length_range] at hlength
  simp only [toPages, List.map_map, hlength]
  rw [List.range'_eq_map_range]
  refine List.map_congr_left fun i _ => ?_
  simp only [Function.comp_apply]
  omega

/-- Only the first page of a response has text. -/
theorem filter_markdown_toPages (response : LayoutParsingResponse) (pageOffset : ℕ) :
    ((toPages response pageOffset).map PageResult.markdown).filter (· ≠ "") =
      [markdownOf response].filter (· ≠ "") := by
  have hlength := length_toPages response pageOffset
  simp only [toPages, List.length_map, List.length_range] at hlength
  simp only [toPages, List.map_map, hlength]
  obtain ⟨n, hn⟩ : ∃ n, pagesOf response = n + 1 :=
    Nat.exists_eq_succ_of_ne_zero (by unfold pagesOf; omega)
  have hrest : (((List.range n).map Nat.succ).map fun i =>
      if i = 0 then markdownOf response else "").filter (· ≠ "") = [] := by
    rw [List.filter_eq_nil_iff]
    intro text htext
    obtain ⟨i, hi, rfl⟩ := List.mem_map.mp htext
    obtain ⟨j, -, rfl⟩ := List.mem_map.mp hi
    simp
  rw [hn, List.range_succ_eq_map, List.map_cons, ← List.singleton_append, List.filter_append]
  refine (congrArg₂ (· ++ ·) rfl hrest).trans (List.append_nil _)

/-- What holds of every pair whatever the index holds after an indexed map. -/
theorem forall₂_mapIdx {α β γ : Type*} {R : α → β → Prop} {S : α → γ → Prop} {l : List α}
    {l' : List β} {f : ℕ → β → γ} (h : List.Forall₂ R l l')
    (hf : ∀ i a b, R a b → S a (f i b)) : List.Forall₂ S l (l'.mapIdx f) := by
  induction h generalizing f with
  | nil => exact .nil
  | cons hpair _ ih =>
    rw [List.mapIdx_cons]
    exact .cons (hf 0 _ _ hpair) (ih fun i => hf (i + 1))

/-- Every detail of the pages from number `k` on comes with the number of its page. -/
theorem forall₂_numbered (pageOffset k : ℕ) (pages : List (Option (List LayoutDetail))) :
    List.Forall₂ (fun detail (numbered : ℕ × LayoutDetail) => numbered.2 = detail ∧
        pageOffset + k < numbered.1 ∧ numbered.1 ≤ pageOffset + k + pages.length)
      (pages.flatMap (·.getD []))
      ((pages.zipIdx k).flatMap fun page =>
        (page.1.getD []).map fun detail => (pageOffset + page.2 + 1, detail)) := by
  induction pages generalizing k with
  | nil => exact .nil
  | cons page pages ih =>
    rw [List.zipIdx_cons, List.flatMap_cons, List.flatMap_cons, List.length_cons]
    refine List.rel_append ?_ ((ih (k + 1)).imp fun detail numbered hpair => ?_)
    · rw [List.forall₂_map_right_iff, List.forall₂_same]
      intro detail _
      exact ⟨rfl, by omega, by omega⟩
    · exact ⟨hpair.1, by omega, by omega⟩

/-- The blocks of a response are those of its details, on its pages. -/
theorem blockOf_toBlocks (response : LayoutParsingResponse) (pageOffset : ℕ) :
    List.Forall₂ BlockOf
      ((detailsOf response).map fun detail => ⟨pageOffset, pageOffset + pagesOf response, detail⟩)
      (toBlocks response pageOffset) := by
  rw [List.forall₂_map_left_iff]
  refine forall₂_mapIdx (forall₂_numbered pageOffset 0 _) ?_
  rintro i detail ⟨page, numbered⟩ ⟨rfl, hfirst, hlast⟩
  have hpages : (response.layout_details.getD []).length ≤ pagesOf response :=
    le_max_of_le_left (le_max_right _ _)
  exact ⟨rfl, rfl, rfl, by simpa using hfirst, by simpa using hlast.trans (by omega)⟩

/-- What the loop adds for the responses that are left. -/
structure Added (m : Mapped) (responses : List LayoutParsingResponse) (pages : List PageResult)
    (blocks : List LayoutBlock) : Prop where
  run : responses.foldl Mapped.add m =
    ⟨m.pages ++ pages, m.blocks ++ blocks, m.pageOffset + (responses.map pagesOf).sum,
      m.tokensUsed + (responses.map fun r => r.total_tokens.getD 0).sum⟩
  blocks : List.Forall₂ BlockOf (sentAfter m.pageOffset responses) blocks
  numbered : pages.map PageResult.page =
    List.range' (m.pageOffset + 1) (responses.map pagesOf).sum
  markdown : (pages.map PageResult.markdown).filter (· ≠ "") =
    (responses.map markdownOf).filter (· ≠ "")

theorem exists_added (m : Mapped) (responses : List LayoutParsingResponse) :
    ∃ pages blocks, Added m responses pages blocks := by
  induction responses generalizing m with
  | nil => exact ⟨[], [], by simp, .nil, rfl, rfl⟩
  | cons response rest ih =>
    obtain ⟨pages, blocks, hrest⟩ := ih (m.add response)
    have hoffset : (m.add response).pageOffset = m.pageOffset + pagesOf response := by
      rw [Mapped.add, length_toPages]
    refine ⟨toPages response m.pageOffset ++ pages, toBlocks response m.pageOffset ++ blocks,
      ?_, ?_, ?_, ?_⟩
    · rw [List.foldl_cons, hrest.run, hoffset, List.map_cons, List.sum_cons, List.map_cons,
        List.sum_cons]
      simp only [Mapped.add, List.append_assoc, Nat.add_assoc]
    · refine List.rel_append (blockOf_toBlocks response m.pageOffset) ?_
      rw [← hoffset]
      exact hrest.blocks
    · rw [List.map_append, map_page_toPages, hrest.numbered, hoffset, List.map_cons,
        List.sum_cons, ← List.range'_append_1]
      congr 2
      omega
    · rw [List.map_append, List.filter_append, filter_markdown_toPages, hrest.markdown,
        ← List.filter_append]
      rfl

/-- Whatever stands between two texts without spaces at their ends. -/
theorem trimmed_append {left between right : List Char} (hleft : Trimmed left)
    (hright : Trimmed right) (hl : left ≠ []) (hr : right ≠ []) :
    Trimmed (left ++ between ++ right) := by
  constructor
  · rw [List.append_assoc, List.head?_append_of_ne_nil _ hl]
    exact hleft.1
  · rw [List.getLast?_append_of_ne_nil _ hr]
    exact hright.2

theorem trimmed_intercalate (separator : String) {texts : List String}
    (h : ∀ text ∈ texts, text ≠ "" ∧ Trimmed text.toList) :
    Trimmed (separator.intercalate texts).toList ∧
      (texts ≠ [] → (separator.intercalate texts).toList ≠ []) := by
  induction texts with
  | nil => exact ⟨by simp [Trimmed], fun hne => absurd rfl hne⟩
  | cons text texts ih =>
    obtain ⟨hne, htrimmed⟩ := h text List.mem_cons_self
    have htext : text.toList ≠ [] := fun hnil => hne (String.toList_eq_nil_iff.mp hnil)
    obtain ⟨hrest, hrestNe⟩ := ih fun t ht => h t (List.mem_cons_of_mem _ ht)
    by_cases hlast : texts = []
    · subst hlast
      rw [String.intercalate_singleton]
      exact ⟨htrimmed, fun _ => htext⟩
    · rw [String.intercalate_cons_of_ne_nil hlast, String.toList_append, String.toList_append]
      refine ⟨trimmed_append htrimmed hrest htext (hrestNe hlast), fun _ => ?_⟩
      simp [htext]

theorem trimmed_markdownOf (response : LayoutParsingResponse) :
    Trimmed (markdownOf response).toList := by
  rw [markdownOf, trimmed, String.toList_ofList]
  exact trimmed_trim _

/-- Nothing of the responses is lost and nothing is counted twice. -/
theorem mapping_lossless (responses : List LayoutParsingResponse) (provider : String) :
    Lossless responses (mapLayoutParsing responses provider) := by
  obtain ⟨pages, blocks, hadded⟩ := exists_added ⟨[], [], 0, 0⟩ responses
  have hlength : pages.length = (responses.map pagesOf).sum := by
    have hnumbered := congrArg List.length hadded.numbered
    rwa [List.length_map, List.length_range'] at hnumbered
  unfold mapLayoutParsing
  rw [hadded.run]
  refine ⟨?_, ?_, ?_, ?_, ?_, ?_⟩
  · refine forall₂_mapIdx hadded.blocks fun i sent block hblock => ?_
    exact ⟨hblock.label, hblock.bbox, hblock.content, hblock.page⟩
  · apply List.ext_getElem
    · simp
    · intro i hi hi'
      simp
  · dsimp only
    rw [List.nil_append, hadded.numbered, hlength]
  · exact hlength
  · simp
  · dsimp only
    rw [List.nil_append, hadded.markdown, trimmed, trim_of_trimmed, String.ofList_toList]
    refine (trimmed_intercalate "\n\n" fun text htext => ?_).1
    obtain ⟨hmem, hne⟩ := List.mem_filter.mp htext
    obtain ⟨response, -, rfl⟩ := List.mem_map.mp hmem
    exact ⟨of_decide_eq_true hne, trimmed_markdownOf response⟩

end HeirsOcr.Providers

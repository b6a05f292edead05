import HeirsOcr.GroupedSort
import HeirsOcr.LayoutMapping
import HeirsOcr.Signing

/-!
# The reading order of a resume

A resume may have two columns, which a text layer interleaves. The order is rebuilt from the
boxes of the layout: on each page a gutter is looked for among the centres of the blocks, and the
left column is read before the right one. Nothing is lost or read twice, and where the boxes say
nothing the blocks stay as the provider sent them. All of it holds however the steps of the
arithmetic are rounded.
-/
namespace HeirsOcr.ResumeParsing
open Doubles GroupedSort JsText Providers
open Signing (Bbox)

/-- A block with a box and a text. -/
structure UsableBlock where
  block : LayoutBlock
  bbox : Bbox
  bbox_eq : block.bbox = some bbox
  content_ne : trimmed block.content ≠ ""

namespace UsableBlock

def page (b : UsableBlock) : ℕ := b.block.page

/-- The left and the upper edge. -/
def x0 (b : UsableBlock) : ℚ := b.bbox.1

def y0 (b : UsableBlock) : ℚ := b.bbox.2.1

/-- The right edge. -/
def x1 (b : UsableBlock) : ℚ := b.bbox.2.2.1

def center (r : Rounding) (b : UsableBlock) : ℚ := r.round (r.round (b.x0 + b.x1) / 2)

def text (b : UsableBlock) : String := trimmed b.block.content

end UsableBlock

def usableBlock (block : LayoutBlock) : Option UsableBlock :=
  match hbox : block.bbox with
  | none => none
  | some bbox => if h : trimmed block.content ≠ "" then some ⟨block, bbox, hbox, h⟩ else none

def usable (blocks : List LayoutBlock) : List UsableBlock := blocks.filterMap usableBlock

theorem block_mem_of_mem_usable {blocks : List LayoutBlock} {b : UsableBlock}
    (h : b ∈ usable blocks) : b.block ∈ blocks := by
  obtain ⟨block, hblock, hb⟩ := List.mem_filterMap.mp h
  unfold usableBlock at hb
  split at hb
  · cases hb
  · split_ifs at hb
    cases hb
    exact hblock

/-- A gap of 0.15 of the width, in the middle band of the page. -/
def MIN_GUTTER_WIDTH (r : Rounding) : ℚ := r.round (15 / 100)

def gap (r : Rounding) (pair : ℚ × ℚ) : ℚ := r.round (pair.2 - pair.1)

def mid (r : Rounding) (pair : ℚ × ℚ) : ℚ := r.round (r.round (pair.2 + pair.1) / 2)

/-- Two centres with their middle in the middle band. -/
def InBand (r : Rounding) (pair : ℚ × ℚ) : Prop :=
  r.round (3 / 10) < mid r pair ∧ mid r pair < r.round (7 / 10)

instance (r : Rounding) (pair : ℚ × ℚ) : Decidable (InBand r pair) :=
  inferInstanceAs (Decidable (_ ∧ _))

/-- The widest gap so far and its middle, and the next two centres. -/
def widen (r : Rounding) (best : ℚ × Option ℚ) (pair : ℚ × ℚ) : ℚ × Option ℚ :=
  if best.1 < gap r pair ∧ InBand r pair then (gap r pair, some (mid r pair)) else best

def detectGutter (r : Rounding) (blocks : List UsableBlock) : Option ℚ :=
  let centers := sortBy id (blocks.map (UsableBlock.center r))
  let best := (centers.zip centers.tail).foldl (widen r) (0, none)
  if MIN_GUTTER_WIDTH r ≤ best.1 then best.2 else none

def column (gutter : Option ℚ) (b : UsableBlock) : ℚ :=
  if gutter.any (· ≤ b.x0) then 1 else 0

/-- The column, and within it the upper edge. -/
def rank (r : Rounding) (gutter : Option ℚ) (b : UsableBlock) : ℚ :=
  r.round (column gutter b + b.y0)

def orderPage (r : Rounding) (blocks : List UsableBlock) : String :=
  "\n".intercalate ((sortBy (rank r (detectGutter r blocks)) blocks).map UsableBlock.text)

def reconstructReadingOrder (r : Rounding) (blocks : List LayoutBlock) : String :=
  let usable := usable blocks
  if usable.isEmpty then ""
  else trimmed ("\n\n".intercalate ((groups UsableBlock.page usable).map fun page =>
    orderPage r (usable.filter fun b => b.page = page)))

/-- What the prompt is made from. -/
def resumeMarkdown (r : Rounding) (doc : RecognizedDocument) : String :=
  let text := reconstructReadingOrder r doc.blocks
  if text = "" then doc.markdown else text

/-- Two neighbouring centres in the middle band. -/
structure Neighbours (r : Rounding) (centers : List ℚ) (a b : ℚ) : Prop where
  left : a ∈ centers
  right : b ∈ centers
  apart : a < b
  between : ∀ c ∈ centers, ¬(a < c ∧ c < b)
  band : InBand r (a, b)

/-- The middle of the widest gap between neighbours, if it is wide enough. -/
def IsGutter (r : Rounding) (centers : List ℚ) : Option ℚ → Prop
  | none => ∀ a b, Neighbours r centers a b → gap r (a, b) < MIN_GUTTER_WIDTH r
  | some gutter => ∃ a b, Neighbours r centers a b ∧ gutter = mid r (a, b) ∧
      MIN_GUTTER_WIDTH r ≤ gap r (a, b) ∧
        ∀ a' b', Neighbours r centers a' b' → gap r (a', b') ≤ gap r (a, b)

/-- The fold keeps what it began with, or the widest pair in the band. -/
theorem foldl_widen (r : Rounding) (pairs : List (ℚ × ℚ)) (best : ℚ × Option ℚ) :
    best.1 ≤ (pairs.foldl (widen r) best).1 ∧
    (∀ pair ∈ pairs, InBand r pair → gap r pair ≤ (pairs.foldl (widen r) best).1) ∧
    (pairs.foldl (widen r) best = best ∨ ∃ pair ∈ pairs, InBand r pair ∧
      pairs.foldl (widen r) best = (gap r pair, some (mid r pair))) := by
  induction pairs generalizing best with
  | nil => exact ⟨le_rfl, by simp, .inl rfl⟩
  | cons pair pairs ih =>
    obtain ⟨hgrows, hwidest, hwhich⟩ := ih (widen r best pair)
    have hstep : best.1 ≤ (widen r best pair).1 ∧
        (InBand r pair → gap r pair ≤ (widen r best pair).1) := by
      rw [widen]
      split_ifs with hwider
      · exact ⟨hwider.1.le, fun _ => le_rfl⟩
      · exact ⟨le_rfl, fun hband => not_lt.mp fun hlt => hwider ⟨hlt, hband⟩⟩
    rw [List.foldl_cons]
    refine ⟨hstep.1.trans hgrows, ?_, ?_⟩
    · intro p hp hband
      rcases List.mem_cons.mp hp with rfl | hp
      · exact (hstep.2 hband).trans hgrows
      · exact hwidest p hp hband
    · rcases hwhich with hkept | ⟨p, hp, hband, hp'⟩
      · rw [hkept, widen]
        split_ifs with hwider
        · exact .inr ⟨pair, List.mem_cons_self, hwider.2, rfl⟩
        · exact .inl rfl
      · exact .inr ⟨p, List.mem_cons_of_mem _ hp, hband, hp'⟩

/-- In a sorted list the pairs of successive elements are the neighbours, and equal ones. -/
theorem mem_zip_tail {l : List ℚ} (hsorted : l.Pairwise (· ≤ ·)) {a b : ℚ} (hlt : a < b) :
    (a, b) ∈ l.zip l.tail ↔ a ∈ l ∧ b ∈ l ∧ ∀ c ∈ l, ¬(a < c ∧ c < b) := by
  induction l with
  | nil => simp
  | cons x l ih =>
    obtain ⟨hx, hrest⟩ := List.pairwise_cons.mp hsorted
    cases l with
    | nil =>
      simp only [List.tail_cons, List.zip_nil_right, List.not_mem_nil, List.mem_singleton,
        false_iff]
      rintro ⟨rfl, rfl, _⟩
      exact lt_irrefl _ hlt
    | cons y l =>
      have hy := hx y List.mem_cons_self
      have htail := List.pairwise_cons.mp hrest
      have hih := ih hrest
      simp only [List.tail_cons] at hih
      rw [List.tail_cons, List.zip_cons_cons, List.mem_cons, hih]
      constructor
      · rintro (hpair | ⟨ha, hb, hnone⟩)
        · cases hpair
          refine ⟨List.mem_cons_self, List.mem_cons_of_mem _ List.mem_cons_self, ?_⟩
          intro c hc ⟨hac, hcb⟩
          rcases List.mem_cons.mp hc with rfl | hc
          · exact lt_irrefl _ hac
          · rcases List.mem_cons.mp hc with rfl | hc
            · exact lt_irrefl _ hcb
            · exact (htail.1 c hc).not_gt hcb
        · refine ⟨List.mem_cons_of_mem _ ha, List.mem_cons_of_mem _ hb, ?_⟩
          intro c hc hbetween
          rcases List.mem_cons.mp hc with rfl | hc
          · exact (hx a ha).not_gt hbetween.1
          · exact hnone c hc hbetween
      · rintro ⟨ha, hb, hnone⟩
        have hb' : b ∈ y :: l := by
          rcases List.mem_cons.mp hb with rfl | hb
          · rcases List.mem_cons.mp ha with rfl | ha
            · exact absurd hlt (lt_irrefl _)
            · exact absurd hlt (hx a ha).not_gt
          · exact hb
        by_cases ha' : a ∈ y :: l
        · exact .inr ⟨ha', hb', fun c hc => hnone c (List.mem_cons_of_mem _ hc)⟩
        · obtain rfl := (List.mem_cons.mp ha).resolve_right ha'
          left
          have hyb : y = b := by
            rcases List.mem_cons.mp hb' with rfl | hbl
            · rfl
            · have hle := htail.1 b hbl
              by_contra hne
              have hay : a < y := lt_of_le_of_ne hy fun h => ha' (h ▸ List.mem_cons_self)
              exact hnone y (List.mem_cons_of_mem _ List.mem_cons_self)
                ⟨hay, lt_of_le_of_ne hle hne⟩
          rw [hyb]

section Gutter

variable {r : Arithmetic}

theorem one_eighth_le_gutter : 1 / 8 ≤ MIN_GUTTER_WIDTH r.toRounding :=
  r.ge_of_isDouble (isDouble_of_eq (m := 1) (e := -3) (by norm_num) (by norm_num) (by norm_num)
    (by norm_num)) (by norm_num)

/-- Centres that are a gutter apart when rounded are well apart. -/
theorem apart_of_wide {a b : ℚ} (h : MIN_GUTTER_WIDTH r.toRounding ≤ gap r.toRounding (a, b)) :
    a + 1 / 10 < b := by
  by_contra hnear
  have hle : gap r.toRounding (a, b) ≤ 7 / 64 :=
    r.le_of_isDouble (isDouble_of_eq (m := 7) (e := -6) (by norm_num) (by norm_num) (by norm_num)
      (by norm_num)) (by linarith)
  have hge := one_eighth_le_gutter (r := r)
  linarith

/-- A gutter is found just where the centres leave one. -/
theorem detectGutter_isGutter (r : Arithmetic) (blocks : List UsableBlock) :
    IsGutter r.toRounding (blocks.map (UsableBlock.center r.toRounding))
      (detectGutter r.toRounding blocks) := by
  generalize hcenters : blocks.map (UsableBlock.center r.toRounding) = centers
  have hmem : ∀ c, c ∈ sortBy id centers ↔ c ∈ centers := fun c => (sortBy_perm id _).mem_iff
  have hneighbours : ∀ a b, Neighbours r.toRounding centers a b ↔
      a < b ∧ InBand r.toRounding (a, b) ∧
        (a, b) ∈ (sortBy id centers).zip (sortBy id centers).tail := by
    intro a b
    constructor
    · intro h
      refine ⟨h.apart, h.band, (mem_zip_tail (pairwise_sortBy id _) h.apart).mpr ?_⟩
      exact ⟨(hmem a).mpr h.left, (hmem b).mpr h.right,
        fun c hc => h.between c ((hmem c).mp hc)⟩
    · rintro ⟨hlt, hband, hpair⟩
      obtain ⟨ha, hb, hnone⟩ := (mem_zip_tail (pairwise_sortBy id _) hlt).mp hpair
      exact ⟨(hmem a).mp ha, (hmem b).mp hb, hlt, fun c hc => hnone c ((hmem c).mpr hc), hband⟩
  obtain ⟨_, hwidest, hwhich⟩ := foldl_widen r.toRounding
    ((sortBy id centers).zip (sortBy id centers).tail) (0, none)
  simp only [detectGutter, hcenters]
  split_ifs with hwide
  · rcases hwhich with hnone | ⟨⟨a, b⟩, hpair, hband, hbest⟩
    · rw [hnone] at hwide
      have hge := one_eighth_le_gutter (r := r)
      linarith
    · rw [hbest] at hwide hwidest ⊢
      have hlt : a < b := by linarith [apart_of_wide hwide]
      refine ⟨a, b, (hneighbours a b).mpr ⟨hlt, hband, hpair⟩, rfl, hwide, ?_⟩
      intro a' b' h
      obtain ⟨_, hband', hpair'⟩ := (hneighbours a' b').mp h
      exact hwidest (a', b') hpair' hband'
  · intro a b h
    obtain ⟨_, hband, hpair⟩ := (hneighbours a b).mp h
    exact (hwidest (a, b) hpair hband).trans_lt (not_le.mp hwide)

/-- What the arithmetic holds is before the middle of two numbers when it is so without rounding. -/
theorem le_mid {c a b : ℚ} (hc : r.round c = c) (h : 2 * c ≤ b + a) :
    c ≤ mid r.toRounding (a, b) := by
  have hsum : 2 * c ≤ r.round (b + a) := (r.twice hc).symm.trans_le (r.mono h)
  exact hc.symm.trans_le (r.mono (by linarith))

theorem mid_le {c a b : ℚ} (hc : r.round c = c) (h : b + a ≤ 2 * c) :
    mid r.toRounding (a, b) ≤ c := by
  have hsum : r.round (b + a) ≤ 2 * c := (r.mono h).trans_eq (r.twice hc)
  exact (r.mono (by linarith)).trans_eq hc

/-- The places of a page in steps of a thirty-second can be held. -/
theorem round_step (r : Arithmetic) {n : ℤ} (hlow : 0 ≤ n) (hhigh : n ≤ 32) :
    r.round (n / 32) = n / 32 := by
  have hpower : (2 : ℚ) ^ (-5 : ℤ) = 1 / 32 := by norm_num
  refine r.fixed (isDouble_of_eq (m := n) (e := -5) ?_ (by norm_num) (by norm_num) ?_)
  · rw [abs_of_nonneg hlow]
    omega
  · rw [hpower, mul_one_div]

/-- The middle of two centres that are a gutter apart lies between them: a step of the page does. -/
theorem mid_between {a b : ℚ} (hband : InBand r.toRounding (a, b))
    (hwide : MIN_GUTTER_WIDTH r.toRounding ≤ gap r.toRounding (a, b)) :
    a < mid r.toRounding (a, b) ∧ mid r.toRounding (a, b) < b := by
  have hapart := apart_of_wide hwide
  obtain ⟨hlow, hhigh⟩ := hband
  have hzero : 0 < mid r.toRounding (a, b) := (r.nonneg _ (by norm_num)).trans_lt hlow
  have hone : mid r.toRounding (a, b) < 1 := by
    have hseven : r.round (7 / 10) ≤ 1 :=
      (r.mono (by norm_num)).trans_eq (r.intCast (n := 1) (by norm_num))
    exact hhigh.trans_le (by exact_mod_cast hseven)
  constructor
  · by_cases hneg : a < 0
    · exact hneg.trans hzero
    · have hfloor : (⌊32 * a⌋ : ℚ) ≤ 32 * a := Int.floor_le _
      have hsucc : 32 * a < ⌊32 * a⌋ + 1 := Int.lt_floor_add_one _
      by_cases hbig : 1 ≤ a
      · have hle := le_mid (r := r) (a := a) (b := b) (round_step r (n := 32) (by omega) le_rfl)
          (by push_cast; linarith)
        push_cast at hle
        linarith
      · have hn : 0 ≤ ⌊32 * a⌋ := Int.floor_nonneg.mpr (by linarith)
        have hn' : ⌊32 * a⌋ < 32 := Int.floor_lt.mpr (by push_cast; linarith)
        have hle := le_mid (r := r) (a := a) (b := b)
          (round_step r (n := ⌊32 * a⌋ + 1) (by omega) (by omega)) (by push_cast; linarith)
        push_cast at hle
        linarith
  · by_cases hbig : 1 < b
    · exact hone.trans hbig
    · have hceil : 32 * b ≤ (⌈32 * b⌉ : ℚ) := Int.le_ceil _
      have hpred : (⌈32 * b⌉ : ℚ) < 32 * b + 1 := Int.ceil_lt_add_one _
      by_cases hneg : b ≤ 0
      · have hle := mid_le (r := r) (a := a) (b := b) (round_step r (n := 0) le_rfl (by omega))
          (by push_cast; linarith)
        push_cast at hle
        linarith
      · have hn : 0 < ⌈32 * b⌉ := Int.ceil_pos.mpr (by linarith)
        have hn' : ⌈32 * b⌉ ≤ 32 := Int.ceil_le.mpr (by push_cast; linarith)
        have hle := mid_le (r := r) (a := a) (b := b)
          (round_step r (n := ⌈32 * b⌉ - 1) (by omega) (by omega)) (by push_cast; linarith)
        push_cast at hle
        linarith

end Gutter

/-- The gutter of a page. -/
def pageGutter (r : Rounding) (blocks : List LayoutBlock) (page : ℕ) : Option ℚ :=
  detectGutter r ((usable blocks).filter fun b => b.page = page)

/-- A page of two columns: in a gap as wide as a gutter, with the gutter in its middle, no block is
centred, on either side of it some are, and a block is in the right column just when it begins
right of the gutter. -/
structure TwoColumns (r : Rounding) (blocks : List UsableBlock) (gutter : ℚ) : Prop where
  middle : r.round (3 / 10) < gutter ∧ gutter < r.round (7 / 10)
  clear : ∃ low high, MIN_GUTTER_WIDTH r ≤ gap r (low, high) ∧ gutter = mid r (low, high) ∧
    low < gutter ∧ gutter < high ∧ ∀ b ∈ blocks, b.center r ≤ low ∨ high ≤ b.center r
  left : ∃ b ∈ blocks, b.center r < gutter
  right : ∃ b ∈ blocks, gutter < b.center r
  column_left : ∀ b ∈ blocks, b.x0 ≤ b.x1 → b.center r < gutter → column (some gutter) b = 0
  column_right : ∀ b ∈ blocks, b.x0 ≤ b.x1 → column (some gutter) b = 1 → gutter < b.center r

/-- No gap in the middle band is wide enough for a second column. -/
def OneColumn (r : Rounding) (blocks : List UsableBlock) : Prop :=
  ∀ a b, Neighbours r (blocks.map (UsableBlock.center r)) a b → gap r (a, b) < MIN_GUTTER_WIDTH r

/-- A block that begins right of a place is centred right of it. -/
theorem le_center {r : Arithmetic} {gutter : ℚ} (hgutter : r.round gutter = gutter)
    {b : UsableBlock} (hbox : b.x0 ≤ b.x1) (h : gutter ≤ b.x0) :
    gutter ≤ b.center r.toRounding :=
  le_mid (a := b.x1) (b := b.x0) hgutter (by linarith)

/-- Page after page, on a page the left column first, in a column from top to bottom unless the
ranks do not tell two heights apart. -/
def Before (r : Rounding) (blocks : List LayoutBlock) (a b : UsableBlock) : Prop :=
  a.page < b.page ∨ a.page = b.page ∧
    (column (pageGutter r blocks a.page) a < column (pageGutter r blocks a.page) b ∨
      column (pageGutter r blocks a.page) a = column (pageGutter r blocks a.page) b ∧
        (a.y0 ≤ b.y0 ∨
          rank r (pageGutter r blocks a.page) a = rank r (pageGutter r blocks a.page) b))

/-- The boxes do not tell which is first. -/
def SamePlace (r : Rounding) (blocks : List LayoutBlock) (a b : UsableBlock) : Prop :=
  b.page = a.page ∧
    column (pageGutter r blocks a.page) b = column (pageGutter r blocks a.page) a ∧
    rank r (pageGutter r blocks a.page) b = rank r (pageGutter r blocks a.page) a

instance (r : Rounding) (blocks : List LayoutBlock) (a : UsableBlock) :
    DecidablePred (SamePlace r blocks a) :=
  fun _ => inferInstanceAs (Decidable (_ ∧ _ ∧ _))

/-- Each usable block once, in reading order, and otherwise as the provider sent them. -/
structure InReadingOrder (r : Rounding) (blocks : List LayoutBlock) (order : List UsableBlock) :
    Prop where
  perm : order.Perm (usable blocks)
  ordered : order.Pairwise (Before r blocks)
  stable : ∀ a ∈ usable blocks,
    order.filter (SamePlace r blocks a ·) = (usable blocks).filter (SamePlace r blocks a ·)

/-- A list of blocks written out: a line for each, and a blank line between two pages. -/
def written (order : List UsableBlock) : String :=
  "\n\n".intercalate ((groups UsableBlock.page order).map fun page =>
    "\n".intercalate ((order.filter fun b => b.page = page).map UsableBlock.text))

/-- The upper edges of a page lie on it, and are numbers the arithmetic holds. -/
structure Normalized (r : Rounding) (b : UsableBlock) : Prop where
  nonneg : 0 ≤ b.y0
  lt_one : b.y0 < 1
  held : r.round b.y0 = b.y0

theorem column_eq (gutter : Option ℚ) (b : UsableBlock) :
    column gutter b = 0 ∨ column gutter b = 1 := by
  unfold column
  split_ifs
  · exact .inr rfl
  · exact .inl rfl

section Rank

variable {r : Arithmetic} {gutter : Option ℚ} {a b : UsableBlock}

theorem rank_left (h : Normalized r.toRounding b) (hcolumn : column gutter b = 0) :
    rank r.toRounding gutter b = b.y0 := by
  rw [rank, hcolumn, zero_add, h.held]

theorem one_le_rank (h : Normalized r.toRounding b) (hcolumn : column gutter b = 1) :
    1 ≤ rank r.toRounding gutter b := by
  have hone : r.round 1 = 1 := by exact_mod_cast r.intCast (n := 1) (by norm_num)
  rw [rank, hcolumn]
  exact hone.symm.trans_le (r.mono (by linarith [h.nonneg]))

/-- The rank tells the column and the upper edge apart. -/
theorem rank_le (ha : Normalized r.toRounding a) (hb : Normalized r.toRounding b)
    (h : rank r.toRounding gutter a ≤ rank r.toRounding gutter b) :
    column gutter a < column gutter b ∨ column gutter a = column gutter b ∧
      (a.y0 ≤ b.y0 ∨ rank r.toRounding gutter a = rank r.toRounding gutter b) := by
  by_cases hsame : column gutter a = column gutter b
  · refine .inr ⟨hsame, (le_or_gt a.y0 b.y0).imp_right fun hbelow => h.antisymm ?_⟩
    rw [rank, rank, hsame]
    exact r.mono (by linarith)
  · left
    rcases column_eq gutter a with hca | hca
    · rcases column_eq gutter b with hcb | hcb
      · exact absurd (hca.trans hcb.symm) hsame
      · rw [hca, hcb]
        exact one_pos
    · rcases column_eq gutter b with hcb | hcb
      · have hone := one_le_rank ha hca
        rw [rank_left hb hcb] at h
        linarith [hb.lt_one]
      · exact absurd (hca.trans hcb.symm) hsame

theorem column_eq_of_rank (ha : Normalized r.toRounding a) (hb : Normalized r.toRounding b)
    (h : rank r.toRounding gutter b = rank r.toRounding gutter a) :
    column gutter b = column gutter a := by
  rcases rank_le hb ha h.le with hlt | ⟨hcolumn, -⟩
  · rcases rank_le ha hb h.ge with hlt' | ⟨hcolumn', -⟩
    · exact absurd hlt hlt'.asymm
    · exact hcolumn'.symm
  · exact hcolumn

/-- Two heights that doubles do not tell apart are as good as one. -/
theorem close_of_rank_eq (ha : Normalized .double a) (hb : Normalized .double b)
    (hcolumn : column gutter a = column gutter b)
    (h : rank .double gutter a = rank .double gutter b) : |a.y0 - b.y0| ≤ 2 ^ (-52 : ℤ) := by
  have hplace (y : ℚ) (hlow : 0 ≤ y) (hhigh : y < 1) : lastPlace (1 + y) = -52 := by
    have hlog : Int.log 2 |1 + y| = 0 := by
      rw [abs_of_nonneg (by linarith)]
      refine le_antisymm ?_ ?_
      · exact Int.lt_add_one_iff.mp ((Int.lt_zpow_iff_log_lt (by norm_num) (by linarith)).mp
          (by norm_num; linarith))
      · exact (Int.zpow_le_iff_le_log (by norm_num) (by linarith)).mp (by norm_num; linarith)
    rw [lastPlace, hlog]
    norm_num
  rcases column_eq gutter b with hleft | hright
  · have hsame : a.y0 = b.y0 := by
      rw [← rank_left (r := .double) ha (hcolumn.trans hleft), ← rank_left (r := .double) hb hleft]
      exact h
    rw [hsame, sub_self, abs_zero]
    exact (two_zpow_pos _).le
  · have hlossA := abs_nearest_sub_le (1 + a.y0)
    have hlossB := abs_nearest_sub_le (1 + b.y0)
    have hsame : nearest (1 + a.y0) = nearest (1 + b.y0) := by
      rw [rank, rank, hcolumn, hright] at h
      exact h
    rw [hplace _ ha.nonneg ha.lt_one, hsame] at hlossA
    rw [hplace _ hb.nonneg hb.lt_one] at hlossB
    generalize (2 : ℚ) ^ (-52 : ℤ) = place at hlossA hlossB ⊢
    have hA := abs_le.mp hlossA
    have hB := abs_le.mp hlossB
    rw [abs_le]
    constructor
    · linarith [hA.2, hB.1]
    · linarith [hA.1, hB.2]

end Rank

/-- The blocks in the order they are read. -/
def readingOrder (r : Rounding) (blocks : List LayoutBlock) : List UsableBlock :=
  groupedSort UsableBlock.page (fun page => rank r (pageGutter r blocks page)) (usable blocks)

theorem inReadingOrder_readingOrder {r : Arithmetic} {blocks : List LayoutBlock}
    (h : ∀ b ∈ usable blocks, Normalized r.toRounding b) :
    InReadingOrder r.toRounding blocks (readingOrder r.toRounding blocks) := by
  have hsorted := inOrder_groupedSort UsableBlock.page
    (fun page => rank r.toRounding (pageGutter r.toRounding blocks page)) (usable blocks)
  have hmem : ∀ b ∈ readingOrder r.toRounding blocks, Normalized r.toRounding b :=
    fun b hb => h b (hsorted.perm.mem_iff.mp hb)
  refine ⟨hsorted.perm, ?_, ?_⟩
  · apply hsorted.ordered.imp_of_mem
    intro a b ha hb hab
    rcases hab with hpage | ⟨hpage, hrank⟩
    · exact .inl hpage
    · exact .inr ⟨hpage, rank_le (hmem a ha) (hmem b hb) hrank⟩
  · intro a ha
    have hplace : ∀ l : List UsableBlock, (∀ b ∈ l, Normalized r.toRounding b) →
        l.filter (SamePlace r.toRounding blocks a ·) = l.filter fun b => b.page = a.page ∧
          rank r.toRounding (pageGutter r.toRounding blocks a.page) b =
            rank r.toRounding (pageGutter r.toRounding blocks a.page) a := by
      intro l hl
      apply List.filter_congr
      intro b hb
      rw [decide_eq_decide, SamePlace]
      exact and_congr_right' (and_iff_right_of_imp (column_eq_of_rank (h a ha) (hl b hb)))
    rw [hplace _ hmem, hplace _ h]
    exact hsorted.stable a.page (rank r.toRounding (pageGutter r.toRounding blocks a.page) a)

theorem text_spec (b : UsableBlock) : b.text ≠ "" ∧ Trimmed b.text.toList := by
  refine ⟨b.content_ne, ?_⟩
  rw [UsableBlock.text, trimmed, String.toList_ofList]
  exact trimmed_trim _

/-- A page with blocks is written with no space at its ends. -/
theorem trimmed_page {blocks : List UsableBlock} (hne : blocks ≠ []) :
    "\n".intercalate (blocks.map UsableBlock.text) ≠ "" ∧
      Trimmed ("\n".intercalate (blocks.map UsableBlock.text)).toList := by
  have htexts : ∀ text ∈ blocks.map UsableBlock.text, text ≠ "" ∧ Trimmed text.toList := by
    intro text htext
    obtain ⟨b, _, rfl⟩ := List.mem_map.mp htext
    exact text_spec b
  obtain ⟨htrimmed, hnonempty⟩ := trimmed_intercalate "\n" htexts
  refine ⟨fun hempty => ?_, htrimmed⟩
  exact hnonempty (by simpa using hne) (String.toList_eq_nil_iff.mpr hempty)

theorem trimmed_pages (order : List UsableBlock) :
    ∀ text ∈ (groups UsableBlock.page order).map (fun page =>
      "\n".intercalate ((order.filter fun b => b.page = page).map UsableBlock.text)),
      text ≠ "" ∧ Trimmed text.toList := by
  intro text htext
  obtain ⟨page, hpage, rfl⟩ := List.mem_map.mp htext
  apply trimmed_page
  obtain ⟨b, hb, hbpage⟩ := (mem_groups UsableBlock.page).mp hpage
  exact List.ne_nil_of_mem (List.mem_filter.mpr ⟨hb, by simpa using hbpage⟩)

theorem written_eq_empty {order : List UsableBlock} : written order = "" ↔ order = [] := by
  constructor
  · intro h
    by_contra hne
    obtain ⟨b, hb⟩ := List.exists_mem_of_ne_nil order hne
    have hsome : groups UsableBlock.page order ≠ [] :=
      List.ne_nil_of_mem ((mem_groups UsableBlock.page).mpr ⟨b, hb, rfl⟩)
    exact (trimmed_intercalate "\n\n" (trimmed_pages order)).2 (by simpa using hsome)
      (String.toList_eq_nil_iff.mpr h)
  · rintro rfl
    rw [written, groups_nil, List.map_nil, String.intercalate_nil]

/-- The text is the order written out. -/
theorem reconstructReadingOrder_eq (r : Rounding) (blocks : List LayoutBlock) :
    reconstructReadingOrder r blocks = written (readingOrder r blocks) := by
  have hperm : (readingOrder r blocks).Perm (usable blocks) :=
    groupedSort_perm UsableBlock.page (fun page => rank r (pageGutter r blocks page))
      (usable blocks)
  simp only [reconstructReadingOrder]
  split_ifs with hempty
  · have hnone : usable blocks = [] := by simpa using hempty
    exact (written_eq_empty.mpr (hnone ▸ hperm).eq_nil).symm
  · have hpages : (groups UsableBlock.page (usable blocks)).map (fun page =>
        orderPage r ((usable blocks).filter fun b => b.page = page)) =
          (groups UsableBlock.page (readingOrder r blocks)).map fun page =>
            "\n".intercalate (((readingOrder r blocks).filter fun b => b.page = page).map
              UsableBlock.text) := by
      rw [groups_congr UsableBlock.page hperm]
      apply List.map_congr_left
      intro page hpage
      rw [readingOrder, filter_groupedSort _ _ _ hpage, orderPage, pageGutter]
    have htrimmed : Trimmed (written (readingOrder r blocks)).toList :=
      (trimmed_intercalate "\n\n" (trimmed_pages _)).1
    rw [hpages, ← written, trimmed, trim_of_trimmed htrimmed, String.ofList_toList]

/-- Two lines on the left and one on the right between them. -/
def interleaved : RecognizedDocument where
  markdown := "Skills Lean Work"
  plainText := "Skills Lean Work"
  pages := []
  blocks := [⟨0, 1, .text, some (1 / 8, 1 / 8, 3 / 8, 1 / 4), "Skills"⟩,
    ⟨1, 1, .text, some (5 / 8, 1 / 4, 7 / 8, 3 / 8), "Work"⟩,
    ⟨2, 1, .text, some (1 / 8, 3 / 8, 3 / 8, 1 / 2), "Lean"⟩]
  pageCount := 1
  provider := "glm-ocr"
  fellBackFrom := none
  tokensUsed := none
  ocrConfidence := none

end HeirsOcr.ResumeParsing

import HeirsOcr.LoudDegradation
import Mathlib.Data.List.Perm.Subperm

/-!
# The slots of a contract

A block with a cue belongs to the slot of its nearest image, or has an empty slot of its own. The
loop passes over a block when the first of the cues that it holds is the empty text, which reads
like no cue at all.
-/
namespace HeirsOcr.Signing
open Llm Pipeline Providers
open ReceiptProjection (Confidence)

variable (js : Engine)

/-- The text holds the cue, whatever their case. -/
def Holds (content cue : String) : Prop :=
  js.toLowerCase cue.toList <:+: js.toLowerCase content.toList

/-- The image a block is correlated with. -/
def nearest (allBlocks : List LayoutBlock) (block : LayoutBlock) : Option LayoutBlock :=
  block.bbox.bind fun bbox => (nearestImage js bbox block.page (imagesOf allBlocks)).map Prod.fst

/-- A block with a place that is no image and holds a cue. -/
def Cued (cues : List String) (block : LayoutBlock) : Prop :=
  block.label ≠ .image ∧ block.bbox.isSome ∧ ∃ cue ∈ cues, Holds js block.content cue

/-- The cue the loop takes a block for. -/
def cueOf (cues : List String) (block : LayoutBlock) : Option String :=
  if block.label = .image then none
  else block.bbox.bind fun _ => (matchCue js block.content cues).filter (· ≠ "")

/-- An image as near as any on the page, and within the threshold; or none, when none is. -/
def IsNearest (images : List (LayoutBlock × Bbox)) (page : ℕ) (bbox : Bbox) :
    Option (LayoutBlock × Bbox) → Prop
  | some image => image ∈ images ∧ image.1.page = page ∧
      distance js bbox image.2 ≤ CORRELATION_THRESHOLD ∧
      ∀ other ∈ images, other.1.page = page → distance js bbox image.2 ≤ distance js bbox other.2
  | none => ∀ other ∈ images, other.1.page = page →
      CORRELATION_THRESHOLD < distance js bbox other.2

/-- Every cued block has its place among the slots, and every slot comes from a cued block. -/
structure Accounts (allBlocks : List LayoutBlock) (cues : List String) (slots : List Slot)
    (slotOf : LayoutBlock → ℕ) : Prop where
  lands : ∀ block ∈ allBlocks, Cued js cues block → ∃ slot, slots[slotOf block]? = some slot ∧
    slot.page = block.page ∧ slot.image = nearest js allBlocks block ∧
    (nearest js allBlocks block = none → block.bbox = some slot.bbox)
  own : ∀ block ∈ allBlocks, ∀ block' ∈ allBlocks, Cued js cues block → Cued js cues block' →
    slotOf block = slotOf block' → nearest js allBlocks block = none → block = block'
  cued : ∀ i < slots.length, ∃ block ∈ allBlocks, Cued js cues block ∧ slotOf block = i
  once : ((slots.filterMap Slot.image).map LayoutBlock.index).Nodup

/-- A block that is passed over for an empty cue shares its nearest image with one that is not. -/
def EmptyCueHarmless (allBlocks : List LayoutBlock) (cues : List String) : Prop :=
  ∀ block ∈ allBlocks, Cued js cues block → matchCue js block.content cues = some "" →
    ∃ block' ∈ allBlocks, (cueOf js cues block').isSome ∧ (nearest js allBlocks block).isSome ∧
      nearest js allBlocks block' = nearest js allBlocks block

/-- A full execution has blocks, all of them signed, and where regions are located the blocks
are those of the slots. -/
structure ExecutedWhenSigned (slots : List Slot) (capabilities : List Capability)
    (result : SigningResult) : Prop where
  signed : result.fullyExecuted = true →
    result.blocks ≠ [] ∧ ∀ block ∈ result.blocks, block.signed = true
  slots : .seals ∈ capabilities →
    List.Forall₂ (fun slot block => ∃ judgment, block = toBlock slot judgment) slots result.blocks

structure SlotsAccounted (allBlocks : List LayoutBlock) (cues : List String) : Prop where
  accounts : ∃ place, Accounts js allBlocks cues (correlateSlots js allBlocks cues) place
  nearest : ∀ page bbox, IsNearest js (imagesOf allBlocks) page bbox
    (nearestImage js bbox page (imagesOf allBlocks))
  executed : ∀ imaging ctx args result calls, ctx.doc.blocks = allBlocks →
    args.signatureCues = cues → executeSigning js imaging ctx args = .ok (result, calls) →
      ExecutedWhenSigned (correlateSlots js allBlocks cues) ctx.capabilities result

variable {js}

theorem matchCue_eq_none {content : String} {cues : List String} :
    matchCue js content cues = none ↔ ∀ cue ∈ cues, ¬ Holds js content cue := by
  simp [matchCue, Holds]

/-- A cued block is taken for a cue unless the first one it holds is empty. -/
theorem cueOf_eq_none {cues : List String} {block : LayoutBlock} (h : Cued js cues block) :
    cueOf js cues block = none ↔ matchCue js block.content cues = some "" := by
  obtain ⟨hlabel, hplace, cue, hcue, hholds⟩ := h
  obtain ⟨bbox, hbbox⟩ := Option.isSome_iff_exists.mp hplace
  rw [cueOf, if_neg hlabel, hbbox, Option.bind_some]
  cases hmatch : matchCue js block.content cues with
  | none => exact absurd hholds (matchCue_eq_none.mp hmatch cue hcue)
  | some found =>
    by_cases hempty : found = ""
    · simp [hempty]
    · simp [hempty]

theorem cued_of_cueOf {cues : List String} {block : LayoutBlock} {cue : String}
    (h : cueOf js cues block = some cue) : Cued js cues block := by
  unfold cueOf at h
  split_ifs at h with hlabel
  obtain ⟨bbox, hbbox, hfilter⟩ := Option.bind_eq_some_iff.mp h
  refine ⟨hlabel, Option.isSome_iff_exists.mpr ⟨bbox, hbbox⟩, ?_⟩
  by_contra hnone
  have hmatch : matchCue js block.content cues = none :=
    matchCue_eq_none.mpr fun cue hcue hholds => hnone ⟨cue, hcue, hholds⟩
  rw [hmatch] at hfilter
  cases hfilter

/-- How near the best image so far is, or how near an image has to be. -/
def reach (js : Engine) (bbox : Bbox) : Option (LayoutBlock × Bbox) → ℚ
  | some image => distance js bbox image.2
  | none => CORRELATION_THRESHOLD

section Nearest

variable {images : List (LayoutBlock × Bbox)} {page : ℕ} {bbox : Bbox}

theorem IsNearest.reach_le {best : Option (LayoutBlock × Bbox)}
    (h : IsNearest js images page bbox best) : reach js bbox best ≤ CORRELATION_THRESHOLD ∧
      ∀ other ∈ images, other.1.page = page → reach js bbox best ≤ distance js bbox other.2 := by
  cases best with
  | none => exact ⟨le_refl _, fun other hother hpage => (h other hother hpage).le⟩
  | some image => exact ⟨h.2.2.1, h.2.2.2⟩

/-- An image that is on another page or farther away changes nothing. -/
theorem IsNearest.keep {best : Option (LayoutBlock × Bbox)}
    (h : IsNearest js images page bbox best) {image : LayoutBlock × Bbox}
    (hfar : image.1.page = page → reach js bbox best < distance js bbox image.2) :
    IsNearest js (images ++ [image]) page bbox best := by
  cases best with
  | none =>
    intro other hother hpage
    rcases List.mem_append.mp hother with hold | hlast
    · exact h other hold hpage
    · obtain rfl := List.mem_singleton.mp hlast
      exact hfar hpage
  | some nearest =>
    obtain ⟨hmem, hon, hwithin, hleast⟩ := h
    refine ⟨List.mem_append_left _ hmem, hon, hwithin, fun other hother hpage => ?_⟩
    rcases List.mem_append.mp hother with hold | hlast
    · exact hleast other hold hpage
    · obtain rfl := List.mem_singleton.mp hlast
      exact (hfar hpage).le

/-- An image on the page that is as near takes over. -/
theorem IsNearest.take {best : Option (LayoutBlock × Bbox)}
    (h : IsNearest js images page bbox best) {image : LayoutBlock × Bbox}
    (hpage : image.1.page = page) (hnear : distance js bbox image.2 ≤ reach js bbox best) :
    IsNearest js (images ++ [image]) page bbox (some image) := by
  obtain ⟨hwithin, hleast⟩ := h.reach_le
  refine ⟨by simp, hpage, hnear.trans hwithin, fun other hother hon => ?_⟩
  rcases List.mem_append.mp hother with hold | hlast
  · exact hnear.trans (hleast other hold hon)
  · obtain rfl := List.mem_singleton.mp hlast
    exact le_refl _

/-- The scan carries its best image and how near it is. -/
theorem isNearest_nearestImage (images : List (LayoutBlock × Bbox)) (page : ℕ) (bbox : Bbox) :
    IsNearest js images page bbox (nearestImage js bbox page images) := by
  suffices h : IsNearest js images page bbox (nearestImage js bbox page images) ∧
      (images.foldl (fun best image => if image.1.page ≠ page then best
        else if distance js bbox image.2 ≤ best.2 then (some image, distance js bbox image.2)
        else best) ((none, CORRELATION_THRESHOLD) : Option (LayoutBlock × Bbox) × ℚ)).2 =
      reach js bbox (nearestImage js bbox page images) from h.1
  unfold nearestImage
  induction images using List.reverseRecOn with
  | nil => exact ⟨fun other hother => absurd hother List.not_mem_nil, rfl⟩
  | append_singleton images image ih =>
    rw [List.foldl_append, List.foldl_cons, List.foldl_nil]
    generalize images.foldl _ _ = best at ih ⊢
    obtain ⟨hbest, hreach⟩ := ih
    by_cases hpage : image.1.page = page
    · rw [if_neg (not_not.mpr hpage)]
      by_cases hnear : distance js bbox image.2 ≤ best.2
      · rw [if_pos hnear]
        exact ⟨hbest.take hpage (hreach ▸ hnear), rfl⟩
      · rw [if_neg hnear]
        exact ⟨hbest.keep fun _ => hreach ▸ lt_of_not_ge hnear, hreach⟩
    · rw [if_pos hpage]
      exact ⟨hbest.keep fun hon => absurd hon hpage, hreach⟩

end Nearest

theorem correlateBlock_of_none {allBlocks : List LayoutBlock} {cues : List String}
    {block : LayoutBlock} (h : cueOf js cues block = none) (slots : Slots) :
    correlateBlock js (imagesOf allBlocks) cues slots block = slots := by
  unfold cueOf at h
  unfold correlateBlock
  split_ifs at h ⊢ with hlabel
  · rfl
  · cases hbbox : block.bbox with
    | none => rfl
    | some bbox =>
      rw [hbbox, Option.bind_some] at h
      rw [h]

theorem correlateBlock_of_some {allBlocks : List LayoutBlock} {cues : List String}
    {block : LayoutBlock} {cue : String} (h : cueOf js cues block = some cue) (slots : Slots) :
    ∃ bbox, block.bbox = some bbox ∧ correlateBlock js (imagesOf allBlocks) cues slots block =
      slots.addCue block bbox cue (nearestImage js bbox block.page (imagesOf allBlocks)) := by
  unfold cueOf at h
  split_ifs at h with hlabel
  obtain ⟨bbox, hbbox, hfilter⟩ := Option.bind_eq_some_iff.mp h
  refine ⟨bbox, hbbox, ?_⟩
  unfold correlateBlock
  rw [if_neg hlabel, hbbox, hfilter]

section Loop

variable (js) (allBlocks : List LayoutBlock) (cues : List String)

/-- A block taken for a cue that is near no image. -/
def isOrphan (block : LayoutBlock) : Bool :=
  (cueOf js cues block).isSome && nearest js allBlocks block = none

/-- The empty slot of a block. -/
structure OrphanOf (block : LayoutBlock) (slot : Slot) : Prop where
  page : slot.page = block.page
  image : slot.image = none
  bbox : block.bbox = some slot.bbox

/-- The slot of an image, which a block was correlated with. -/
structure EntryOf (block : LayoutBlock) (entry : ℕ × Slot) : Prop where
  taken : (cueOf js cues block).isSome
  nearest : ∃ image, nearest js allBlocks block = some image ∧ entry.1 = image.index ∧
    entry.2.image = some image
  page : entry.2.page = block.page

/-- The slots of the blocks so far. -/
structure Correlated (seen : List LayoutBlock) (slots : Slots) : Prop where
  keys : (slots.byImage.map Prod.fst).Nodup
  entries : ∀ entry ∈ slots.byImage, ∃ block ∈ seen, EntryOf js allBlocks cues block entry
  found : ∀ block ∈ seen, (cueOf js cues block).isSome → ∀ image,
    nearest js allBlocks block = some image → image.index ∈ slots.byImage.map Prod.fst
  orphans : List.Forall₂ OrphanOf (seen.filter (isOrphan js allBlocks cues)) slots.orphans

variable {js allBlocks cues} {seen : List LayoutBlock} {slots : Slots} {block : LayoutBlock}

theorem Correlated.entries_append (h : Correlated js allBlocks cues seen slots) :
    ∀ entry ∈ slots.byImage, ∃ b ∈ seen ++ [block], EntryOf js allBlocks cues b entry := by
  intro entry hentry
  obtain ⟨b, hb, hof⟩ := h.entries entry hentry
  exact ⟨b, List.mem_append_left _ hb, hof⟩

/-- Slots that keep their images, and have that of the next block, have the images of all. -/
theorem Correlated.found_append (h : Correlated js allBlocks cues seen slots) {slots' : Slots}
    (hkeep : slots.byImage.map Prod.fst ⊆ slots'.byImage.map Prod.fst)
    (hlast : (cueOf js cues block).isSome → ∀ image, nearest js allBlocks block = some image →
      image.index ∈ slots'.byImage.map Prod.fst) :
    ∀ b ∈ seen ++ [block], (cueOf js cues b).isSome → ∀ image,
      nearest js allBlocks b = some image → image.index ∈ slots'.byImage.map Prod.fst := by
  intro b hb htaken image himage
  rcases List.mem_append.mp hb with hold | hnew
  · exact hkeep (h.found b hold htaken image himage)
  · obtain rfl := List.mem_singleton.mp hnew
    exact hlast htaken image himage

theorem Correlated.orphans_append (h : Correlated js allBlocks cues seen slots)
    (hnot : isOrphan js allBlocks cues block = false) :
    List.Forall₂ OrphanOf ((seen ++ [block]).filter (isOrphan js allBlocks cues))
      slots.orphans := by
  rw [List.filter_append, List.filter_singleton, hnot, cond_false, List.append_nil]
  exact h.orphans

/-- A block that is taken for no cue. -/
theorem Correlated.skip (h : Correlated js allBlocks cues seen slots)
    (hcue : cueOf js cues block = none) : Correlated js allBlocks cues (seen ++ [block]) slots := by
  refine ⟨h.keys, h.entries_append, h.found_append (List.Subset.refl _) fun htaken => ?_,
    h.orphans_append (by simp [isOrphan, hcue])⟩
  rw [hcue] at htaken
  cases htaken

/-- A block that is taken for a cue and near no image gets a slot of its own. -/
theorem Correlated.orphan (h : Correlated js allBlocks cues seen slots) {cue : String} {bbox : Bbox}
    (hcue : cueOf js cues block = some cue) (hbbox : block.bbox = some bbox)
    (hnearest : nearest js allBlocks block = none) :
    Correlated js allBlocks cues (seen ++ [block]) (slots.addCue block bbox cue none) := by
  have horphan : isOrphan js allBlocks cues block = true := by simp [isOrphan, hcue, hnearest]
  refine ⟨h.keys, h.entries_append,
    h.found_append (List.Subset.refl _) fun _ image himage => ?_, ?_⟩
  · rw [hnearest] at himage
    cases himage
  · rw [List.filter_append, List.filter_singleton, horphan, cond_true]
    exact List.rel_append h.orphans (.cons ⟨rfl, rfl, hbbox⟩ .nil)

/-- A block near an image that has a slot joins it: the slot keeps all but its context. -/
theorem Correlated.join_known (h : Correlated js allBlocks cues seen slots) {cue : String}
    {bbox : Bbox} {image : LayoutBlock × Bbox}
    (hnearest : nearest js allBlocks block = some image.1)
    (hknown : image.1.index ∈ slots.byImage.map Prod.fst) :
    Correlated js allBlocks cues (seen ++ [block]) (slots.addCue block bbox cue (some image)) := by
  have hadd : slots.addCue block bbox cue (some image) =
      { slots with byImage := slots.byImage.map fun entry =>
          if entry.1 = image.1.index then
            (entry.1, { entry.2 with
              context := JsText.slice (trim (entry.2.context ++ "\n" ++ block.content)) 800 })
          else entry } := if_pos hknown
  have hkeys : (slots.addCue block bbox cue (some image)).byImage.map Prod.fst =
      slots.byImage.map Prod.fst := by
    rw [hadd, List.map_map]
    refine List.map_congr_left fun entry _ => ?_
    rw [Function.comp_apply]
    split_ifs
    · rfl
    · rfl
  refine ⟨hkeys ▸ h.keys, fun entry hentry => ?_,
    h.found_append (hkeys ▸ List.Subset.refl _) fun _ image' himage' => ?_, ?_⟩
  · rw [hadd] at hentry
    obtain ⟨old, hold, hupdated⟩ := List.mem_map.mp hentry
    obtain ⟨b, hb, hof⟩ := h.entries_append old hold
    refine ⟨b, hb, ?_⟩
    rw [← hupdated]
    split_ifs
    · exact ⟨hof.taken, hof.nearest, hof.page⟩
    · exact hof
  · rw [hkeys, ← Option.some.inj (hnearest.symm.trans himage')]
    exact hknown
  · rw [hadd]
    exact h.orphans_append (by simp [isOrphan, hnearest])

/-- A block that is taken for a cue and near an image without a slot makes one. -/
theorem Correlated.join_new (h : Correlated js allBlocks cues seen slots) {cue : String}
    {bbox : Bbox} {image : LayoutBlock × Bbox} (hcue : cueOf js cues block = some cue)
    (hnearest : nearest js allBlocks block = some image.1)
    (hnew : image.1.index ∉ slots.byImage.map Prod.fst) :
    Correlated js allBlocks cues (seen ++ [block]) (slots.addCue block bbox cue (some image)) := by
  have hadd : slots.addCue block bbox cue (some image) =
      { slots with byImage := slots.byImage ++
          [(image.1.index, ⟨cue, block.page, image.2, some image.1, trim block.content⟩)] } :=
    if_neg hnew
  have hkeys : (slots.addCue block bbox cue (some image)).byImage.map Prod.fst =
      slots.byImage.map Prod.fst ++ [image.1.index] := by
    rw [hadd, List.map_append, List.map_singleton]
  refine ⟨?_, fun entry hentry => ?_,
    h.found_append (hkeys ▸ List.subset_append_left _ _) fun _ image' himage' => ?_, ?_⟩
  · rw [hkeys]
    exact h.keys.append (List.nodup_singleton _) (by simpa using hnew)
  · rw [hadd] at hentry
    rcases List.mem_append.mp hentry with hold | hlast
    · exact h.entries_append entry hold
    · rw [List.mem_singleton.mp hlast]
      exact ⟨block, by simp, by rw [hcue]; rfl, ⟨image.1, hnearest, rfl, rfl⟩, rfl⟩
  · rw [hkeys, ← Option.some.inj (hnearest.symm.trans himage')]
    exact List.mem_append_right _ List.mem_cons_self
  · rw [hadd]
    exact h.orphans_append (by simp [isOrphan, hnearest])

theorem correlated_run (blocks : List LayoutBlock) : Correlated js allBlocks cues blocks
    (blocks.foldl (correlateBlock js (imagesOf allBlocks) cues) ⟨[], []⟩) := by
  induction blocks using List.reverseRecOn with
  | nil => exact ⟨.nil, by simp, by simp, .nil⟩
  | append_singleton seen block ih =>
    rw [List.foldl_append, List.foldl_cons, List.foldl_nil]
    cases hcue : cueOf js cues block with
    | none =>
      rw [correlateBlock_of_none hcue]
      exact ih.skip hcue
    | some cue =>
      obtain ⟨bbox, hbbox, hblock⟩ := @correlateBlock_of_some js allBlocks cues block cue hcue
        (seen.foldl (correlateBlock js (imagesOf allBlocks) cues) ⟨[], []⟩)
      rw [hblock]
      cases himage : nearestImage js bbox block.page (imagesOf allBlocks) with
      | none => exact ih.orphan hcue hbbox (by simp [nearest, hbbox, himage])
      | some image =>
        have hnearest : nearest js allBlocks block = some image.1 := by
          simp [nearest, hbbox, himage]
        by_cases hknown : image.1.index ∈
            (seen.foldl (correlateBlock js (imagesOf allBlocks) cues) ⟨[], []⟩).byImage.map Prod.fst
        · exact ih.join_known hnearest hknown
        · exact ih.join_new hcue hnearest hknown

end Loop

section Places

variable {allBlocks : List LayoutBlock} {cues : List String} {slots : Slots}

theorem nearest_mem {block image : LayoutBlock} (h : nearest js allBlocks block = some image) :
    image ∈ allBlocks ∧ image.page = block.page := by
  obtain ⟨bbox, -, himage⟩ := Option.bind_eq_some_iff.mp h
  obtain ⟨found, hfound, rfl⟩ := Option.map_eq_some_iff.mp himage
  obtain ⟨hmem, hpage⟩ := nearestImage_mem hfound
  exact ⟨(mem_imagesOf hmem).1, hpage⟩

/-- The slots in the order they are reported. -/
def Slots.all (slots : Slots) : List Slot := slots.byImage.map Prod.snd ++ slots.orphans

/-- Where the slot of a block is. -/
def slotOf (js : Engine) (allBlocks : List LayoutBlock) (cues : List String) (slots : Slots)
    (block : LayoutBlock) : ℕ :=
  match nearest js allBlocks block with
  | some image => (slots.byImage.map Prod.fst).idxOf image.index
  | none => slots.byImage.length + (allBlocks.filter (isOrphan js allBlocks cues)).idxOf block

theorem slotOf_image {block image : LayoutBlock} (h : nearest js allBlocks block = some image) :
    slotOf js allBlocks cues slots block = (slots.byImage.map Prod.fst).idxOf image.index := by
  rw [slotOf, h]

theorem slotOf_orphan {block : LayoutBlock} (h : nearest js allBlocks block = none) :
    slotOf js allBlocks cues slots block =
      slots.byImage.length + (allBlocks.filter (isOrphan js allBlocks cues)).idxOf block := by
  rw [slotOf, h]

/-- The slot under the index of an image is the slot of that image. -/
theorem Correlated.image_slot (h : Correlated js allBlocks cues allBlocks slots)
    (hindex : (allBlocks.map LayoutBlock.index).Nodup) {image : LayoutBlock}
    (himage : image ∈ allBlocks) (hkey : image.index ∈ slots.byImage.map Prod.fst) :
    (slots.byImage.map Prod.fst).idxOf image.index < slots.byImage.length ∧
    ∃ slot, slots.all[(slots.byImage.map Prod.fst).idxOf image.index]? = some slot ∧
      slot.page = image.page ∧ slot.image = some image := by
  have hlt := List.idxOf_lt_length_iff.mpr hkey
  have hlt' : (slots.byImage.map Prod.fst).idxOf image.index < slots.byImage.length := by
    rwa [List.length_map] at hlt
  have hfst := List.getElem_idxOf hlt
  generalize (slots.byImage.map Prod.fst).idxOf image.index = i at hlt hlt' hfst ⊢
  rw [List.getElem_map] at hfst
  obtain ⟨block, -, hof⟩ := h.entries _ (List.getElem_mem hlt')
  obtain ⟨image', hnearest, hkey', himage'⟩ := hof.nearest
  obtain ⟨hmem', hpage'⟩ := nearest_mem hnearest
  have hsame : image' = image :=
    List.inj_on_of_nodup_map hindex hmem' himage (hkey'.symm.trans hfst)
  refine ⟨hlt', slots.byImage[i].2, ?_, ?_, ?_⟩
  · rw [Slots.all, List.getElem?_append_left (by rwa [List.length_map]), List.getElem?_map,
      List.getElem?_eq_getElem hlt', Option.map_some]
  · rw [hof.page, ← hpage', hsame]
  · rw [himage', hsame]

/-- Behind the slots of images stand those of the blocks near none, in order. -/
theorem Correlated.orphan_slot (h : Correlated js allBlocks cues allBlocks slots)
    {block : LayoutBlock} (hblock : block ∈ allBlocks.filter (isOrphan js allBlocks cues)) :
    ∃ slot, slots.all[slots.byImage.length +
        (allBlocks.filter (isOrphan js allBlocks cues)).idxOf block]? = some slot ∧
      OrphanOf block slot := by
  have hlt := List.idxOf_lt_length_iff.mpr hblock
  have hlt' := hlt
  rw [h.orphans.length_eq] at hlt'
  refine ⟨slots.orphans[(allBlocks.filter (isOrphan js allBlocks cues)).idxOf block], ?_, ?_⟩
  · rw [Slots.all, List.getElem?_append_right (by rw [List.length_map]; exact Nat.le_add_right _ _),
      List.length_map, Nat.add_sub_cancel_left, List.getElem?_eq_getElem hlt']
  · have hof := (List.forall₂_iff_get.mp h.orphans).2 _ hlt hlt'
    simpa using hof

/-- The images of the slots are those the slots are kept under. -/
theorem Correlated.images (h : Correlated js allBlocks cues allBlocks slots) :
    (slots.all.filterMap Slot.image).map LayoutBlock.index = slots.byImage.map Prod.fst := by
  have horphans : slots.orphans.filterMap Slot.image = [] := by
    rw [List.filterMap_eq_nil_iff]
    intro slot hslot
    obtain ⟨i, hi, rfl⟩ := List.mem_iff_getElem.mp hslot
    have hi' := hi
    rw [← h.orphans.length_eq] at hi'
    exact ((List.forall₂_iff_get.mp h.orphans).2 i hi' hi).image
  have hentries (entries : List (ℕ × Slot))
      (hof : ∀ entry ∈ entries, ∃ block, EntryOf js allBlocks cues block entry) :
      ((entries.map Prod.snd).filterMap Slot.image).map LayoutBlock.index =
        entries.map Prod.fst := by
    induction entries with
    | nil => rfl
    | cons entry entries ih =>
      obtain ⟨block, hblock⟩ := hof entry List.mem_cons_self
      obtain ⟨image, -, hkey, himage⟩ := hblock.nearest
      rw [List.map_cons, List.filterMap_cons_some himage, List.map_cons, List.map_cons, hkey,
        ih fun e he => hof e (List.mem_cons_of_mem _ he)]
  rw [Slots.all, List.filterMap_append, horphans, List.append_nil]
  refine hentries _ fun entry hentry => ?_
  obtain ⟨block, -, hof⟩ := h.entries entry hentry
  exact ⟨block, hof⟩

theorem isOrphan_iff {block : LayoutBlock} : isOrphan js allBlocks cues block = true ↔
    (cueOf js cues block).isSome ∧ nearest js allBlocks block = none := by
  simp [isOrphan]

theorem cued_of_isSome {block : LayoutBlock} (h : (cueOf js cues block).isSome) :
    Cued js cues block := by
  obtain ⟨cue, hcue⟩ := Option.isSome_iff_exists.mp h
  exact cued_of_cueOf hcue

/-- Where empty cues do no harm, every cued block is near an image that has a slot, or has its
own. -/
theorem slotted_of_harmless (h : Correlated js allBlocks cues allBlocks slots)
    (hharmless : EmptyCueHarmless js allBlocks cues) {block : LayoutBlock}
    (hblock : block ∈ allBlocks) (hcued : Cued js cues block) :
    (∃ image, nearest js allBlocks block = some image ∧ image.index ∈ slots.byImage.map Prod.fst) ∨
      (nearest js allBlocks block = none ∧
        block ∈ allBlocks.filter (isOrphan js allBlocks cues)) := by
  by_cases htaken : cueOf js cues block = none
  · obtain ⟨block', hblock', htaken', hsome, hsame⟩ :=
      hharmless block hblock hcued ((cueOf_eq_none hcued).mp htaken)
    obtain ⟨image, himage⟩ := Option.isSome_iff_exists.mp hsome
    exact .inl ⟨image, himage, h.found block' hblock' htaken' image (hsame.trans himage)⟩
  · have hsome := Option.isSome_iff_ne_none.mpr htaken
    cases himage : nearest js allBlocks block with
    | some image => exact .inl ⟨image, rfl, h.found block hblock hsome image himage⟩
    | none =>
      exact .inr ⟨rfl, List.mem_filter.mpr ⟨hblock, isOrphan_iff.mpr ⟨hsome, himage⟩⟩⟩

/-- Every slot is that of a block taken for a cue. -/
theorem Correlated.exists_slotOf_eq (h : Correlated js allBlocks cues allBlocks slots)
    (hindex : (allBlocks.map LayoutBlock.index).Nodup) {i : ℕ} (hi : i < slots.all.length) :
    ∃ block ∈ allBlocks, (cueOf js cues block).isSome ∧
      slotOf js allBlocks cues slots block = i := by
  by_cases hentry : i < slots.byImage.length
  · obtain ⟨block, hblock, hof⟩ := h.entries _ (List.getElem_mem hentry)
    obtain ⟨image, himage, hkey, -⟩ := hof.nearest
    refine ⟨block, hblock, hof.taken, ?_⟩
    have hi' : i < (slots.byImage.map Prod.fst).length := by rwa [List.length_map]
    rw [slotOf_image himage, ← hkey, ← List.getElem_map Prod.fst (h := hi')]
    exact h.keys.idxOf_getElem i hi'
  · have hlength : slots.all.length = slots.byImage.length +
        (allBlocks.filter (isOrphan js allBlocks cues)).length := by
      rw [Slots.all, List.length_append, List.length_map, h.orphans.length_eq]
    have hj : i - slots.byImage.length <
        (allBlocks.filter (isOrphan js allBlocks cues)).length := by
      omega
    have hnodup : (allBlocks.filter (isOrphan js allBlocks cues)).Nodup :=
      hindex.of_map.filter _
    obtain ⟨hblock, horphan⟩ := List.mem_filter.mp (List.getElem_mem hj)
    obtain ⟨htaken, hnone⟩ := isOrphan_iff.mp horphan
    refine ⟨_, hblock, htaken, ?_⟩
    rw [slotOf_orphan hnone, hnodup.idxOf_getElem _ hj]
    omega

/-- The slot of a block near no image is no other block's. -/
theorem own_of_harmless (h : Correlated js allBlocks cues allBlocks slots)
    (hindex : (allBlocks.map LayoutBlock.index).Nodup)
    (hharmless : EmptyCueHarmless js allBlocks cues) {block block' : LayoutBlock}
    (hblock : block ∈ allBlocks) (hblock' : block' ∈ allBlocks) (hcued : Cued js cues block)
    (hcued' : Cued js cues block') (hnone : nearest js allBlocks block = none)
    (hsame : slotOf js allBlocks cues slots block = slotOf js allBlocks cues slots block') :
    block = block' := by
  rcases slotted_of_harmless h hharmless hblock hcued with ⟨image, himage, -⟩ | ⟨-, hmem⟩
  · rw [himage] at hnone
    cases hnone
  · rcases slotted_of_harmless h hharmless hblock' hcued' with ⟨image', himage', hkey'⟩ |
      ⟨hnone', hmem'⟩
    · have hlt := (h.image_slot hindex (nearest_mem himage').1 hkey').1
      rw [slotOf_orphan hnone, slotOf_image himage'] at hsame
      omega
    · rw [slotOf_orphan hnone, slotOf_orphan hnone', Nat.add_left_cancel_iff] at hsame
      exact (List.idxOf_inj hmem).mp hsame

theorem accounts_of_harmless (h : Correlated js allBlocks cues allBlocks slots)
    (hindex : (allBlocks.map LayoutBlock.index).Nodup)
    (hharmless : EmptyCueHarmless js allBlocks cues) :
    Accounts js allBlocks cues slots.all (slotOf js allBlocks cues slots) := by
  refine ⟨fun block hblock hcued => ?_, fun block hblock block' hblock' hcued hcued' hsame hnone =>
    own_of_harmless h hindex hharmless hblock hblock' hcued hcued' hnone hsame,
    fun i hi => ?_, ?_⟩
  · rcases slotted_of_harmless h hharmless hblock hcued with ⟨image, himage, hkey⟩ | ⟨hnone, hmem⟩
    · obtain ⟨hmem, hpage⟩ := nearest_mem himage
      obtain ⟨-, slot, hslot, hslotPage, hslotImage⟩ := h.image_slot hindex hmem hkey
      refine ⟨slot, (slotOf_image himage).symm ▸ hslot, hslotPage.trans hpage, ?_, fun hnone => ?_⟩
      · rw [hslotImage, himage]
      · rw [himage] at hnone
        cases hnone
    · obtain ⟨slot, hslot, hof⟩ := h.orphan_slot hmem
      exact ⟨slot, (slotOf_orphan hnone).symm ▸ hslot, hof.page, hof.image.trans hnone.symm,
        fun _ => hof.bbox⟩
  · obtain ⟨block, hblock, htaken, hplace⟩ := h.exists_slotOf_eq hindex hi
    exact ⟨block, hblock, cued_of_isSome htaken, hplace⟩
  · rw [h.images]
    exact h.keys

/-- A slot without an image is behind those of the images. -/
theorem Correlated.le_of_no_image (h : Correlated js allBlocks cues allBlocks slots) {i : ℕ}
    {slot : Slot} (hslot : slots.all[i]? = some slot) (hnone : slot.image = none) :
    slots.byImage.length ≤ i := by
  by_contra hlt
  have hlt' : i < slots.byImage.length := not_le.mp hlt
  obtain ⟨block, -, hof⟩ := h.entries _ (List.getElem_mem hlt')
  obtain ⟨image, -, -, himage⟩ := hof.nearest
  rw [Slots.all, List.getElem?_append_left (by rwa [List.length_map]), List.getElem?_map,
    List.getElem?_eq_getElem hlt', Option.map_some, Option.some.injEq] at hslot
  rw [hslot, hnone] at himage
  cases himage

/-- If every cued block near no image has a slot of its own, there are no more of them than empty
slots. -/
theorem length_orphans_le (h : Correlated js allBlocks cues allBlocks slots)
    (hindex : (allBlocks.map LayoutBlock.index).Nodup) {place : LayoutBlock → ℕ}
    (haccounts : Accounts js allBlocks cues slots.all place) {blocks : List LayoutBlock}
    (hsub : List.Sublist blocks allBlocks)
    (hblocks : ∀ block ∈ blocks, Cued js cues block ∧ nearest js allBlocks block = none) :
    blocks.length ≤ (allBlocks.filter (isOrphan js allBlocks cues)).length := by
  have hnodup : (blocks.map place).Nodup := by
    refine List.Nodup.map_on ?_ (hindex.of_map.sublist hsub)
    intro block hblock block' hblock' hsame
    exact haccounts.own block (hsub.subset hblock) block' (hsub.subset hblock')
      (hblocks block hblock).1 (hblocks block' hblock').1 hsame (hblocks block hblock).2
  have hrange : blocks.map place ⊆ List.range' slots.byImage.length slots.orphans.length := by
    intro i hi
    obtain ⟨block, hblock, rfl⟩ := List.mem_map.mp hi
    obtain ⟨hcued, hnone⟩ := hblocks block hblock
    obtain ⟨slot, hslot, -, himage, -⟩ := haccounts.lands block (hsub.subset hblock) hcued
    have hle := h.le_of_no_image hslot (himage.trans hnone)
    obtain ⟨hlt, -⟩ := List.getElem?_eq_some_iff.mp hslot
    rw [Slots.all, List.length_append, List.length_map] at hlt
    rw [List.mem_range'_1]
    omega
  have hlength := (List.subperm_of_subset hnodup hrange).length_le
  rwa [List.length_map, List.length_range', ← h.orphans.length_eq] at hlength

theorem harmless_of_accounts (h : Correlated js allBlocks cues allBlocks slots)
    (hindex : (allBlocks.map LayoutBlock.index).Nodup) {place : LayoutBlock → ℕ}
    (haccounts : Accounts js allBlocks cues slots.all place) :
    EmptyCueHarmless js allBlocks cues := by
  intro block hblock hcued hempty
  have hpassed := (cueOf_eq_none hcued).mpr hempty
  cases himage : nearest js allBlocks block with
  | some image =>
    -- the slot of the image comes from a block that was taken
    obtain ⟨slot, hslot, -, hslotImage, -⟩ := haccounts.lands block hblock hcued
    rw [himage] at hslotImage
    have hkey : image.index ∈ slots.byImage.map Prod.fst := by
      rw [← h.images]
      exact List.mem_map_of_mem
        (List.mem_filterMap.mpr ⟨slot, List.mem_of_getElem? hslot, hslotImage⟩)
    obtain ⟨entry, hentry, hentryKey⟩ := List.mem_map.mp hkey
    obtain ⟨block', hblock', hof⟩ := h.entries entry hentry
    obtain ⟨image', hnearest', hkey', -⟩ := hof.nearest
    have hsame : image' = image :=
      List.inj_on_of_nodup_map hindex (nearest_mem hnearest').1 (nearest_mem himage).1
        (hkey'.symm.trans hentryKey)
    exact ⟨block', hblock', hof.taken, rfl, hsame ▸ hnearest'⟩
  | none =>
    -- one cued block near no image more than there are empty slots
    have hown : ∀ b ∈ allBlocks.filter fun b => b = block ∨ isOrphan js allBlocks cues b = true,
        Cued js cues b ∧ nearest js allBlocks b = none := by
      intro b hb
      rcases of_decide_eq_true (List.mem_filter.mp hb).2 with rfl | horphan
      · exact ⟨hcued, himage⟩
      · obtain ⟨htaken, hnone⟩ := isOrphan_iff.mp horphan
        exact ⟨cued_of_isSome htaken, hnone⟩
    have hle := length_orphans_le h hindex haccounts List.filter_sublist hown
    have hsplit : allBlocks.filter (isOrphan js allBlocks cues) = (allBlocks.filter fun b =>
        b = block ∨ isOrphan js allBlocks cues b = true).filter (isOrphan js allBlocks cues) := by
      rw [List.filter_filter]
      refine List.filter_congr fun b _ => ?_
      cases isOrphan js allBlocks cues b <;> simp
    have hnot : ¬isOrphan js allBlocks cues block = true := by simp [isOrphan, hpassed]
    have hmem : block ∈ allBlocks.filter fun b => b = block ∨ isOrphan js allBlocks cues b = true :=
      List.mem_filter.mpr ⟨hblock, decide_eq_true (Or.inl rfl)⟩
    have hlt := List.length_filter_lt_length_iff_exists.mpr ⟨block, hmem, hnot⟩
    rw [← hsplit] at hlt
    omega

end Places

theorem signed_of_assemble {blocks : List SignatureBlock} {confidence : Confidence}
    {warnings : List String} (h : (assemble blocks confidence warnings).fullyExecuted = true) :
    (assemble blocks confidence warnings).blocks ≠ [] ∧
      ∀ block ∈ (assemble blocks confidence warnings).blocks, block.signed = true := by
  obtain ⟨hlength, hall⟩ := of_decide_eq_true h
  exact ⟨List.length_pos_iff.mp hlength, List.all_eq_true.mp hall⟩

theorem executedWhenSigned {imaging : Imaging} {ctx : OcrContext Vision} {args : SigningArgs}
    {result : SigningResult} {calls : List VisionCall}
    (h : executeSigning js imaging ctx args = .ok (result, calls)) :
    ExecutedWhenSigned (correlateSlots js ctx.doc.blocks args.signatureCues) ctx.capabilities
      result := by
  unfold executeSigning at h
  by_cases hseals : Capability.seals ∉ ctx.capabilities
  · rw [if_pos hseals] at h
    refine ⟨?_, fun hlocates => absurd hlocates hseals⟩
    unfold executeWholePage at h
    split_ifs at h with hgeometry
    · obtain ⟨rfl, -⟩ := Prod.mk.inj (Except.ok.inj h)
      exact signed_of_assemble
    · generalize selectVisionPages js ctx.doc args = selection at h
      obtain ⟨pageImages, -, h⟩ := bind_eq_ok.mp h
      obtain ⟨⟨blocks, unexamined, calls'⟩, -, hdone⟩ := bind_eq_ok.mp h
      obtain ⟨rfl, -⟩ := Prod.mk.inj (Except.ok.inj hdone)
      exact signed_of_assemble
  · rw [if_neg hseals] at h
    dsimp only at h
    split_ifs at h with hgeometry
    · obtain ⟨rfl, -⟩ := Prod.mk.inj (Except.ok.inj h)
      refine ⟨signed_of_assemble, fun _ => ?_⟩
      rw [assemble, List.forall₂_map_right_iff, List.forall₂_same]
      exact fun slot _ => ⟨unjudged, rfl⟩
    · obtain ⟨pageImages, -, h⟩ := bind_eq_ok.mp h
      obtain ⟨⟨blocks, calls'⟩, hslots, hdone⟩ := bind_eq_ok.mp h
      obtain ⟨rfl, -⟩ := Prod.mk.inj (Except.ok.inj hdone)
      exact ⟨signed_of_assemble, fun _ => (judgeSlots_spec hslots).2.imp fun _ _ h => h.1⟩

/-- The slots account for the cued blocks exactly when no block is lost to an empty cue. -/
theorem slots_accounted_iff (js : Engine) (allBlocks : List LayoutBlock)
    (hindex : (allBlocks.map LayoutBlock.index).Nodup) (cues : List String) :
    SlotsAccounted js allBlocks cues ↔ EmptyCueHarmless js allBlocks cues := by
  have hcorrelated := @correlated_run js allBlocks cues allBlocks
  constructor
  · rintro ⟨⟨place, haccounts⟩, -, -⟩
    exact harmless_of_accounts hcorrelated hindex haccounts
  · intro hharmless
    refine ⟨⟨_, accounts_of_harmless hcorrelated hindex hharmless⟩,
      isNearest_nearestImage (imagesOf allBlocks), ?_⟩
    rintro imaging ctx args result calls rfl rfl h
    exact executedWhenSigned h

theorem slots_accounted_contract : SlotsAccounted plain (signatureOn 1) ["Signature", "Director"] :=
  (slots_accounted_iff plain (signatureOn 1) (by decide) ["Signature", "Director"]).mpr (by
    have hempty : ∀ block ∈ signatureOn 1,
        matchCue plain block.content ["Signature", "Director"] ≠ some "" := by decide +kernel
    exact fun block hblock _ hmatch => absurd hmatch (hempty block hblock))

/-- An empty cue before the others: the signature line is passed over, and there is no slot. -/
theorem empty_cue_hides_slots : ¬ ∀ (allBlocks : List LayoutBlock) (cues : List String),
    (allBlocks.map LayoutBlock.index).Nodup → SlotsAccounted plain allBlocks cues := by
  intro hall
  obtain ⟨place, haccounts⟩ := (hall (signatureOn 1) ["", "Signature"] (by decide)).accounts
  have hcued : Cued plain ["", "Signature"] ⟨0, 1, .text, some (1 / 8, 3 / 4, 3 / 8, 25 / 32),
      "Signature:"⟩ := ⟨by decide, rfl, "", by simp, by simp [Holds, plain, JsText.toLowerCase]⟩
  obtain ⟨slot, hslot, -⟩ := haccounts.lands _ List.mem_cons_self hcued
  have hnone : correlateSlots plain (signatureOn 1) ["", "Signature"] = [] := by decide +kernel
  rw [hnone] at hslot
  cases hslot

end HeirsOcr.Signing

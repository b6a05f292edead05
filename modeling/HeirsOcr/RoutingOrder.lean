import HeirsOcr.ProviderRegistry

/-!
# The order of a chain

The router walks the names the policy prefers and then the registry, and keeps a provider the
first time its name comes by. So the chain holds every provider that satisfies the request once,
those with all preferred capabilities first, and each tier in the order of that walk.
-/
namespace HeirsOcr.Providers

section Order

variable (registry : List OcrProvider) (input : RouteInput)

/-- The names in the order of the walk: the policy's, then the registry's. -/
def walk : List String :=
  preferenceOrder input (policyForFunction input.policy input.fn) ++ registry.map OcrProvider.name

def covers (p : OcrProvider) : Bool := input.preferred.all p.capabilities.contains

/-- The place of a provider in the walk. -/
def place (p : OcrProvider) : ℕ := (walk registry input).idxOf p.name

/-- Every provider that satisfies the request once, in two tiers, each in the order of the walk. -/
structure RoutedInOrder (chain : List OcrProvider) : Prop where
  complete : ∀ p, p ∈ chain ↔ p ∈ registry ∧ providerSatisfies p input.group input.required
  once : chain.Nodup
  tiers : chain.Pairwise fun p q => covers input q → covers input p
  order : chain.Pairwise fun p q => covers input p = covers input q →
    place registry input p < place registry input q

/-- What the walk has kept of the names so far. -/
structure Kept (names : List String) (kept : List OcrProvider) : Prop where
  mem : ∀ p, p ∈ kept ↔
    p ∈ registry ∧ providerSatisfies p input.group input.required ∧ p.name ∈ names
  order : kept.Pairwise fun p q => names.idxOf p.name < names.idxOf q.name

end Order

section Walk

variable {registry : List OcrProvider} {input : RouteInput}

/-- With names of their own, the providers are found by them. -/
theorem byName_name (h : (registry.map OcrProvider.name).Nodup) {p : OcrProvider}
    (hp : p ∈ registry) : byName registry p.name = some p := by
  obtain ⟨q, hq⟩ : ∃ q, byName registry p.name = some q := by
    rw [← Option.isSome_iff_exists, byName, List.find?_isSome]
    exact ⟨p, List.mem_reverse.mpr hp, by simp⟩
  have hname : q.name = p.name := by simpa using List.find?_some hq
  rw [hq, List.inj_on_of_nodup_map h (mem_of_byName hq) hp hname]

theorem ordered_eq_walk (h : (registry.map OcrProvider.name).Nodup) :
    ordered registry input =
      ((walk registry input).filterMap (byName registry)).foldl (push input) [] := by
  have hregistry : (registry.map OcrProvider.name).filterMap (byName registry) = registry := by
    rw [List.filterMap_map]
    calc registry.filterMap (byName registry ∘ OcrProvider.name)
        = registry.filterMap some :=
          List.filterMap_congr fun p hp => byName_name h hp
      _ = registry := List.filterMap_some
  rw [ordered, walk, List.filterMap_append, hregistry]

theorem eq_of_byName (h : (registry.map OcrProvider.name).Nodup) {name : String}
    {p q : OcrProvider} (hname : byName registry name = some p) (hq : q ∈ registry) :
    q.name = name ↔ q = p := by
  constructor
  · rintro rfl
    exact Option.some.inj ((byName_name h hq).symm.trans hname)
  · rintro rfl
    simpa using List.find?_some hname

/-- The names before stay where they are. -/
theorem Kept.order_append {names : List String} {kept : List OcrProvider}
    (hkept : Kept registry input names kept) (name : String) :
    kept.Pairwise fun p q =>
      (names ++ [name]).idxOf p.name < (names ++ [name]).idxOf q.name := by
  refine hkept.order.imp_of_mem fun {p q} hp hq hlt => ?_
  rwa [List.idxOf_append_of_mem ((hkept.mem p).mp hp).2.2,
    List.idxOf_append_of_mem ((hkept.mem q).mp hq).2.2]

/-- To walk past a name that nothing is registered under. -/
theorem Kept.skip (h : (registry.map OcrProvider.name).Nodup) {names : List String}
    {kept : List OcrProvider} (hkept : Kept registry input names kept) {name : String}
    (hname : byName registry name = none) : Kept registry input (names ++ [name]) kept := by
  refine ⟨fun q => ?_, hkept.order_append name⟩
  have hother (hq : q ∈ registry) : q.name ≠ name := by
    rintro rfl
    rw [byName_name h hq] at hname
    cases hname
  rw [hkept.mem, List.mem_append, List.mem_singleton]
  constructor
  · rintro ⟨hq, hsat, hmem⟩
    exact ⟨hq, hsat, .inl hmem⟩
  · rintro ⟨hq, hsat, hmem⟩
    exact ⟨hq, hsat, hmem.resolve_right (hother hq)⟩

theorem Kept.seen_iff (h : (registry.map OcrProvider.name).Nodup) {names : List String}
    {kept : List OcrProvider} (hkept : Kept registry input names kept) {p : OcrProvider}
    (hp : p ∈ registry) : kept.all (fun q => q.name ≠ p.name) = true ↔ p ∉ kept := by
  rw [List.all_eq_true]
  constructor
  · intro hall hmem
    simpa using hall p hmem
  · intro hnew q hq
    have hne : q.name ≠ p.name := fun heq =>
      hnew (List.inj_on_of_nodup_map h ((hkept.mem q).mp hq).1 hp heq ▸ hq)
    simpa using hne

/-- To walk past the name of a provider that is kept then. -/
theorem Kept.keep (h : (registry.map OcrProvider.name).Nodup) {names : List String}
    {kept : List OcrProvider} (hkept : Kept registry input names kept) {name : String}
    {p : OcrProvider} (hname : byName registry name = some p)
    (hsat : providerSatisfies p input.group input.required) (hnew : p ∉ kept) :
    Kept registry input (names ++ [name]) (kept ++ [p]) := by
  have hp := mem_of_byName hname
  have hpname : p.name = name := (eq_of_byName h hname hp).mpr rfl
  have hunseen : name ∉ names := fun hmem =>
    hnew ((hkept.mem p).mpr ⟨hp, hsat, hpname.symm ▸ hmem⟩)
  constructor
  · intro q
    rw [List.mem_append, hkept.mem, List.mem_singleton, List.mem_append, List.mem_singleton]
    constructor
    · rintro (⟨hq, hsat, hmem⟩ | rfl)
      · exact ⟨hq, hsat, .inl hmem⟩
      · exact ⟨hp, hsat, .inr hpname⟩
    · rintro ⟨hq, hsat, hmem | heq⟩
      · exact .inl ⟨hq, hsat, hmem⟩
      · exact .inr ((eq_of_byName h hname hq).mp heq)
  · rw [List.pairwise_append]
    refine ⟨hkept.order_append name, List.pairwise_singleton _ _, ?_⟩
    intro q hq r hr
    obtain rfl := List.mem_singleton.mp hr
    have hqnames := ((hkept.mem q).mp hq).2.2
    rw [hpname, List.idxOf_append_of_mem hqnames, List.idxOf_append_of_notMem hunseen]
    exact (List.idxOf_lt_length_iff.mpr hqnames).trans_le (Nat.le_add_right _ _)

/-- To walk past the name of a provider that is unfit or kept already. -/
theorem Kept.pass (h : (registry.map OcrProvider.name).Nodup) {names : List String}
    {kept : List OcrProvider} (hkept : Kept registry input names kept) {name : String}
    {p : OcrProvider} (hname : byName registry name = some p)
    (hold : providerSatisfies p input.group input.required → p ∈ kept) :
    Kept registry input (names ++ [name]) kept := by
  refine ⟨fun q => ?_, hkept.order_append name⟩
  rw [hkept.mem, List.mem_append, List.mem_singleton]
  constructor
  · rintro ⟨hq, hsat, hmem⟩
    exact ⟨hq, hsat, .inl hmem⟩
  · rintro ⟨hq, hsat, hmem | heq⟩
    · exact ⟨hq, hsat, hmem⟩
    · obtain rfl := (eq_of_byName h hname hq).mp heq
      exact (hkept.mem q).mp (hold hsat)

/-- To walk past the name of a provider. -/
theorem Kept.push (h : (registry.map OcrProvider.name).Nodup) {names : List String}
    {kept : List OcrProvider} (hkept : Kept registry input names kept) {name : String}
    {p : OcrProvider} (hname : byName registry name = some p) :
    Kept registry input (names ++ [name]) (push input kept p) := by
  have hseen := hkept.seen_iff h (mem_of_byName hname)
  by_cases hnew : providerSatisfies p input.group input.required ∧ p ∉ kept
  · rw [Providers.push, if_pos (by rw [Bool.and_eq_true, hseen]; exact hnew)]
    exact hkept.keep h hname hnew.1 hnew.2
  · rw [Providers.push, if_neg (by rw [Bool.and_eq_true, hseen]; exact hnew)]
    exact hkept.pass h hname fun hsat => not_not.mp fun hnot => hnew ⟨hsat, hnot⟩

/-- Run of the walk. -/
theorem kept_walk (h : (registry.map OcrProvider.name).Nodup) (names : List String) :
    Kept registry input names
      ((names.filterMap (byName registry)).foldl (Providers.push input) []) := by
  induction names using List.reverseRecOn with
  | nil => exact ⟨by simp, .nil⟩
  | append_singleton names name ih =>
    rw [List.filterMap_append, List.foldl_append]
    cases hname : byName registry name with
    | none => simpa [hname] using ih.skip h hname
    | some p => simpa [hname] using ih.push h hname

/-- The walk keeps every provider that satisfies the request, in the order of their places. -/
theorem ordered_spec (h : (registry.map OcrProvider.name).Nodup) :
    (∀ p, p ∈ ordered registry input ↔
      p ∈ registry ∧ providerSatisfies p input.group input.required) ∧
    (ordered registry input).Pairwise fun p q =>
      place registry input p < place registry input q := by
  have hkept := @kept_walk registry input h (walk registry input)
  rw [← ordered_eq_walk h] at hkept
  refine ⟨fun p => ?_, hkept.order⟩
  rw [hkept.mem]
  constructor
  · rintro ⟨hp, hsat, -⟩
    exact ⟨hp, hsat⟩
  · rintro ⟨hp, hsat⟩
    exact ⟨hp, hsat, List.mem_append_right _ (List.mem_map_of_mem hp)⟩

/-- The partition moves the providers with every preferred capability to the front, and leaves
each tier as it was. -/
theorem ranked_eq (registry : List OcrProvider) (input : RouteInput) :
    ranked registry input = (ordered registry input).filter (covers input) ++
      (ordered registry input).filter (!covers input ·) := by
  rw [ranked]
  by_cases hpreferred : input.preferred = []
  · have hall (p : OcrProvider) : covers input p = true := by simp [covers, hpreferred]
    rw [if_pos hpreferred, List.filter_eq_self.mpr fun p _ => hall p]
    simp [hall]
  · rw [if_neg hpreferred]
    rfl

theorem ranked_spec (h : (registry.map OcrProvider.name).Nodup) :
    RoutedInOrder registry input (ranked registry input) := by
  obtain ⟨hmem, horder⟩ := @ordered_spec registry input h
  have hfront := horder.filter (covers input)
  have hback := horder.filter (!covers input ·)
  have hcross : ∀ p ∈ (ordered registry input).filter (covers input),
      ∀ q ∈ (ordered registry input).filter (!covers input ·),
        covers input p = true ∧ covers input q = false := by
    intro p hp q hq
    exact ⟨(List.mem_filter.mp hp).2, by simpa using (List.mem_filter.mp hq).2⟩
  have hpermutation : (ranked registry input).Perm (ordered registry input) := by
    rw [ranked_eq]
    exact List.filter_append_perm _ _
  refine ⟨fun p => ?_, ?_, ?_, ?_⟩
  · rw [hpermutation.mem_iff, hmem]
  · rw [hpermutation.nodup_iff]
    refine horder.imp fun {p q} hlt heq => ?_
    rw [heq] at hlt
    exact lt_irrefl _ hlt
  · rw [ranked_eq, List.pairwise_append]
    refine ⟨List.pairwise_of_forall_mem_list ?_, List.pairwise_of_forall_mem_list ?_, ?_⟩
    · exact fun p hp q _ _ => (List.mem_filter.mp hp).2
    · intro p _ q hq hcovers
      have hnot := (List.mem_filter.mp hq).2
      simp [hcovers] at hnot
    · exact fun p hp q hq _ => (hcross p hp q hq).1
  · rw [ranked_eq, List.pairwise_append]
    refine ⟨hfront.imp (by intro _ _ hlt _; exact hlt),
      hback.imp (by intro _ _ hlt _; exact hlt), ?_⟩
    intro p hp q hq hsame
    obtain ⟨hp', hq'⟩ := hcross p hp q hq
    rw [hp', hq'] at hsame
    cases hsame

theorem routeProvider_ok_iff {d : RoutingDecision} :
    routeProvider registry input = .ok d ↔ ranked registry input = d.chain := by
  rw [routeProvider]
  cases ranked registry input with
  | nil => simp [RoutingDecision.chain]
  | cons p ps =>
    cases d
    simp [RoutingDecision.chain]

theorem routeProvider_error_iff : (∃ e, routeProvider registry input = .error e) ↔
    ranked registry input = [] := by
  rw [routeProvider]
  cases ranked registry input with
  | nil => simp
  | cons p ps => simp

end Walk

/-- What the router answers with distinct names: the providers that satisfy the request in two
tiers in the order of the walk, and an error when there are none. -/
theorem routes_in_order (registry : List OcrProvider)
    (h : (registry.map OcrProvider.name).Nodup) (input : RouteInput) :
    (∀ d, routeProvider registry input = .ok d → RoutedInOrder registry input d.chain) ∧
    ((∃ e, routeProvider registry input = .error e) ↔
      ∀ p ∈ registry, providerSatisfies p input.group input.required = false) := by
  have hspec := @ranked_spec registry input h
  constructor
  · intro d hd
    rw [← routeProvider_ok_iff.mp hd]
    exact hspec
  · rw [routeProvider_error_iff, List.eq_nil_iff_forall_not_mem]
    constructor
    · intro hnone p hp
      have hnot := hnone p
      rw [hspec.complete] at hnot
      simpa [hp] using hnot
    · intro hnone p hp
      obtain ⟨hregistered, hsat⟩ := (hspec.complete p).mp hp
      rw [hnone p hregistered] at hsat
      cases hsat

/-- Engines that read nothing. -/
def unreadable : Engines where
  utf8 _ := ""
  base64 _ := ""
  getText _ := .error "unreadable"
  convertToHtml _ := .error "unreadable"
  turndown _ := ""
  rasterizePdf _ := .error "unreadable"
  readPage _ := .error "unreadable"
  layoutParsing _ := .error "unreadable"

/-- A receipt as a PDF, under a policy that leads with Tesseract, names it twice and names a
provider that is not registered. -/
def receiptPdf : RouteInput where
  group := .pdf
  required := [.text]
  preferred := [.tables]
  fn := .RECEIPT_PARSING
  policy :=
    { image := ⟨"tesseract", []⟩
      scannedPdf := ⟨"tesseract", ["azure", "tesseract", "glm-ocr"]⟩
      overrides := fun _ => none }

theorem routes_in_order_receiptPdf :
    RoutedInOrder (buildProviderRegistry true unreadable) receiptPdf
      [GlmOcrProvider unreadable, TesseractProvider unreadable, PdfTextProvider unreadable] :=
  (routes_in_order _ (nodup_buildProviderRegistry true unreadable) receiptPdf).1
    ⟨GlmOcrProvider unreadable, [TesseractProvider unreadable, PdfTextProvider unreadable]⟩ rfl

end HeirsOcr.Providers

import HeirsOcr.CacheSoundness

/-!
# Who produced the document a function gets

Functions share the extraction cache, so a document may have been recognized for another
function, under another policy, by a provider that was then a fallback. Over runs whose
registries draw on one list of providers with distinct names, the producer of every
document an extraction returns still serves the request at hand.
-/
namespace HeirsOcr.Pipeline
open Providers StepMachine

variable {env : Environment} {registry : List Declaration} {r : Request} {s t : Extractions}

/-- The request meets providers of the registry, and each stamps its own name. -/
def CacheAction.Registered (registry : List Declaration) (a : CacheAction) : Prop :=
  ∀ r, a.request = some r → ∀ p ∈ r.deps.providers, declaration p ∈ registry ∧ StampsName p

/-- The document was produced, from bytes of the input's digest, by a provider the request
meets that accepts the input's group and has every capability its function requires. -/
def Request.ProducedCapably (r : Request) (env : Environment) (input : DocumentInput)
    (productions : List Production) (doc : RecognizedDocument) : Prop :=
  ∃ production ∈ productions, env.sha256 production.buffer = input.sha256 ∧
    unstamped production.doc = unstamped doc ∧
    ∃ p ∈ r.deps.providers, declaration p = production.producer ∧
      providerSatisfies p input.mimeGroup r.fn.requires

/-- Whatever extraction the request comes to returns a document produced capably. -/
def CacheAction.Capable (env : Environment) (s : Extractions) (a : CacheAction) : Prop :=
  ∀ r, a.request = some r → ∀ input opts doc cached, ingest env r.req = .ok input →
    (extractDocument r.fn input opts r.deps s.cache).output = .ok (doc, cached) →
    r.ProducedCapably env input
      (s.productions ++ r.productions (extractDocument r.fn input opts r.deps s.cache).calls) doc

/-- The providers behind everything produced are those of the registry. -/
def Extractions.FromRegistry (registry : List Declaration) (s : Extractions) : Prop :=
  ∀ production ∈ s.productions, production.producer ∈ registry

theorem CacheAction.Registered.stamped {a : CacheAction} (h : a.Registered registry) :
    a.Stamped :=
  fun r hr p hp => (h r hr p hp).2

/-- Within a registry of distinct names a name picks out the provider. -/
theorem eq_of_name_eq (hnames : (registry.map Declaration.name).Nodup) {d d' : Declaration}
    (hd : d ∈ registry) (hd' : d' ∈ registry) (hname : d.name = d'.name) : d = d' :=
  List.inj_on_of_nodup_map hnames hd hd' hname

theorem producer_of_mem_productions {calls : List RecognizeCall} {production : Production}
    (h : production ∈ r.productions calls) :
    ∃ p ∈ r.deps.providers, production.producer = declaration p := by
  rw [Request.productions, List.mem_filterMap] at h
  obtain ⟨call, -, hcall⟩ := h
  split at hcall
  · rename_i p hanswer hfound
    cases hcall
    exact ⟨p, List.mem_of_find?_eq_some hfound, rfl⟩
  · cases hcall

theorem fromRegistry_step {a : CacheAction} (hs : s.FromRegistry registry)
    (ha : a.Registered registry) (h : cacheStep env s a = some t) : t.FromRegistry registry := by
  rcases cacheStep_cases h with ⟨key, rfl, rfl⟩ | ⟨r, hr, ⟨-, hkeep⟩ | ⟨input, opts, e, -, -, -,
    hproductions⟩⟩
  · exact hs
  · intro production hmem
    exact hs production (hkeep ▸ hmem)
  · intro production hmem
    rw [hproductions, List.mem_append] at hmem
    rcases hmem with hold | hnew
    · exact hs production hold
    · obtain ⟨p, hp, hproducer⟩ := producer_of_mem_productions hnew
      rw [hproducer]
      exact (ha r hr p hp).1

/-- What the invariants say about one extraction, by where its document comes from. -/
theorem capable_of_invariants (hsha : ∀ buffer, HexDigest (env.sha256 buffer))
    (hnames : (registry.map Declaration.name).Nodup) (hkeyed : Keyed env s)
    (hs : s.FromRegistry registry) {a : CacheAction} (ha : a.Registered registry) :
    a.Capable env s := by
  intro r hr input opts doc cached hinput hout
  rcases extractDocument_cases (rfl : extractDocument r.fn input opts r.deps s.cache = _) with
    ⟨err, herr, -⟩ | ⟨decision, stored, hroute, hsource⟩
  · cases hout.symm.trans herr
  have hchain := satisfies_of_routeProvider hroute
  rcases hsource with ⟨hhit, -, -⟩ | ⟨hfresh, -, p, hp, answered, -, hstamped, hcall⟩
  · -- from the cache: the entry of the primary, so the primary's own production
    cases hout.symm.trans hhit
    obtain ⟨input', decision', hinput', hroute', -, -, production, hmem, hname, hdigest, hdoc⟩ :=
      hkeyed.hit hsha hinput hhit
    cases hinput.symm.trans hinput'
    cases hroute.symm.trans hroute'
    obtain ⟨hregistered, hsatisfies⟩ := hchain decision.provider List.mem_cons_self
    refine ⟨production, List.mem_append_left _ hmem, hdigest, hdoc, decision.provider,
      hregistered, ?_, hsatisfies⟩
    exact (eq_of_name_eq hnames (hs production hmem) (ha r hr _ hregistered).1 hname).symm
  · -- fresh: the answer of a provider of the chain, primary or fallback
    cases hout.symm.trans hfresh
    obtain ⟨hregistered, hsatisfies⟩ := hchain p hp
    obtain ⟨q, hq, hname, hmem⟩ := mem_productions hregistered hcall
    have hsame : declaration q = declaration p :=
      eq_of_name_eq hnames (ha r hr q hq).1 (ha r hr p hregistered).1 hname
    refine ⟨_, List.mem_append_right _ hmem, (sha256_of_ingest hinput).symm, hstamped.symm, p,
      hregistered, hsame.symm, hsatisfies⟩

/-- What the providers of the code declare, GLM-OCR included. -/
def declaredProviders : List Declaration :=
  [⟨"plain-text", [.text], [.text]⟩, ⟨"pdf-text", [.pdf], [.text]⟩,
    ⟨"mammoth", [.docx], [.text, .tables]⟩, ⟨"tesseract", [.image, .pdf], [.text, .layout]⟩,
    ⟨"glm-ocr", [.pdf, .image], [.text, .layout, .tables, .handwriting, .seals]⟩]

theorem nodup_declaredProviders : (declaredProviders.map Declaration.name).Nodup := by decide

/-- Requests to the code's own registry, over any engines and with GLM-OCR enabled or not,
meet the condition on providers. -/
theorem registered_of_buildProviderRegistry {a : CacheAction}
    (h : ∀ r, a.request = some r → ∃ GLM_ENABLED engines,
      r.deps.providers = buildProviderRegistry GLM_ENABLED engines) :
    a.Registered declaredProviders := by
  intro r hr p hp
  obtain ⟨GLM_ENABLED, engines, hproviders⟩ := h r hr
  rw [hproviders] at hp
  have hdeclared : declaredProviders = (buildProviderRegistry true engines).map declaration := rfl
  have hall : p ∈ buildProviderRegistry true engines := by
    cases GLM_ENABLED with
    | true => exact hp
    | false => exact List.mem_append_left _ (by simpa [buildProviderRegistry] using hp)
  exact ⟨hdeclared ▸ List.mem_map_of_mem hall, stampsName_of_mem_buildProviderRegistry hp⟩

/-- Over every run of requests whose providers belong to one registry of distinct names and
stamp their own, an extraction only returns what a capable provider of the request produced. -/
theorem capability_safety (env : Environment) (hsha : ∀ buffer, HexDigest (env.sha256 buffer))
    (registry : List Declaration) (hnames : (registry.map Declaration.name).Nodup)
    (as : List CacheAction)
    (has : Guarded (cacheStep env) (fun _ a => a.Registered registry) .empty as) :
    Along (cacheStep env) (fun s a _ => a.Capable env s) .empty as := by
  refine along_of_invariant (I := fun s => Keyed env s ∧ s.FromRegistry registry)
    (fun s a t hs ha h => ?_) ⟨keyed_empty, by simp [Extractions.FromRegistry, Extractions.empty]⟩
    has
  have hkeyed := keyed_step hs.1 ha.stamped h
  have hregistry := fromRegistry_step hs.2 ha h
  exact ⟨⟨hkeyed, hregistry⟩, capable_of_invariants hsha hnames hs.1 hs.2 ha⟩

/-- Tesseract's document is stored as a fallback and then serves the request as a hit. -/
theorem capability_safety_fallback :
    Along (cacheStep imageEnvironment) (fun s a _ => a.Capable imageEnvironment s) .empty
      [.run (scan true), .run (scan false)] := by
  have hscan : ∀ GLM_ENABLED,
      (CacheAction.run (scan GLM_ENABLED)).Registered declaredProviders := by
    intro GLM_ENABLED
    refine registered_of_buildProviderRegistry fun r hr => ⟨GLM_ENABLED, offlineEngines, ?_⟩
    obtain rfl := Option.some.inj hr
    rfl
  exact capability_safety imageEnvironment hexDigest_imageEnvironment declaredProviders
    nodup_declaredProviders _ ⟨hscan true, hscan false, trivial⟩

end HeirsOcr.Pipeline

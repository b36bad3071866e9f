import IceCube.Proofs.Boot.Shares
import IceCube.Proofs.Registry.Pages

/-!
# The order of stylesheets

A scan compiles the sources of a configuration in the order of the names of their files, and a cache
lists its components by their own names.  So a process that fills its registry from the caches can
have the stylesheets in another order than one that compiles the sources.  Both have the same
stylesheets otherwise, and they have them in the same order exactly if the sources of the components
with a stylesheet come in the order of the names of the components.
-/

namespace IceCube

open Step

/-! ## The order of names -/

/-- Identifiers in the order of the names of their components. -/
def Identifier.Sorted (is : List String) : Prop := is.Pairwise fun i j ↦ flatten i ≤ flatten j

instance (is : List String) : Decidable (Identifier.Sorted is) :=
  inferInstanceAs (Decidable (is.Pairwise _))

namespace CompilerConfig

variable {c : CompilerConfig} {w : FileTree} {rs : List CompiledComponent} {p : String → Bool}

/-- The sources of some components come in the order of the names of the components. -/
def InOrder (c : CompilerConfig) (files : FileTree) (p : String → Bool) : Prop :=
  Identifier.Sorted ((c.identifiers files).filter p)

instance (c : CompilerConfig) (files : FileTree) (p : String → Bool) : Decidable (c.InOrder files p) :=
  inferInstanceAs (Decidable (Identifier.Sorted _))

/-- There is a cache to start a configuration from in production. -/
def Cached (c : CompilerConfig) (files : FileTree) : Prop :=
  ∃ p, Boot.cacheFile? true c = some p ∧ ∃ cache, Cache.At files p cache

theorem nodup_names (hrs : c.Prepared rs w) : ((c.identifiers w).map Identifier.flatten).Nodup := by
  rw [← identifiers_of_found hrs.found, List.map_map]
  have hnames : rs.map (Identifier.flatten ∘ (·.identifier)) = rs.map (·.componentName) :=
    List.map_congr_left fun r hr ↦ (Compiler.describes_of_found hrs.found r hr).componentName.symm
  rw [hnames]
  exact hrs.nodup

/-- Sorting the components by their names leaves some of them where they are exactly if these come
in that order. -/
theorem inOrder_iff (hrs : c.Prepared rs w) {is : List String} (hperm : is.Perm (c.identifiers w))
    (hsorted : Identifier.Sorted is) : c.InOrder w p ↔ is.filter p = (c.identifiers w).filter p := by
  constructor
  · intro horder
    refine (hperm.filter p).eq_of_pairwise (fun i j hi hj hij hji ↦ ?_) (hsorted.filter p) horder
    exact List.inj_on_of_nodup_map (nodup_names hrs) (hperm.mem_iff.mp (List.mem_filter.mp hi).1)
      (List.mem_filter.mp hj).1 (String.le_antisymm hij hji)
  · intro heq
    rw [InOrder, ← heq]
    exact hsorted.filter p

/-- The names of the sources have no dots and no characters that come before the dot, as letters,
digits and underscores do not. -/
def Plain (c : CompilerConfig) (files : FileTree) : Prop :=
  ∀ base ∈ Compiler.sourceNames files c.sourceDir, base.toList.all ('.' < ·) = true

instance (c : CompilerConfig) (files : FileTree) : Decidable (c.Plain files) :=
  inferInstanceAs (Decidable (∀ base ∈ Compiler.sourceNames files c.sourceDir,
    base.toList.all ('.' < ·) = true))

/-- A dot that follows has no say in the order of words of characters that come after it. -/
theorem append_lt_append {xs ys suffix : List Char} (hxs : xs.all ('.' < ·) = true) (h : ys < xs) :
    ys ++ '.' :: suffix < xs ++ '.' :: suffix := by
  induction xs generalizing ys with
  | nil => exact absurd h (List.not_lt_nil ys)
  | cons x xs ih =>
    rw [List.all_cons, Bool.and_eq_true, decide_eq_true_iff] at hxs
    cases ys with
    | nil => exact List.cons_lt_cons_iff.mpr (.inl hxs.1)
    | cons y ys =>
      rw [List.cons_lt_cons_iff] at h
      exact List.cons_lt_cons_iff.mpr (h.imp_right (And.imp_right (ih hxs.2)))

/-- The name of the component of such a source ends in the name of the source. -/
theorem toList_flatten_identifierOf {base : String} (hbase : base.toList.all ('.' < ·) = true) :
    (Identifier.flatten ((Compiler.ofConfig "" c).identifierOf base)).toList =
      (Identifier.flatten ((Compiler.ofConfig "" c).namespacePrefix ++ ".")).toList ++
        base.toList := by
  have hplain : base.toList.map (fun a ↦ if a == Identifier.separator then '_' else a) =
      base.toList := by
    refine (List.map_congr_left fun a ha ↦ ?_).trans (List.map_id _)
    have hdot : '.' < a := of_decide_eq_true (List.all_eq_true.mp hbase a ha)
    exact if_neg fun heq ↦ Char.lt_irrefl _ (beq_iff_eq.mp heq ▸ hdot)
  rw [Compiler.identifierOf, Identifier.below, Identifier.flatten, Identifier.flatten,
    String.toList_ofList, String.toList_ofList, String.toList_append, List.map_append, hplain]

/-- Sources with such names come in the order of the names of their components. -/
theorem inOrder_of_plain (h : c.Plain w) (p : String → Bool) : c.InOrder w p := by
  refine List.Pairwise.filter p ?_
  rw [identifiers, List.pairwise_map]
  refine (Compiler.pairwise_sourceNames w c.sourceDir).imp_of_mem fun {a b} ha hb hab ↦ ?_
  rw [← String.not_lt, String.lt_iff, String.toList_append, String.toList_append] at hab
  rw [← String.not_lt, String.lt_iff, toList_flatten_identifierOf (h a ha),
    toList_flatten_identifierOf (h b hb)]
  have hbases : ¬ b.toList < a.toList := fun hlt ↦ hab (append_lt_append (h a ha) hlt)
  exact List.not_lt.mpr (List.append_left_le (List.not_lt.mp hbases))

end CompilerConfig

/-- The caches list components in the order of their names. -/
def Config.CachesSorted (config : Config) (files : FileTree) : Prop :=
  ∀ e ∈ config.compilers, ∀ p ∈ e.2.cacheFile, ∀ cache, Cache.At files p cache →
    Identifier.Sorted (cache.components.values.map (·.identifier))

/-- The caches of a run do. -/
theorem Command.cachesSorted_of_compile {file : String} {config : Config} {c c' : Console}
    (hc : c.files.Sound) (hload : outcome (loadConfig file) c = (.ok config, c))
    (hrun : outcome (compile file none) c = (.ok (), c')) (hseparate : config.Separate c.files)
    (hsources : ∀ e ∈ config.compilers, FileTree.SameSources e.2.sourceDir c.files c'.files) :
    config.CachesSorted c'.files := by
  intro e he p hp cache hcache
  obtain ⟨hruns, hconfigs⟩ := runs_of_compile hc hload hrun
  obtain ⟨t, ht, hconfig⟩ := exists_turn hconfigs he
  have hrs := Runs.prepared hc hruns hconfigs hseparate hsources ht
  rw [← hconfig] at hp
  -- the components have the names of their identifiers
  have hnames : ∀ x ∈ cache.components.values, x.componentName = Identifier.flatten x.identifier := by
    intro x hx
    obtain ⟨r, hr, rfl⟩ := List.mem_map.mp ((hrs.cache p hp cache hcache).mem_iff.mp hx)
    exact (Compiler.describes_of_found hrs.found r hr).componentName
  obtain ⟨m, m', -, hran, -⟩ := hruns.exists_ran ht
  have hsorted := hran.coherent.pairwise_values_toCache t.config.includesStylesInCache
  rw [← Runs.eq_toCache hc hruns hconfigs hseparate hsources ht hp hcache] at hsorted
  rw [Identifier.Sorted, List.pairwise_map]
  refine hsorted.imp_of_mem fun {x y} hx hy hxy ↦ ?_
  rwa [← hnames x hx, ← hnames y hy]

namespace Boot

variable {config : Config} {w : FileTree} {home : RegistryId} {production : Bool}
  {e : String × CompilerConfig} {es : Table String CompilerConfig} {s s' t : Workspace}
  {compiler : Compiler} {compilers : Table String Compiler} {p : String → Bool}

/-! ## Steps of a boot -/

theorem keys_putAll (r : Registry) (cs : List CachedComponent) :
    Table.keys (r.putAll cs).records =
      (cs.map (·.identifier)).foldl Table.addKey (Table.keys r.records) := by
  rw [Registry.putAll_eq_putEach, Registry.records_putEach, Table.keys_insertAll,
    Registry.cachedEntries]
  simp only [Table.keys, List.map_map]
  rfl

section Caches

variable {rs : List CompiledComponent} (hrs : e.2.Prepared rs w) {cs : List CachedComponent}
  (hcs : cs.Perm (rs.map fun r ↦ (Record.compiled r).toCached e.2.includesStylesInCache))
include hrs hcs

/-- The components of a cache have the identifiers of the sources. -/
theorem identifiers_perm : (cs.map (·.identifier)).Perm (e.2.identifiers w) := by
  have hperm := hcs.map (·.identifier)
  rw [List.map_map] at hperm
  exact hperm.trans (.of_eq (CompilerConfig.identifiers_of_found hrs.found))

/-- A cache can be registered where the components compiled from the sources can. -/
theorem registerAll_of_sources (hw : config.Prepared w) {r : Registry}
    (h : ∃ r', r.registerEach (rs.map Compiler.entry) = .ok r') :
    ∃ r', r.registerAll cs = .ok r' := by
  obtain ⟨-, -, hnames⟩ := keys_of_prepared hw.sound hrs
  have hcached : ((Registry.cachedEntries cs).map fun x ↦ x.2.componentName).Nodup := by
    have hsame := (cachedEntries_perm hcs).map fun x ↦ x.2.componentName
    rw [List.map_map, List.map_map] at hsame
    exact hsame.nodup_iff.mpr hnames
  rw [Registry.registerAll_eq_registerEach]
  exact Registry.registerEach_of_perm (fun _ ↦ rfl) (cachedEntries_perm hcs).symm hcached h

end Caches

section Steps

variable (hw : config.Prepared w) (hsorted : config.CachesSorted w)
include hw hsorted

/-- A configuration that is started adds the identifiers of its sources, in the order of the cache
if there is one and in the order of the sources if not. -/
theorem keys_of_start (he : e ∈ config.compilers) (hs : config.Since w s.files)
    (h : outcome (start home production e.1 e.2) s = (.ok compiler, t)) :
    config.Since w t.files ∧
    ∃ is : List String, Table.keys t.registry.records =
        is.foldl Table.addKey (Table.keys s.registry.records) ∧
      ((is = e.2.identifiers w ∧ ∀ p, cacheFile? production e.2 = some p →
          ∀ cache, ¬ Cache.At s.files p cache) ∨
        (production = true ∧ t.files = s.files ∧ is.Perm (e.2.identifiers w) ∧
          Identifier.Sorted is)) := by
  obtain ⟨rfl, u, hcompiler, hcases⟩ := start_cases h
  rw [outcome_compilerOf he hs home] at hcompiler
  cases hcompiler
  obtain ⟨rs, hrs⟩ := hw.compilers e he
  rcases hcases with ⟨p, cache, log, hfile, hloadable, rfl⟩ | ⟨log, rs', hnot, hscan⟩
  · obtain ⟨⟨text, htext, hread⟩, hversion, -⟩ := hloadable
    have hcache := hs.caches e he p (mem_of_cacheFile? hfile) cache
      (Cache.at_of_readText htext hread hversion)
    refine ⟨hs, cache.components.values.map (·.identifier), ?_, .inr ⟨production_of_cacheFile? hfile,
      rfl, identifiers_perm hrs (hrs.cache p (mem_of_cacheFile? hfile) cache hcache),
      hsorted e he p (mem_of_cacheFile? hfile) cache hcache⟩⟩
    rw [keys_putAll, Registry.records_attach]
  · have hfound := hw.outcome_scan (s := ⟨s.files, s.registry.attach (.ofConfig home e.2), log⟩)
      home he hrs hs
    rw [hscan] at hfound
    cases hregister : (s.registry.attach (.ofConfig home e.2)).registerEach
        (rs.map Compiler.entry) with
    | error f =>
      simp only [hregister] at hfound
      obtain ⟨t', heq⟩ := hfound
      cases heq
    | ok r =>
      simp only [hregister] at hfound
      obtain ⟨t', heq, rfl, ht⟩ := hfound
      cases heq
      refine ⟨ht, e.2.identifiers w, ?_, .inl ⟨rfl, fun p hfile cache hcache ↦ ?_⟩⟩
      · rw [Registry.registerEach_eq_ok hregister, Registry.records_putEach, Table.keys_insertAll,
          Registry.records_attach, (keys_of_prepared hw.sound hrs).1]
      · -- a cache has the names of the sources, and these were not in the way
        obtain ⟨hreads, hversion⟩ := hcache.reads
        exact hnot p hfile cache ⟨hreads, hversion, registerAll_of_sources hrs
          (hrs.cache p (mem_of_cacheFile? hfile) cache
            (hs.caches e he p (mem_of_cacheFile? hfile) cache hcache)) hw ⟨_, hregister⟩⟩

/-- A boot adds the identifiers of all sources, configuration by configuration.  Those that matter
are in the order of the sources if they are in the order of names as well or no cache is read. -/
theorem keys_of_boot (hes : es ⊆ config.compilers) (hs : config.Since w s.files)
    (horder : production = true → ∀ e ∈ es, e.2.InOrder w p)
    (h : outcome (boot home production ⟨es⟩) s = (.ok compilers, s')) :
    (Table.keys s'.registry.records).filter p =
      ((es.flatMap fun e ↦ e.2.identifiers w).filter p).foldl Table.addKey
        ((Table.keys s.registry.records).filter p) := by
  induction es generalizing s compilers with
  | nil =>
    cases h
    rfl
  | cons e es ih =>
    obtain ⟨compiler, rest, t, hstart, hrest, rfl⟩ := outcome_boot_cons.mp h
    obtain ⟨he, hes⟩ := List.cons_subset.mp hes
    obtain ⟨ht, is, hkeys, hcases⟩ := keys_of_start hw hsorted he hs hstart
    have his : is.filter p = (e.2.identifiers w).filter p := by
      rcases hcases with ⟨rfl, -⟩ | ⟨hproduction, -, hperm, his⟩
      · rfl
      · obtain ⟨rs, hrs⟩ := hw.compilers e he
        exact (CompilerConfig.inOrder_iff hrs hperm his).mp (horder hproduction e (by simp))
    have hlater := ih hes ht (fun hproduction e' he' ↦ horder hproduction e' (by simp [he'])) hrest
    rw [hlater, hkeys, Table.filter_foldl_addKey, his, List.flatMap_cons, List.filter_append,
      List.foldl_append]

/-- Where every configuration has a cache, a boot in production adds the identifiers in the order of
names, configuration by configuration. -/
theorem keys_of_cached_boot (hes : es ⊆ config.compilers) (hs : config.Since w s.files)
    (hcached : ∀ e ∈ es, e.2.Cached s.files)
    (h : outcome (boot home true ⟨es⟩) s = (.ok compilers, s')) :
    ∃ iss : List (List String), List.Forall₂ (fun e is ↦ Identifier.Sorted is ∧
        is.Perm (e.2.identifiers w)) es iss ∧
      Table.keys s'.registry.records = iss.flatten.foldl Table.addKey
        (Table.keys s.registry.records) := by
  induction es generalizing s compilers with
  | nil =>
    cases h
    exact ⟨[], .nil, rfl⟩
  | cons e es ih =>
    obtain ⟨compiler, rest, t, hstart, hrest, rfl⟩ := outcome_boot_cons.mp h
    obtain ⟨he, hes⟩ := List.cons_subset.mp hes
    obtain ⟨⟨q, hfile, cache, hcache⟩, hcached⟩ := List.forall_mem_cons.mp hcached
    obtain ⟨ht, is, hkeys, hcases⟩ := keys_of_start hw hsorted he hs hstart
    rcases hcases with ⟨-, hnot⟩ | ⟨-, hfiles, hperm, his⟩
    · exact absurd hcache (hnot q hfile cache)
    · rw [← hfiles] at hcached
      obtain ⟨iss, hiss, hlater⟩ := ih hes ht hcached hrest
      refine ⟨is :: iss, .cons ⟨his, hperm⟩ hiss, ?_⟩
      rw [hlater, hkeys, List.flatten_cons, List.foldl_append]

end Steps

/-- Lists of as many elements each that are the same one after the other are the same one by one. -/
theorem forall₂_filter_eq {α β : Type} {R : α → List β → Prop} {f : α → List β} {p : β → Bool}
    {as : List α} {bss : List (List β)} (h : List.Forall₂ (fun a bs ↦ R a bs ∧ bs.Perm (f a)) as bss)
    (heq : bss.flatten.filter p = (as.flatMap f).filter p) :
    List.Forall₂ (fun a bs ↦ R a bs ∧ bs.Perm (f a) ∧ bs.filter p = (f a).filter p) as bss := by
  induction h with
  | nil => exact .nil
  | @cons a bs as bss hbs _ ih =>
    rw [List.flatten_cons, List.flatMap_cons, List.filter_append, List.filter_append] at heq
    obtain ⟨hfirst, hrest⟩ := List.append_inj heq (hbs.2.filter p).length_eq
    exact .cons ⟨hbs.1, hbs.2, hfirst⟩ (ih hrest)

/-! ## Pages in production and in development -/

/-- The pages of a production process and of a development process have the same script and the same
stylesheets.  These come in the same order if in every configuration the sources of the components
that have one come in the order of the names of the components, and only then if every configuration
has its cache and no identifier is that of sources of two configurations. -/
structure SamePages (config : Config) (w t : FileTree) (q r : Registry) : Prop where
  bootstrapScript : q.bootstrapScript = r.bootstrapScript
  stylesheets : (Registry.stylesheetsOf q.allStyles).Perm (Registry.stylesheetsOf r.allStyles)
  allStyles : (∀ e ∈ config.compilers, e.2.InOrder w fun i ↦ (r.style? i).isSome) →
    q.allStyles = r.allStyles
  inOrder : (∀ e ∈ config.compilers, e.2.Cached t) →
    (config.compilers.flatMap fun e ↦ e.2.identifiers w).Nodup → q.allStyles = r.allStyles →
      ∀ e ∈ config.compilers, e.2.InOrder w fun i ↦ (r.style? i).isSome

/-- If all stylesheets are embedded, registries that agree have the same components. -/
theorem Agree.sameComponents {q r : Registry} (h : Agree w es q r)
    (hembedded : ∀ e ∈ es, e.2.scriptStrategy = .embedded) : q.SameComponents r := by
  intro i
  have hi := h.records i
  cases hlast : lastRegistering? w es i with
  | none =>
    rw [hlast] at hi
    rw [hi.1, hi.2]
  | some c =>
    rw [hlast] at hi
    obtain ⟨a, b, ha, hb, hab⟩ := hi
    obtain ⟨e, hfind, rfl⟩ := Option.map_eq_some_iff.mp hlast
    have he : e ∈ es := List.mem_reverse.mp (List.mem_of_find?_eq_some hfind)
    have hstyles : e.2.includesStylesInCache = true := by
      rw [CompilerConfig.includesStylesInCache, hembedded e he]
      rfl
    rw [hstyles] at hab
    rw [ha, hb, Option.map_some, Option.map_some, hab]

/-- Two boots after a run whose registries agree have the same pages. -/
theorem samePages_of_agree (hw : config.Prepared w) (hsorted : config.CachesSorted w)
    (hembedded : ∀ e ∈ config.compilers, e.2.scriptStrategy = .embedded) {home' : RegistryId}
    {compilers' : Table String Compiler} {t u : FileTree} {log log' : List Event}
    (ht : config.Since w t) (hu : config.Since w u)
    (hproduction : outcome (boot home true config) ⟨t, .empty, log⟩ = (.ok compilers, s))
    (hdevelopment : outcome (boot home' false config) ⟨u, .empty, log'⟩ = (.ok compilers', s'))
    (hagree : Agree w config.compilers s.registry s'.registry) :
    SamePages config w t s.registry s'.registry := by
  have hs := coherent_of_boot rfl hproduction
  have hs' := coherent_of_boot rfl hdevelopment
  have hsame := hagree.sameComponents hembedded
  have hkeys : ∀ p : String → Bool, (Table.keys s'.registry.records).filter p =
      ((config.compilers.flatMap fun e ↦ e.2.identifiers w).filter p).foldl Table.addKey [] := by
    intro p
    exact keys_of_boot hw hsorted (List.Subset.refl _) hu (fun h ↦ absurd h Bool.false_ne_true)
      hdevelopment
  refine ⟨hsame.bootstrapScript_eq hs hs', hsame.stylesheetsOf_perm hs hs', fun horder ↦ ?_,
    fun hcached hnodup hpages ↦ ?_⟩
  · rw [hsame.allStyles_eq_iff hs hs', Registry.styledKeys, Registry.styledKeys, hsame.style?_eq, hkeys]
    exact keys_of_boot hw hsorted (List.Subset.refl _) ht (fun _ ↦ horder) hproduction
  · rw [hsame.allStyles_eq_iff hs hs', Registry.styledKeys, Registry.styledKeys, hsame.style?_eq,
      hkeys] at hpages
    obtain ⟨iss, hiss, hcachedKeys⟩ :=
      keys_of_cached_boot hw hsorted (List.Subset.refl _) ht hcached hproduction
    -- no identifier comes twice, so they are all in the order in which they are added
    have hperm : iss.flatten.Perm (config.compilers.flatMap fun e ↦ e.2.identifiers w) := by
      refine List.Perm.flatten_congr ?_
      rw [List.forall₂_map_right_iff]
      exact hiss.flip.imp fun _ _ h ↦ h.2
    have hdistinct : ([] ++ iss.flatten).Nodup := hperm.nodup_iff.mpr hnodup
    rw [hcachedKeys, show Table.keys (Registry.empty.records) = [] from rfl,
      Table.foldl_addKey_of_nodup hdistinct, Table.foldl_addKey_of_nodup (hnodup.filter _),
      List.nil_append, List.nil_append] at hpages
    intro e he
    obtain ⟨k, hk⟩ := List.getElem?_of_mem he
    obtain ⟨is, -, his, hisperm, hfilter⟩ :=
      exists_getElem?_of_forall₂ (forall₂_filter_eq hiss hpages) hk
    obtain ⟨rs, hrs⟩ := hw.compilers e he
    exact (CompilerConfig.inOrder_iff hrs hisperm his).mpr hfilter

/-- After a run with the embedded strategy only, production pages are those of development up to the
order of their stylesheets, or both boots end in the same collision of names.  The order is that of
the names of the components in production and that of the names of the source files in development,
configuration by configuration. -/
theorem pages_agree_up_to_order {file : String} {c c' : Console}
    (hc : c.files.Sound) (hload : outcome (Command.loadConfig file) c = (.ok config, c))
    (hrun : outcome (Command.compile file none) c = (.ok (), c'))
    (hembedded : ∀ e ∈ config.compilers, e.2.scriptStrategy = .embedded)
    (hseparate : config.Separate c.files)
    (hsources : ∀ e ∈ config.compilers, FileTree.SameSources e.2.sourceDir c.files c'.files)
    {t u : FileTree} (ht : config.Since c'.files t) (hu : config.Since c'.files u)
    (home home' : RegistryId) (log log' : List Event) :
    EndAlike (fun s s' ↦ SamePages config c'.files t s.registry s'.registry)
      (outcome (boot home true config) ⟨t, .empty, log⟩)
      (outcome (boot home' false config) ⟨u, .empty, log'⟩) := by
  have hw := Command.prepared_of_compile hc hload hrun hseparate hsources
  have hsorted := Command.cachesSorted_of_compile hc hload hrun hseparate hsources
  have hstart : Alike config c'.files [] ⟨t, .empty, log⟩ ⟨u, .empty, log'⟩ :=
    ⟨ht, hu, .empty c'.files⟩
  have halike := boot_alike hw home home' hstart
  rcases hproduction : outcome (boot home true config) ⟨t, .empty, log⟩ with ⟨x, s⟩
  rcases hdevelopment : outcome (boot home' false config) ⟨u, .empty, log'⟩ with ⟨y, s'⟩
  rw [hproduction, hdevelopment] at halike
  rcases halike with hcollision | ⟨⟨compilers, rfl⟩, ⟨compilers', rfl⟩, halike⟩
  · exact .inl hcollision
  · exact .inr ⟨⟨compilers, rfl⟩, ⟨compilers', rfl⟩, samePages_of_agree hw hsorted hembedded ht hu
      hproduction hdevelopment halike.registries⟩

/-! ## Panels in another order -/

open Command

/-- A configuration that has kept its cache can be started from it. -/
theorem cached_of_kept {ts : List Turn} {turn : Turn} {u : FileTree} (hruns : Runs ts u w)
    (hturn : turn ∈ ts) (hkept : turn.Kept w) {p : Path}
    (hfile : cacheFile? true turn.config = some p) : turn.config.Cached w := by
  obtain ⟨m, m', -, hran, -⟩ := hruns.exists_ran hturn
  obtain ⟨text, htext, hread⟩ := hran.reads_toCache (hkept.cache p (mem_of_cacheFile? hfile))
  exact ⟨p, hfile, _, Cache.at_of_readText htext hread rfl⟩

/-- Two panels.  The hyphen comes before the dot, so the name of the second file comes first. -/
def panelFiles : FileTree where
  nodes := (sharedFiles "Panel.ice.py" styledText).nodes ++
    [(["two", "Panel-Head.ice.py"], .file (Utf8.encode styledText) FileTree.fileMode 0)]
  current := []
  clock := 1

/-- The console before the command runs. -/
def panelStart : Console := Command.start panelFiles ⟨none, none⟩

/-- The console after the command has run. -/
def panelEnd : Console :=
  (outcome (sharedConfig.compilers.forM fun e ↦ reporting (compileOne e.1 e.2)) panelStart).2

theorem loadConfig_panels :
    outcome (Command.loadConfig "icecube.yaml") panelStart = (.ok sharedConfig, panelStart) :=
  loadConfig_of_sharedText rfl rfl

theorem compile_panels : outcome (compile "icecube.yaml" none) panelStart = (.ok (), panelEnd) := by
  have hok : (outcome (sharedConfig.compilers.forM fun e ↦ reporting (compileOne e.1 e.2))
      panelStart).1.toOption = some () := by
    simp only [compileOne, Compiler.scan, Compiler.sourceNames, FileTree.names_eq_insertionSort]
    decide +kernel
  rw [outcome_compile_of_load loadConfig_panels]
  exact Prod.ext (toOption_eq_some_iff.mp hok) rfl

/-- The run keeps out of the way of the sources and of itself. -/
theorem panels_run : sharedConfig.Separate panelStart.files ∧
    (∀ e ∈ sharedConfig.compilers,
      FileTree.SameSources e.2.sourceDir panelStart.files panelEnd.files) ∧
    Consistent ((turns sharedConfig.compilers panelStart).flatMap (·.writes panelStart.files)) := by
  refine ⟨.of_places (by decide) (by decide) ?_, sameSources_shared ?_, consistent_of_nodup ?_⟩
  · simp only [CompilerConfig.artifacts, CompilerConfig.identifiers, Compiler.sourceNames,
      FileTree.names_eq_insertionSort]
    decide +kernel
  · simp only [panelEnd, compileOne, Compiler.scan, Compiler.sourceNames, FileTree.names_eq_insertionSort]
    decide +kernel
  · simp only [sharedConfig, turns, scanned, compileOne, Compiler.scan, Compiler.sourceNames,
      FileTree.names_eq_insertionSort]
    decide +kernel

/-- The head comes first among the sources, and both panels have a stylesheet. -/
theorem sources_of_panels :
    sharedConfig.compilers.map (fun e ↦ e.2.identifiers panelEnd.files) =
      [["a.b.Card"], ["a_b.Panel-Head", "a_b.Panel"]] ∧
    (outcome (boot "" false sharedConfig) ⟨panelEnd.files, .empty, []⟩).1.toOption.isSome = true ∧
    ∀ i ∈ ["a_b.Panel-Head", "a_b.Panel"], ((outcome (boot "" false sharedConfig)
      ⟨panelEnd.files, .empty, []⟩).2.registry.style? i).isSome = true := by
  simp only [panelEnd, compileOne, boot, start, Compiler.scan, CompilerConfig.identifiers,
    Compiler.sourceNames, FileTree.names_eq_insertionSort]
  decide +kernel

/-- Nothing is overwritten, so both configurations have their caches. -/
theorem cached_panels (hsound : panelStart.files.Sound) :
    ∀ e ∈ sharedConfig.compilers, e.2.Cached panelEnd.files := by
  intro e he
  obtain ⟨hruns, hconfigs⟩ := runs_of_compile hsound loadConfig_panels compile_panels
  obtain ⟨turn, hturn, hconfig⟩ := exists_turn hconfigs he
  have hfile : ∀ e ∈ sharedConfig.compilers, (cacheFile? true e.2).isSome := by decide
  obtain ⟨p, hp⟩ := Option.isSome_iff_exists.mp (hfile e he)
  rw [← hconfig] at hp ⊢
  exact cached_of_kept hruns hturn (hruns.kept_iff.mpr panels_run.2.2 turn hturn) hp

/-- In production the stylesheet of the panel comes before that of its head, and in development it
comes after it. -/
theorem panels_change_places :
    (∀ e ∈ sharedConfig.compilers, e.2.scriptStrategy = .embedded ∧ e.2.cacheEnabled = true) ∧
    (sharedConfig.compilers.map (·.2.cacheFile)).Nodup ∧
    outcome (Command.loadConfig "icecube.yaml") panelStart = (.ok sharedConfig, panelStart) ∧
    outcome (compile "icecube.yaml" none) panelStart = (.ok (), panelEnd) ∧
    ¬ EndAlike (fun s s' ↦ s.registry.allStyles = s'.registry.allStyles)
      (outcome (boot "" true sharedConfig) ⟨panelEnd.files, .empty, []⟩)
      (outcome (boot "" false sharedConfig) ⟨panelEnd.files, .empty, []⟩) := by
  have hembedded : ∀ e ∈ sharedConfig.compilers,
      e.2.scriptStrategy = .embedded ∧ e.2.cacheEnabled = true := by decide
  refine ⟨hembedded, by decide, loadConfig_panels, compile_panels, fun hpages ↦ ?_⟩
  have hsound : panelStart.files.Sound := by decide +kernel
  obtain ⟨hseparate, hsources, -⟩ := panels_run
  obtain ⟨hidentifiers, hok, hstyled⟩ := sources_of_panels
  have hw := prepared_of_compile hsound loadConfig_panels compile_panels hseparate hsources
  have hsorted := cachesSorted_of_compile hsound loadConfig_panels compile_panels hseparate hsources
  have hnodup : (sharedConfig.compilers.flatMap fun e ↦ e.2.identifiers panelEnd.files).Nodup := by
    rw [List.flatMap_def, hidentifiers]
    decide
  have hstart : Alike sharedConfig panelEnd.files [] ⟨panelEnd.files, .empty, []⟩
      ⟨panelEnd.files, .empty, []⟩ := ⟨hw.since, hw.since, .empty _⟩
  have halike := boot_alike hw "" "" hstart
  rcases hproduction : outcome (boot "" true sharedConfig) ⟨panelEnd.files, .empty, []⟩ with ⟨x, s⟩
  rcases hdevelopment : outcome (boot "" false sharedConfig) ⟨panelEnd.files, .empty, []⟩ with ⟨y, s'⟩
  rw [hdevelopment] at hok hstyled
  rw [hproduction, hdevelopment] at halike hpages
  rcases halike with ⟨_, _, _, -, rfl⟩ | ⟨⟨compilers, rfl⟩, ⟨compilers', rfl⟩, halike⟩
  · cases hok
  · have hsame := samePages_of_agree hw hsorted (fun e he ↦ (hembedded e he).1) hw.since hw.since
      hproduction hdevelopment halike.registries
    rcases hpages with ⟨_, _, _, herror, -⟩ | ⟨-, -, hpages⟩
    · cases herror
    · have horder := hsame.inOrder (cached_panels hsound) hnodup hpages sharedConfig.compilers[1] (by decide)
      have hsecond : sharedConfig.compilers[1].2.identifiers panelEnd.files =
          ["a_b.Panel-Head", "a_b.Panel"] := (List.cons.inj (List.cons.inj hidentifiers).2).1
      rw [CompilerConfig.InOrder, hsecond, List.filter_eq_self.mpr hstyled] at horder
      exact absurd horder (by decide)

/-- A card and a panel have names without dots and hyphens, so their pages are the same. -/
theorem styled_pages_agree :
    (outcome (boot "" false sharedConfig) ⟨(sharedEnd "Panel.ice.py" styledText).files, .empty,
      []⟩).2.registry.allStyles ≠ "" ∧
    EndAlike (fun s s' ↦ s.registry.allStyles = s'.registry.allStyles ∧
        s.registry.bootstrapScript = s'.registry.bootstrapScript)
      (outcome (boot "" true sharedConfig)
        ⟨(sharedEnd "Panel.ice.py" styledText).files, .empty, []⟩)
      (outcome (boot "" false sharedConfig)
        ⟨(sharedEnd "Panel.ice.py" styledText).files, .empty, []⟩) := by
  obtain ⟨hc, hrun, hseparate, hsources⟩ := styled_run
  have hload := loadConfig_shared "Panel.ice.py" styledText
  have hsince := (prepared_of_compile hc hload hrun hseparate hsources).since
  have hplain : ∀ e ∈ sharedConfig.compilers,
      e.2.Plain (sharedEnd "Panel.ice.py" styledText).files := by decide +kernel
  have hpages := pages_agree_up_to_order hc hload hrun (by decide) hseparate hsources hsince hsince
    "" "" [] []
  refine ⟨by decide +kernel, hpages.mono fun s s' hsame ↦ ⟨hsame.allStyles fun e he ↦ ?_,
    hsame.bootstrapScript⟩⟩
  exact CompilerConfig.inOrder_of_plain (hplain e he) _

end Boot

end IceCube

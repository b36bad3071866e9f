import IceCube.Proofs.Boot.Production
import IceCube.Proofs.Boot.Provided
import IceCube.Proofs.Registry.Inlined

/-!
# What each configuration contributes

A boot takes the components of a configuration from its cache or compiles its sources, and registers
them behind those of the configurations before it.  The last configuration that has an identifier
gives its record.  A page then has the stylesheet of a component if the strategy of its configuration
leaves the stylesheet to the page, and also if the component was compiled in the boot itself, because
only a cache leaves out what a bundler delivers.
-/

namespace IceCube

open Step

namespace CompilerConfig

/-- A source of a configuration has compiled to a component, whatever the files were then. -/
def Compiles (c : CompilerConfig) (r : CompiledComponent) : Prop :=
  ∃ files source, (Compiler.ofConfig "" c).compiled? r.identifier files source = some r

/-- A cache lists compiled components of a configuration, with their stylesheets unless a bundler
delivers these. -/
def Caches (c : CompilerConfig) (cache : Cache) : Prop :=
  ∀ x ∈ cache.components.values, ∃ r, c.Compiles r ∧
    x = (Record.compiled r).toCached c.includesStylesInCache

theorem compiles_of_compiled? {c : CompilerConfig} {home : RegistryId} {base : String}
    {files : FileTree} {r : CompiledComponent}
    (h : (Compiler.ofConfig home c).compiled? ((Compiler.ofConfig home c).identifierOf base) files
      ((Compiler.ofConfig home c).sourceOf base) = some r) : c.Compiles r := by
  refine ⟨files, (Compiler.ofConfig home c).sourceOf base, ?_⟩
  rw [(Compiler.describes_of_compiled? h).identifier]
  exact h

/-- The listed components, in the order of the cache. -/
theorem Caches.exists_components {c : CompilerConfig} {cache : Cache} (h : c.Caches cache) :
    ∃ rs : List CompiledComponent, (∀ r ∈ rs, c.Compiles r) ∧ cache.components.values =
      rs.map fun r ↦ (Record.compiled r).toCached c.includesStylesInCache := by
  have hrange : cache.components.values ∈ Set.range (List.map fun r : {r // c.Compiles r} ↦
      (Record.compiled r.1).toCached c.includesStylesInCache) := by
    rw [Set.range_list_map]
    intro x hx
    obtain ⟨r, hr, rfl⟩ := h x hx
    exact ⟨⟨r, hr⟩, rfl⟩
  obtain ⟨rs, hrs⟩ := hrange
  refine ⟨rs.map Subtype.val, ?_, ?_⟩
  · intro r hr
    obtain ⟨x, -, rfl⟩ := List.mem_map.mp hr
    exact x.2
  · rw [← hrs, List.map_map]
    rfl

/-- The strategy that leaves the stylesheets to the pages is the one with stylesheets in the cache. -/
theorem includesStylesInCache_eq (c : CompilerConfig) :
    c.includesStylesInCache = c.scriptStrategy.deliversStyles := by
  unfold includesStylesInCache
  cases c.scriptStrategy <;> rfl

end CompilerConfig

namespace Boot

variable {home : RegistryId} {production : Bool} {e : String × CompilerConfig}
  {es : Table String CompilerConfig} {s s' t u : Workspace} {compiler : Compiler}

/-! ## One configuration -/

theorem outcome_compilerOf_eq_ok (h : outcome (compilerOf home e.2) s = (.ok compiler, t)) :
    compiler = .ofConfig home e.2 ∧ t.registry = s.registry.attach compiler := by
  rw [compilerOf] at h
  obtain ⟨_, u, hsetUp, hend⟩ := outcome_bind_eq_ok.mp h
  cases hend
  rw [Compiler.setUp] at hsetUp
  obtain ⟨_, v, hensure, hattach⟩ := outcome_bind_eq_ok.mp hsetUp
  have hregistry : v.registry = s.registry :=
    (Compiler.moves_ensureOutputs _).of_outcome hensure
  cases hattach
  exact ⟨rfl, by rw [← hregistry]⟩

/-- A configuration is started from its cache if that can be used, and from its sources if not. -/
theorem start_cases (h : outcome (start home production e.1 e.2) s = (.ok compiler, t)) :
    compiler = .ofConfig home e.2 ∧
    ∃ u, outcome (compilerOf home e.2) s = (.ok compiler, u) ∧
      ((∃ p cache log, cacheFile? production e.2 = some p ∧ Registry.Loadable u p cache ∧
        t = { u with registry := u.registry.putAll cache.components.values, log := log }) ∨
      ∃ log rs, (∀ p, cacheFile? production e.2 = some p → ∀ cache, ¬ Registry.Loadable u p cache) ∧
        outcome compiler.scan { u with log := log } = (.ok rs, t)) := by
  rw [start] at h
  obtain ⟨c, u, hcompiler, h⟩ := outcome_bind_eq_ok.mp h
  obtain ⟨hc, -⟩ := outcome_compilerOf_eq_ok hcompiler
  cases hfile : cacheFile? production e.2 with
  | none =>
    rw [hfile] at h
    obtain ⟨rs, v, hscan, hend⟩ := outcome_bind_eq_ok.mp h
    cases hend
    exact ⟨hc, u, hcompiler, .inr ⟨u.log, rs, by simp, hscan⟩⟩
  | some p =>
    rw [hfile] at h
    dsimp only at h
    by_cases hcache : ∃ cache, Registry.Loadable u p cache
    · obtain ⟨cache, hcache⟩ := hcache
      rw [outcome_bind_of_ok (Registry.outcome_loadCache_of_loadable hcache), if_pos rfl, Build.note,
        outcome_modify_bind] at h
      cases h
      exact ⟨hc, u, hcompiler, .inl ⟨p, cache, _, rfl, hcache, rfl⟩⟩
    · push Not at hcache
      obtain ⟨event, hload⟩ := Registry.outcome_loadCache_of_not_loadable hcache
      rw [outcome_bind_of_ok hload, if_neg Bool.false_ne_true, Build.note, outcome_modify_bind] at h
      obtain ⟨rs, v, hscan, hend⟩ := outcome_bind_eq_ok.mp h
      cases hend
      refine ⟨hc, u, hcompiler, .inr ⟨_, rs, ?_, hscan⟩⟩
      rintro q hq cache
      cases hq
      exact hcache cache

/-- What a configuration contributes to a registry: compiled components, as a whole where they were
compiled on the spot, and as a cache keeps them where they came from one. -/
structure Share where
  config : CompilerConfig
  components : List CompiledComponent
  fromCache : Bool
  compiled : ∀ r ∈ components, config.Compiles r

namespace Share

/-- The record of a component. -/
def record (share : Share) (r : CompiledComponent) : Record :=
  if share.fromCache then .cached ((Record.compiled r).toCached share.config.includesStylesInCache)
  else .compiled r

/-- The records under their identifiers. -/
def entries (share : Share) : List (String × Record) :=
  share.components.map fun r ↦ (r.identifier, share.record r)

/-- The page is given the stylesheet of a component. -/
def Inlines (share : Share) (r : CompiledComponent) : Prop :=
  r.compiledStyle.getD "" ≠ "" ∧
    (share.config.scriptStrategy.deliversStyles = true ∨ share.fromCache = false)

instance (share : Share) (r : CompiledComponent) : Decidable (share.Inlines r) :=
  inferInstanceAs (Decidable (_ ∧ _))

variable {share : Share} {r : CompiledComponent}

theorem componentName_record (share : Share) (r : CompiledComponent) :
    (share.record r).componentName = r.componentName := by
  unfold record
  split <;> rfl

theorem inlines_iff (share : Share) (r : CompiledComponent) :
    share.Inlines r ↔ (share.record r).compiledStyle.getD "" ≠ "" := by
  unfold Inlines record
  cases hcache : share.fromCache with
  | false => simp [Record.compiledStyle]
  | true =>
    rw [if_pos rfl, ← CompilerConfig.includesStylesInCache_eq]
    cases hstyles : share.config.includesStylesInCache <;>
      simp [Record.compiledStyle, Record.toCached]

end Share

/-- The caches that a boot comes to hold what runs over the configurations have put there: whatever
has happened to the files until it is the turn of a configuration, a cache in its cache file lists
compiled components of that configuration. -/
def FromRuns (home : RegistryId) (production : Bool) (config : Config) (s : Workspace) : Prop :=
  ∀ done e rest compilers compiler t u, config.compilers = done ++ e :: rest →
    outcome (boot home production ⟨done⟩) s = (.ok compilers, t) →
    outcome (compilerOf home e.2) t = (.ok compiler, u) →
    ∀ p, cacheFile? production e.2 = some p → ∀ cache, Cache.At u.files p cache → e.2.Caches cache

theorem production_of_cacheFile? {c : CompilerConfig} {p : Path}
    (h : cacheFile? production c = some p) : production = true := by
  unfold cacheFile? at h
  cases production with
  | true => rfl
  | false => cases h

/-- After a run the caches are what it has stored, whatever the boot has compiled before. -/
theorem fromRuns_of_prepared {config : Config} {w : FileTree} (hw : config.Prepared w)
    {files : FileTree} (hfiles : config.Since w files) (log : List Event) :
    FromRuns home production config ⟨files, .empty, log⟩ := by
  intro done e rest compilers compiler t u hsplit hboot hcompiler p hp cache hcache x hx
  obtain rfl := production_of_cacheFile? hp
  have he : e ∈ config.compilers := by simp [hsplit]
  have hdone : done ⊆ config.compilers := by simp [hsplit]
  have hstart : Alike config w [] ⟨files, .empty, log⟩ ⟨files, .empty, log⟩ :=
    ⟨hfiles, hfiles, .empty w⟩
  have halike := boot_alike_of_subset hw hdone home home hstart
  rw [hboot] at halike
  rcases halike with ⟨_, _, _, herror, -⟩ | ⟨-, -, ht⟩
  · cases herror
  · rw [outcome_compilerOf he ht.left home] at hcompiler
    cases hcompiler
    obtain ⟨rs, hrs⟩ := hw.compilers e he
    have hlists := hrs.cache p (mem_of_cacheFile? hp) cache
      (ht.left.caches e he p (mem_of_cacheFile? hp) cache hcache)
    obtain ⟨r, hr, rfl⟩ := List.mem_map.mp (hlists.mem_iff.mp hx)
    obtain ⟨k, hk⟩ := List.getElem?_of_mem hr
    obtain ⟨base, -, hcompiled⟩ := exists_getElem?_of_forall₂
      (Compiler.found_eq_some_iff.mp hrs.found).flip hk
    exact ⟨r, CompilerConfig.compiles_of_compiled? hcompiled, rfl⟩

/-- The configurations register their shares, one after the other. -/
inductive Shared (home : RegistryId) (production : Bool) :
    Table String CompilerConfig → List Share → Workspace → Workspace → Prop where
  | nil (s : Workspace) : Shared home production [] [] s s
  | cons {e : String × CompilerConfig} {es : Table String CompilerConfig} {share : Share}
      {shares : List Share} {compiler : Compiler} {s t u : Workspace}
      (hstart : outcome (start home production e.1 e.2) s = (.ok compiler, t))
      (hconfig : share.config = e.2) (hcache : share.fromCache = true → production = true)
      (hrecords : t.registry.records = Table.insertAll s.registry.records share.entries)
      (hrest : Shared home production es shares t u) :
      Shared home production (e :: es) (share :: shares) s u

/-- A configuration that is started registers its share. -/
theorem exists_share (he : e.2.Sound)
    (hcaches : ∀ compiler u, outcome (compilerOf home e.2) s = (.ok compiler, u) →
      ∀ p, cacheFile? production e.2 = some p → ∀ cache, Cache.At u.files p cache → e.2.Caches cache)
    (h : outcome (start home production e.1 e.2) s = (.ok compiler, t)) :
    ∃ share : Share, share.config = e.2 ∧ (share.fromCache = true → production = true) ∧
      t.registry.records = Table.insertAll s.registry.records share.entries := by
  obtain ⟨rfl, u, hcompiler, hcases⟩ := start_cases h
  have hrecords : u.registry.records = s.registry.records := by
    rw [(outcome_compilerOf_eq_ok hcompiler).2, Registry.records_attach]
  rcases hcases with ⟨p, cache, log, hfile, hloadable, rfl⟩ | ⟨log, rs, -, hscan⟩
  · obtain ⟨⟨text, htext, hread⟩, hversion, -⟩ := hloadable
    obtain ⟨rs, hrs, hvalues⟩ := (hcaches _ _ hcompiler p hfile cache
      (Cache.at_of_readText htext hread hversion)).exists_components
    refine ⟨⟨e.2, rs, true, hrs⟩, rfl, fun _ ↦ production_of_cacheFile? hfile, ?_⟩
    rw [Registry.putAll_eq_putEach, Registry.records_putEach, hrecords, Registry.cachedEntries,
      hvalues, List.map_map]
    rfl
  · obtain ⟨hregisters, -, -, -, v, -, -, hall⟩ :=
      Compiler.outcome_scan_eq_ok he.compiledCodeDir he.compiledAssetsDir hscan
    refine ⟨⟨e.2, rs, false, ?_⟩, rfl, by simp, ?_⟩
    · intro r hr
      obtain ⟨k, hk⟩ := List.getElem?_of_mem hr
      obtain ⟨base, -, w, -, -, hcompiled⟩ := exists_getElem?_of_forall₂ hall.flip hk
      exact CompilerConfig.compiles_of_compiled? hcompiled
    · rw [Registry.registerEach_eq_ok hregisters, Registry.records_putEach, hrecords]
      rfl

/-! ## All configurations -/

/-- A boot that ends well starts the configurations one after the other. -/
theorem outcome_boot_cons {compilers : Table String Compiler} :
    outcome (boot home production ⟨e :: es⟩) s = (.ok compilers, s') ↔
      ∃ compiler rest t, outcome (start home production e.1 e.2) s = (.ok compiler, t) ∧
        outcome (boot home production ⟨es⟩) t = (.ok rest, s') ∧
        compilers = (e.1, compiler) :: rest := by
  rw [boot, List.mapM_cons, bind_assoc]
  constructor
  · intro h
    obtain ⟨compiler, t, hstart, h⟩ := outcome_bind_eq_ok.mp h
    rw [outcome_pure_bind] at h
    obtain ⟨rest, u, hrest, hend⟩ := outcome_bind_eq_ok.mp h
    cases hend
    exact ⟨compiler, rest, t, hstart, hrest, rfl⟩
  · rintro ⟨compiler, rest, t, hstart, hrest, rfl⟩
    rw [outcome_bind_of_ok hstart, outcome_pure_bind]
    exact outcome_bind_of_ok hrest _

/-- Every configuration of a boot that ends well has its share. -/
theorem exists_shared (hes : ∀ e ∈ es, e.2.Sound)
    (hcaches : FromRuns home production ⟨es⟩ s) {compilers : Table String Compiler}
    (h : outcome (boot home production ⟨es⟩) s = (.ok compilers, s')) :
    ∃ shares, Shared home production es shares s s' := by
  induction es generalizing s compilers with
  | nil =>
    cases h
    exact ⟨[], .nil _⟩
  | cons e es ih =>
    obtain ⟨he, hes⟩ := List.forall_mem_cons.mp hes
    obtain ⟨compiler, rest, t, hstart, hrest, rfl⟩ := outcome_boot_cons.mp h
    obtain ⟨share, hconfig, hcache, hrecords⟩ := exists_share he
      (fun compiler u hcompiler ↦ hcaches [] e es [] compiler s u rfl rfl hcompiler) hstart
    -- what the caches hold when the others have their turns is known as well
    have hlater : FromRuns home production ⟨es⟩ t := by
      intro done e' rest' cs c v w hsplit hdone
      exact hcaches (e :: done) e' rest' _ c v w (congrArg (e :: ·) hsplit)
        (outcome_boot_cons.mpr ⟨compiler, cs, t, hstart, hdone, rfl⟩)
    obtain ⟨shares, hshares⟩ := ih hes hlater hrest
    exact ⟨share :: shares, .cons hstart hconfig hcache hrecords hshares⟩

/-- Every identifier of a registry that a boot has filled owns its name. -/
theorem coherent_of_boot {config : Config} {x : Except Error (Table String Compiler)}
    (hempty : s.registry = .empty) (h : outcome (boot home production config) s = (x, s')) :
    s'.registry.Coherent := by
  refine (keeps_boot Registry.coherent_lasting.toKept home production config).of_outcome h ?_
  show s.registry.Coherent
  rw [hempty]
  exact .empty

/-- The shares make up the registry. -/
theorem Shared.records {shares : List Share} (h : Shared home production es shares s s') :
    s'.registry.records = Table.insertAll s.registry.records (shares.flatMap Share.entries) := by
  induction h with
  | nil s => rfl
  | cons _ _ _ hrecords _ ih =>
    rw [ih, hrecords, List.flatMap_cons, Table.insertAll, Table.insertAll, Table.insertAll,
      List.foldl_append]

/-- The last share that has an identifier gives its record. -/
theorem exists_share_of_get? {shares : List Share} {i : String} {record : Record}
    (h : Table.get? (shares.flatMap Share.entries).reverse i = some record) :
    ∃ before share after, shares = before ++ share :: after ∧
      (∀ later ∈ after, i ∉ Table.keys later.entries) ∧ (i, record) ∈ share.entries := by
  induction shares using List.reverseRecOn with
  | nil => cases h
  | append_singleton shares share ih =>
    rw [List.flatMap_append, List.flatMap_singleton, List.reverse_append, Table.get?_append] at h
    cases hlast : Table.get? share.entries.reverse i with
    | some last =>
      rw [hlast, Option.some_or, Option.some.injEq] at h
      subst h
      exact ⟨shares, share, [], rfl, List.forall_mem_nil _,
        List.mem_reverse.mp (Table.mem_of_get? hlast)⟩
    | none =>
      rw [hlast, Option.none_or] at h
      obtain ⟨before, other, after, rfl, hafter, hmem⟩ := ih h
      have hshare : i ∉ Table.keys share.entries := by
        rw [Table.get?_eq_none_iff, Table.keys, List.map_reverse, List.mem_reverse] at hlast
        exact hlast
      refine ⟨before, other, after ++ [share], by simp, ?_, hmem⟩
      rw [List.forall_mem_append, List.forall_mem_singleton]
      exact ⟨hafter, hshare⟩

/-- Which stylesheets a page has after a boot.  The record of an identifier comes from the share of
the last configuration that has it.  The page has one style element for its component if that has
a stylesheet and the strategy of the configuration leaves it to the page, but also if it does not and
the component was compiled in the boot; and it has none otherwise. -/
theorem boot_inlines_shares {config : Config} (hconfig : ∀ e ∈ config.compilers, e.2.Sound)
    (hempty : s.registry = .empty) (hcaches : FromRuns home production config s)
    {compilers : Table String Compiler}
    (hboot : outcome (boot home production config) s = (.ok compilers, s')) :
    ∃ shares, Shared home production config.compilers shares s s' ∧
      ∀ i record, s'.registry.get? i = some record →
        ∃ before share after, shares = before ++ share :: after ∧
          (∀ later ∈ after, i ∉ Table.keys later.entries) ∧
          ∃ r ∈ share.components, r.identifier = i ∧ record = share.record r ∧
            s'.registry.inlined r.componentName = if share.Inlines r then 1 else 0 := by
  obtain ⟨shares, hshares⟩ := exists_shared hconfig hcaches hboot
  have hcoherent := coherent_of_boot hempty hboot
  refine ⟨shares, hshares, fun i record hi ↦ ?_⟩
  have hget : Table.get? (shares.flatMap Share.entries).reverse i = some record := by
    rw [Registry.get?, hshares.records, hempty, Table.get?_insertAll] at hi
    simpa [Registry.empty] using hi
  obtain ⟨before, share, after, hsplit, hafter, hmem⟩ := exists_share_of_get? hget
  obtain ⟨r, hr, heq⟩ := List.mem_map.mp hmem
  cases heq
  refine ⟨before, share, after, hsplit, hafter, r, hr, rfl, rfl, ?_⟩
  have hinlined := hcoherent.inlined_eq hi
  rw [share.componentName_record] at hinlined
  rw [hinlined]
  by_cases hstyle : share.Inlines r
  · rw [if_pos hstyle, if_neg ((share.inlines_iff r).mp hstyle)]
  · rw [if_neg hstyle, if_pos (not_not.mp (mt (share.inlines_iff r).mpr hstyle))]

/-! ## Stylesheets of a bundler -/

open Command

/-- A configuration whose stylesheets a bundler delivers. -/
def bundledConfig : Config where
  compilers := [("kit", ⟨"app", ⟨.slash, ["ui"]⟩, ⟨.slash, ["out"]⟩, ⟨.slash, ["out"]⟩, "u",
    .externalBundler, .scopingOnly, false, none⟩)]

/-- A source with a stylesheet. -/
def styledText : String := "<style>.a\x7b\x7d</style>"

/-- A card with a stylesheet. -/
def bundledFiles : FileTree where
  nodes := [([], .directory FileTree.parentMode), (["ui"], .directory FileTree.parentMode),
    (["ui", "Card.ice.py"], .file (Utf8.encode styledText) FileTree.fileMode 0)]
  current := []
  clock := 1

/-- The card is registered in development. -/
def bundledEnd : Workspace := (outcome (boot "" false bundledConfig) ⟨bundledFiles, .empty, []⟩).2

/-- The bundler delivers the stylesheet of the card, and the page has it as well. -/
theorem bundled_stylesheet_is_inlined :
    bundledConfig.compilers.map (·.2.scriptStrategy.deliversStyles) = [false] ∧
    (∃ compilers, outcome (boot "" false bundledConfig) ⟨bundledFiles, .empty, []⟩ =
      (.ok compilers, bundledEnd)) ∧
    bundledEnd.registry.inlined "app_Card" = 1 := by
  have hok : (outcome (boot "" false bundledConfig) ⟨bundledFiles, .empty, []⟩).1.toOption.isSome =
      true := by decide +kernel
  obtain ⟨compilers, hboot⟩ := Option.isSome_iff_exists.mp hok
  exact ⟨rfl, ⟨compilers, Prod.ext (toOption_eq_some_iff.mp hboot) rfl⟩, by decide +kernel⟩

/-- A run over a card without a stylesheet and a panel with one. -/
theorem styled_run :
    (sharedConsole "Panel.ice.py" styledText).files.Sound ∧
    outcome (compile "icecube.yaml" none) (sharedConsole "Panel.ice.py" styledText) =
      (.ok (), sharedEnd "Panel.ice.py" styledText) ∧
    sharedConfig.Separate (sharedConsole "Panel.ice.py" styledText).files ∧
    ∀ e ∈ sharedConfig.compilers, FileTree.SameSources e.2.sourceDir
      (sharedConsole "Panel.ice.py" styledText).files (sharedEnd "Panel.ice.py" styledText).files :=
  ⟨by decide +kernel, compile_shared (by decide +kernel),
    .of_places (by decide +kernel) (by decide +kernel) (by decide +kernel),
    sameSources_shared (by decide +kernel)⟩

/-- In production the panel comes from its cache, and a page has its stylesheet. -/
theorem panel_is_inlined_from_cache :
    ∃ compilers s', outcome (boot "" true sharedConfig)
        ⟨(sharedEnd "Panel.ice.py" styledText).files, .empty, []⟩ = (.ok compilers, s') ∧
      (s'.registry.get? "a_b.Panel").isSome = true ∧
      ∃ shares, Shared "" true sharedConfig.compilers shares
          ⟨(sharedEnd "Panel.ice.py" styledText).files, .empty, []⟩ s' ∧
        ∀ i record, s'.registry.get? i = some record →
          ∃ (before : List Share) (share : Share) (after : List Share),
            shares = before ++ share :: after ∧ (∀ later ∈ after, i ∉ Table.keys later.entries) ∧
            ∃ r ∈ share.components, r.identifier = i ∧ record = share.record r ∧
              s'.registry.inlined r.componentName = if share.Inlines r then 1 else 0 := by
  obtain ⟨hc, hrun, hseparate, hsources⟩ := styled_run
  have hprepared := prepared_of_compile hc (loadConfig_shared _ _) hrun hseparate hsources
  have hconfig : ∀ e ∈ sharedConfig.compilers, e.2.Sound := fun e he ↦
    (hprepared.compilers e he).elim fun rs hrs ↦ hrs.config
  have hruns : FromRuns "" true sharedConfig
      ⟨(sharedEnd "Panel.ice.py" styledText).files, .empty, []⟩ :=
    fromRuns_of_prepared hprepared hprepared.since []
  -- the boot from the sources shows how the other one ends
  have hdevelopment : ((outcome (boot "" false sharedConfig)
      ⟨(sharedEnd "Panel.ice.py" styledText).files, .empty, []⟩).1.toOption.isSome,
      ((outcome (boot "" false sharedConfig)
        ⟨(sharedEnd "Panel.ice.py" styledText).files, .empty, []⟩).2.registry.get?
          "a_b.Panel").isSome) = (true, true) := by decide +kernel
  obtain ⟨hok, hpanel⟩ := Prod.mk.injEq .. ▸ hdevelopment
  have hstart : Alike sharedConfig (sharedEnd "Panel.ice.py" styledText).files []
      ⟨(sharedEnd "Panel.ice.py" styledText).files, .empty, []⟩
      ⟨(sharedEnd "Panel.ice.py" styledText).files, .empty, []⟩ :=
    ⟨hprepared.since, hprepared.since, .empty _⟩
  have halike := boot_alike hprepared "" "" hstart
  rcases hboot : outcome (boot "" true sharedConfig)
    ⟨(sharedEnd "Panel.ice.py" styledText).files, .empty, []⟩ with ⟨x, s'⟩
  rw [hboot] at halike
  rcases halike with ⟨name, i, j, -, herror⟩ | ⟨⟨compilers, rfl⟩, -, halike⟩
  · rw [herror] at hok
    cases hok
  · rw [← halike.registries.isSome_get?] at hpanel
    exact ⟨compilers, s', rfl, hpanel, boot_inlines_shares hconfig rfl hruns hboot⟩

end Boot

end IceCube

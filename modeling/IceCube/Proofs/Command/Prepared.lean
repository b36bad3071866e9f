import IceCube.Proofs.Command.Apart
import IceCube.Proofs.Compiler.Sources

/-!
# What a run prepares

After a run over all configurations each of them has its directories and can write its compiled files
again.  A cache file may have been written to after the cache was stored, but if it holds a cache, that
lists what the sources compile to, as long as nothing else that is a cache is written to its place and
nothing is written into the source directories.
-/

namespace IceCube

open Step

namespace CompilerConfig

variable {c : CompilerConfig} {t u : FileTree}

/-- Where the compiled files and the cache of a configuration go. -/
def outputPaths (c : CompilerConfig) : List Path :=
  c.compiledCodeDir :: c.compiledAssetsDir :: c.cacheFile.toList

/-- The identifiers of the sources of a configuration. -/
def identifiers (c : CompilerConfig) (files : FileTree) : List String :=
  (Compiler.sourceNames files c.sourceDir).map (Compiler.ofConfig "" c).identifierOf

/-- The compiled files of the sources of a configuration. -/
def artifacts (c : CompilerConfig) (files : FileTree) : List Path :=
  (c.identifiers files).flatMap fun i ↦
    ((Compiler.ofConfig "" c).outputs (Identifier.flatten i)).paths

/-- What is compiled for components, and where it goes. -/
def writes (c : CompilerConfig) (rs : List CompiledComponent) (files : FileTree) :
    List (Location × Bytes) :=
  rs.flatMap fun r ↦ ((Compiler.ofConfig "" c).outputs r.componentName).writes r files

/-- Two configurations have no cache file at one place. -/
def CachesApart (files : FileTree) (a b : CompilerConfig) : Prop :=
  ∀ p ∈ a.cacheFile, ∀ q ∈ b.cacheFile, files.place p ≠ files.place q

instance (files : FileTree) (a b : CompilerConfig) : Decidable (CachesApart files a b) :=
  inferInstanceAs (Decidable (∀ p ∈ a.cacheFile, ∀ q ∈ b.cacheFile, files.place p ≠ files.place q))

instance {α : Type} (files : FileTree) (f : α → CompilerConfig) :
    Std.Symm fun a b ↦ CachesApart files (f a) (f b) where
  symm _ _ h p hp q hq := (h q hq p hp).symm

/-- Components that are found have the identifiers of the sources. -/
theorem identifiers_of_found {rs : List CompiledComponent}
    (h : (Compiler.ofConfig "" c).found t = some rs) : rs.map (·.identifier) = c.identifiers t :=
  Compiler.identifiers_of_found h

/-- The compiled files of found components. -/
theorem mem_artifacts_iff_of_found {rs : List CompiledComponent}
    (h : (Compiler.ofConfig "" c).found t = some rs) {p : Path} :
    p ∈ c.artifacts t ↔ ∃ r ∈ rs, p ∈ ((Compiler.ofConfig "" c).outputs r.componentName).paths := by
  have hnames : ∀ r ∈ rs, r.componentName = Identifier.flatten r.identifier := fun r hr ↦
    (Compiler.describes_of_found h r hr).componentName
  rw [artifacts, ← identifiers_of_found h, List.mem_flatMap]
  constructor
  · rintro ⟨i, hi, hp⟩
    obtain ⟨r, hr, rfl⟩ := List.mem_map.mp hi
    exact ⟨r, hr, by rwa [hnames r hr]⟩
  · rintro ⟨r, hr, hp⟩
    exact ⟨r.identifier, List.mem_map_of_mem hr, by rwa [← hnames r hr]⟩

end CompilerConfig

/-- A content is a cache of the present version. -/
def Cache.In (content : Bytes) (cache : Cache) : Prop :=
  ∃ text, Utf8.decode content = some text ∧ Cache.read (Text.unify text) = .good cache ∧
    cache.version = Cache.formatVersion

/-- A file holds a cache of the present version. -/
def Cache.At (t : FileTree) (p : Path) (cache : Cache) : Prop :=
  ∃ content, t.read p = .ok content ∧ cache.In content

theorem Cache.at_of_readText {t : FileTree} {p : Path} {text : String} {cache : Cache}
    (htext : Config.readText t p = .ok text) (hread : Cache.read text = .good cache)
    (hversion : cache.version = Cache.formatVersion) : Cache.At t p cache := by
  obtain ⟨content, s, hcontent, hs, rfl⟩ := Config.readText_eq_ok_iff.mp htext
  exact ⟨content, hcontent, s, hs, hread, hversion⟩

theorem Cache.At.reads {t : FileTree} {p : Path} {cache : Cache} (h : Cache.At t p cache) :
    (∃ text, Config.readText t p = .ok text ∧ Cache.read text = .good cache) ∧
      cache.version = Cache.formatVersion := by
  obtain ⟨content, hcontent, text, htext, hread, hversion⟩ := h
  exact ⟨⟨_, Config.readText_eq_ok_iff.mpr ⟨content, text, hcontent, htext, rfl⟩, hread⟩, hversion⟩

theorem Cache.At.unique {t : FileTree} {p : Path} {a b : Cache} (ha : Cache.At t p a)
    (hb : Cache.At t p b) : a = b := by
  obtain ⟨content, hcontent, text, htext, ha, -⟩ := ha
  obtain ⟨content', hcontent', text', htext', hb, -⟩ := hb
  rw [hcontent] at hcontent'
  cases hcontent'
  rw [htext] at htext'
  cases htext'
  rw [ha] at hb
  cases hb
  rfl

/-- No configuration has an output in a source directory, no two have a cache file at one place, and
nothing that is compiled for the place of a cache file is a cache itself. -/
structure Config.Separate (config : Config) (files : FileTree) : Prop where
  sources : ∀ e ∈ config.compilers, ∀ e' ∈ config.compilers, ∀ p ∈ e'.2.outputPaths,
    ¬ files.place e.2.sourceDir <+: files.place p
  caches : config.compilers.Pairwise fun e e' ↦ CompilerConfig.CachesApart files e.2 e'.2
  compiled : ∀ e ∈ config.compilers, ∀ p ∈ e.2.cacheFile, ∀ e' ∈ config.compilers, ∀ rs,
    (Compiler.ofConfig "" e'.2).found files = some rs → ∀ x ∈ e'.2.writes rs files,
      x.1 = files.place p → ∀ cache : Cache, ¬ cache.In x.2

/-- It is enough that no compiled file goes to the place of a cache file. -/
theorem Config.Separate.of_places {config : Config} {files : FileTree}
    (hsources : ∀ e ∈ config.compilers, ∀ e' ∈ config.compilers, ∀ p ∈ e'.2.outputPaths,
      ¬ files.place e.2.sourceDir <+: files.place p)
    (hcaches : config.compilers.Pairwise fun e e' ↦ CompilerConfig.CachesApart files e.2 e'.2)
    (hplaces : ∀ e ∈ config.compilers, ∀ p ∈ e.2.cacheFile, ∀ e' ∈ config.compilers,
      ∀ q ∈ e'.2.artifacts files, files.place q ≠ files.place p) : config.Separate files where
  sources := hsources
  caches := hcaches
  compiled := by
    intro e he p hp e' he' rs hfound x hx hplace
    obtain ⟨r, hr, hx⟩ := List.mem_flatMap.mp hx
    have hxplace := List.mem_map_of_mem (f := Prod.fst) hx
    rw [Compiler.Outputs.map_fst_writes] at hxplace
    obtain ⟨q, hq, hqx⟩ := List.mem_map.mp hxplace
    exact absurd (hqx.trans hplace) (hplaces e he p hp e' he' q
      ((CompilerConfig.mem_artifacts_iff_of_found hfound).mpr ⟨r, hr, hq⟩))

/-- A configuration whose sources compile to given components has its directories, no directory is
where one of its compiled files goes, and a cache that can be used lists the components. -/
structure CompilerConfig.Prepared (c : CompilerConfig) (rs : List CompiledComponent)
    (t : FileTree) : Prop where
  config : c.Sound
  found : (Compiler.ofConfig "" c).found t = some rs
  nodup : (rs.map (·.componentName)).Nodup
  codeDir : t.isDirectory c.compiledCodeDir = true
  assetsDir : t.isDirectory c.compiledAssetsDir = true
  artifacts : ∀ p ∈ c.artifacts t, ∀ mode, t.at? (t.place p) ≠ some (.directory mode)
  cache : ∀ p ∈ c.cacheFile, ∀ cache, Cache.At t p cache →
    cache.components.values.Perm (rs.map fun r ↦
      (Record.compiled r).toCached c.includesStylesInCache)

namespace Command

variable {config : Config} {ts : List Turn} {t : Turn} {u v w : FileTree}

/-- A turn writes into its directories for output or to its cache file. -/
theorem Turn.Ran.exists_of_touches (h : t.Ran u v) {l : Location} (hl : t.Touches u l) :
    (∃ n, l = u.place t.config.compiledCodeDir ++ [n] ∨
      l = u.place t.config.compiledAssetsDir ++ [n]) ∨
    ∃ p ∈ t.config.cacheFile, l = u.place p := by
  obtain ⟨m, hscanned, -⟩ := h.steps
  obtain ⟨x, hx, rfl⟩ := List.mem_map.mp hl
  rcases List.mem_append.mp hx with hx | hx
  · obtain ⟨r, hr, hx⟩ := List.mem_flatMap.mp hx
    obtain ⟨hslash, hdescribes⟩ := hscanned.describes r hr
    have hname : Path.IsName r.componentName := by
      rw [hdescribes.componentName]
      exact Identifier.isName_flatten hdescribes.nonempty hslash
    have hplace := List.mem_map_of_mem (f := Prod.fst) hx
    rw [Compiler.Outputs.map_fst_writes] at hplace
    obtain ⟨s, -, hplaces, -⟩ := Compiler.exists_of_mem_places hname hplace
    exact .inl ⟨_, hplaces⟩
  · obtain ⟨p, hp, rfl⟩ := Option.map_eq_some_iff.mp (Option.mem_toList.mp hx)
    exact .inr ⟨p, hp, rfl⟩

/-- The configurations of turns are those that are run over. -/
theorem exists_of_turn (hconfigs : ts.map (·.config) = config.compilers.map (·.2)) (ht : t ∈ ts) :
    ∃ e ∈ config.compilers, e.2 = t.config := by
  have hmem := List.mem_map_of_mem (f := Turn.config) ht
  rw [hconfigs] at hmem
  exact List.mem_map.mp hmem

/-- Every configuration has its turn. -/
theorem exists_turn (hconfigs : ts.map (·.config) = config.compilers.map (·.2))
    {e : String × CompilerConfig} (he : e ∈ config.compilers) : ∃ t ∈ ts, t.config = e.2 := by
  have hmem := List.mem_map_of_mem (f := fun e : String × CompilerConfig ↦ e.2) he
  rw [← hconfigs] at hmem
  exact List.mem_map.mp hmem

/-- No turn writes into a source directory. -/
theorem Runs.not_touches (h : Runs ts u w)
    (hconfigs : ts.map (·.config) = config.compilers.map (·.2)) (hseparate : config.Separate u)
    {e : String × CompilerConfig} (he : e ∈ config.compilers) (n : String) :
    ¬ ∃ t ∈ ts, t.Touches u (u.place e.2.sourceDir ++ [n]) := by
  rintro ⟨t, ht, hl⟩
  obtain ⟨e', he', hconfig⟩ := exists_of_turn hconfigs ht
  obtain ⟨m, m', hm, hran, -⟩ := h.exists_ran ht
  rw [Turn.Touches, ← Turn.writes_of_grows hm] at hl
  have hsources := hseparate.sources e he e' he'
  rw [hconfig] at hsources
  rcases hran.exists_of_touches hl with ⟨n', hplace | hplace⟩ | ⟨p, hp, hplace⟩
  · rw [hm.place] at hplace
    refine hsources t.config.compiledCodeDir (by simp [CompilerConfig.outputPaths]) ?_
    rw [(List.append_inj' hplace rfl).1]
  · rw [hm.place] at hplace
    refine hsources t.config.compiledAssetsDir (by simp [CompilerConfig.outputPaths]) ?_
    rw [(List.append_inj' hplace rfl).1]
  · rw [hm.place] at hplace
    refine hsources p (by simp [CompilerConfig.outputPaths, Option.mem_def.mp hp]) ?_
    rw [← hplace]
    exact List.prefix_append _ _

section Prepared

variable (hu : u.Sound) (h : Runs ts u w)
  (hconfigs : ts.map (·.config) = config.compilers.map (·.2)) (hseparate : config.Separate u)
  (hsources : ∀ e ∈ config.compilers, FileTree.SameSources e.2.sourceDir u w)
include hu h hconfigs hseparate hsources

/-- Every turn compiles what is found before the run. -/
theorem Runs.found (ht : t ∈ ts) : t.compiler.found u = some t.compiled := by
  obtain ⟨e, he, hconfig⟩ := exists_of_turn hconfigs ht
  obtain ⟨m, m', hm, hran, hm'⟩ := h.exists_ran ht
  obtain ⟨x, hscanned, hscan, hstore, -⟩ := hran.exists_scanned
  have htouches : ∀ l, t.Touches m l → ∃ t ∈ ts, t.Touches u l := by
    intro l hl
    rw [Turn.Touches, Turn.writes_of_grows hm] at hl
    exact ⟨t, ht, hl⟩
  have hO := h.not_touches hconfigs hseparate he
  have hux := hm.trans (hscan.mono htouches)
  have hxw := (hstore.mono htouches).trans hm'
  -- the sources are the same before the run, at the beginning of the scan and at its end
  have hsame := hsources e he
  have hbefore := hm.sameSources ((hscan.mono htouches).trans hxw) hO hsame
  have hafter := hux.sameSources hxw hO hsame
  rw [hconfig] at hbefore hafter hO
  refine Compiler.found_of_sameSources (hm.sound hu) hu hbefore.symm
    (hscanned.found (hm.sound hu) (fun n hn ↦ ?_) (hbefore.symm.trans hafter))
  obtain ⟨r, hr, hplace⟩ := hn
  rw [← Compiler.Outputs.map_fst_writes _ r] at hplace
  obtain ⟨y, hy, hy'⟩ := List.mem_map.mp hplace
  refine hO n (htouches _ (List.mem_map.mpr ⟨y, ?_, by rw [hy', hm.place]; rfl⟩))
  exact List.mem_append_left _ (List.mem_flatMap.mpr ⟨r, hr, hy⟩)

/-- If there is a cache in the cache file of a turn at the end of the run, the turn has stored it. -/
theorem Runs.read_cache (ht : t ∈ ts) {p : Path} (hp : p ∈ t.config.cacheFile) {content : Bytes}
    (hread : w.read p = .ok content) {cache : Cache} (hcache : cache.In content) :
    content = Utf8.encode t.cacheText := by
  obtain ⟨e, he, hconfig⟩ := exists_of_turn hconfigs ht
  have hcaches : ts.Pairwise fun t t' ↦ CompilerConfig.CachesApart u t.config t'.config := by
    have hpairwise : (config.compilers.map (·.2)).Pairwise (CompilerConfig.CachesApart u) :=
      List.pairwise_map.mpr hseparate.caches
    rw [← hconfigs] at hpairwise
    exact List.pairwise_map.mp hpairwise
  have hmem : (u.place p, Utf8.encode t.cacheText) ∈ ts.flatMap (·.writes u) :=
    List.mem_flatMap.mpr ⟨t, ht, List.mem_append_right _ (by simp [Option.mem_def.mp hp])⟩
  obtain ⟨⟨l, written⟩, hx, rfl, hholds⟩ := h.exists_holds hmem
  have hcontent := FileTree.holds_of_read hread
  rw [h.grows.place] at hcontent
  rw [hcontent.unique hholds] at hcache ⊢
  obtain ⟨t', ht', hx⟩ := List.mem_flatMap.mp hx
  rcases List.mem_append.mp hx with hx | hx
  · -- what is compiled for the place is no cache
    obtain ⟨e', he', hconfig'⟩ := exists_of_turn hconfigs ht'
    have hfound := Runs.found hu h hconfigs hseparate hsources ht'
    rw [Turn.compiler, ← hconfig'] at hfound
    rw [← hconfig] at hp
    have hwritten : (u.place p, written) ∈ e'.2.writes t'.compiled u := by
      rw [hconfig']
      exact hx
    exact absurd hcache (hseparate.compiled e he p hp e' he' _ hfound _ hwritten rfl cache)
  · -- and other caches are elsewhere
    obtain ⟨p', hp', hx⟩ := Option.map_eq_some_iff.mp (Option.mem_toList.mp hx)
    obtain ⟨hplace, rfl⟩ := Prod.mk.injEq .. ▸ hx
    have hsame : t' = t := by
      by_contra hne
      exact hcaches.forall ht' ht hne p' hp' p hp hplace
    rw [hsame]

/-- Then it is the cache of the registry that the turn has filled. -/
theorem Runs.eq_toCache (ht : t ∈ ts) {p : Path} (hp : p ∈ t.config.cacheFile) {cache : Cache}
    (hcache : Cache.At w p cache) :
    cache = t.registry.toCache t.config.includesStylesInCache := by
  obtain ⟨m, m', -, hran, -⟩ := h.exists_ran ht
  obtain ⟨content, hread, hin⟩ := id hcache
  rw [Runs.read_cache hu h hconfigs hseparate hsources ht hp hread hin] at hread
  obtain ⟨text, htext, hgood⟩ := hran.reads_toCache hread
  exact hcache.unique (Cache.at_of_readText htext hgood rfl)

/-- A run leaves every configuration prepared. -/
theorem Runs.prepared (ht : t ∈ ts) : t.config.Prepared t.compiled w := by
  obtain ⟨e, he, hconfig⟩ := exists_of_turn hconfigs ht
  obtain ⟨m, m', hm, hran, hm'⟩ := h.exists_ran ht
  obtain ⟨x, hscanned, -, hstore, -⟩ := hran.exists_scanned
  have hgrows : FileTree.Grows (fun _ ↦ True) x w :=
    (hstore.mono fun _ _ ↦ trivial).trans (hm'.mono fun _ _ ↦ trivial)
  have hsame := hsources e he
  rw [hconfig] at hsame
  have hfound : (Compiler.ofConfig "" t.config).found w = some t.compiled :=
    Compiler.found_of_sameSources hu (h.grows.sound hu) hsame
      (Runs.found hu h hconfigs hseparate hsources ht)
  exact {
    config := hran.config
    found := hfound
    nodup := hscanned.nodup_componentNames
    codeDir := hgrows.isDirectory hscanned.codeDir
    assetsDir := hgrows.isDirectory hscanned.assetsDir
    artifacts := by
      intro p hp mode
      obtain ⟨r, hr, hp⟩ := (CompilerConfig.mem_artifacts_iff_of_found hfound).mp hp
      have hfile := hgrows.isFile ((hscanned.hold r hr).isFile p hp)
      exact (FileTree.writable_of_isFile hfile).free mode
    cache := by
      intro p hp cache hcache
      rw [Runs.eq_toCache hu h hconfigs hseparate hsources ht hp hcache]
      have hvalues := hran.toCache_perm.map Prod.snd
      rwa [List.map_map] at hvalues }

end Prepared

end Command

end IceCube

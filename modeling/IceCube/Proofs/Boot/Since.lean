import IceCube.Boot
import IceCube.Proofs.Command.Prepared

/-!
# Booting some time after a run

Between a run over configurations and a boot nothing happens to the sources.  A cache file may be left
alone, deleted or replaced by something that is no cache of the present version, and compiled files
may be deleted or get other contents.  A boot itself does no more than that, so another one can follow
it.  A scan in such a time finds what the run has found, and nothing but a name can be in its way.
-/

namespace IceCube

open Step

/-- What may have happened after a run that has left some files: the sources are the same, the
directories are there, no directory is where a compiled file goes, and a cache file that can be used
is what it was. -/
structure Config.Since (config : Config) (w t : FileTree) : Prop where
  sound : t.Sound
  current : t.current = w.current
  sources : ∀ e ∈ config.compilers, FileTree.SameSources e.2.sourceDir w t
  directories : ∀ e ∈ config.compilers, t.isDirectory e.2.compiledCodeDir = true ∧
    t.isDirectory e.2.compiledAssetsDir = true
  artifacts : ∀ e ∈ config.compilers, ∀ p ∈ e.2.artifacts w, ∀ mode,
    t.at? (w.place p) ≠ some (.directory mode)
  caches : ∀ e ∈ config.compilers, ∀ p ∈ e.2.cacheFile, ∀ cache, Cache.At t p cache →
    Cache.At w p cache

/-- All configurations are prepared, with an output of none of them in the way of another. -/
structure Config.Prepared (config : Config) (w : FileTree) : Prop where
  sound : w.Sound
  separate : config.Separate w
  compilers : ∀ e ∈ config.compilers, ∃ rs, e.2.Prepared rs w

namespace CompilerConfig

variable {c : CompilerConfig} {w : FileTree} {i : String}

/-- The name of a component of a configuration can be that of a file. -/
theorem isName_of_mem_identifiers (hc : c.Sound) (hw : w.Sound) (hi : i ∈ c.identifiers w) :
    Path.IsName (Identifier.flatten i) := by
  obtain ⟨base, hbase, rfl⟩ := List.mem_map.mp hi
  exact Identifier.isName_flatten (Compiler.identifierOf_ne_empty _ _)
    (Compiler.slash_not_mem_identifierOf (hc.slash_not_mem "")
      (Compiler.slash_not_mem_sourceNames hw hbase))

/-- A compiled file is in one of the directories for output. -/
theorem exists_of_mem_artifacts (hc : c.Sound) (hw : w.Sound) {p : Path} (hp : p ∈ c.artifacts w) :
    ∃ n, n ≠ ".." ∧ (p = c.compiledCodeDir.child n ∨ p = c.compiledAssetsDir.child n) := by
  obtain ⟨i, hi, hp⟩ := List.mem_flatMap.mp hp
  have hname := isName_of_mem_identifiers hc hw hi
  rw [Compiler.outputs_of_isName hname] at hp
  simp only [Compiler.Outputs.paths, List.mem_cons, List.not_mem_nil, or_false] at hp
  rcases hp with rfl | rfl | rfl
  · exact ⟨_, (Compiler.isName_append hname (show ".py" ∈ Compiler.suffixes by decide)).2, .inl rfl⟩
  · exact ⟨_, (Compiler.isName_append hname (show ".js" ∈ Compiler.suffixes by decide)).2, .inr rfl⟩
  · exact ⟨_, (Compiler.isName_append hname (show ".css" ∈ Compiler.suffixes by decide)).2, .inr rfl⟩

end CompilerConfig

namespace Config

variable {config : Config} {w t u : FileTree} {e : String × CompilerConfig}

theorem Since.place (h : config.Since w t) (p : Path) : t.place p = w.place p := by
  simp only [FileTree.place, h.current]

/-- Files outside the source directories may change as long as no cache comes up. -/
theorem Since.sameBut {O : Location → Prop} (h : config.Since w t) (hu : u.Sound)
    (hsame : FileTree.SameBut O t u)
    (hsources : ∀ e ∈ config.compilers, ∀ n, ¬ O (w.place e.2.sourceDir ++ [n]))
    (hcaches : ∀ e ∈ config.compilers, ∀ p ∈ e.2.cacheFile, O (w.place p) → ∀ cache,
      Cache.At u p cache → Cache.At w p cache) : config.Since w u where
  sound := hu
  current := hsame.current.trans h.current
  sources e he := (h.sources e he).trans (hsame.sameSources fun n ↦ by
    rw [h.place]
    exact hsources e he n)
  directories e he := by
    rw [hsame.isDirectory, hsame.isDirectory]
    exact h.directories e he
  artifacts e he p hp mode := by
    rw [ne_eq, hsame.at?_eq_directory_iff]
    exact h.artifacts e he p hp mode
  caches := by
    rintro e he p hp cache hcache
    by_cases hO : O (w.place p)
    · exact hcaches e he p hp hO cache hcache
    · obtain ⟨content, hread, hin⟩ := hcache
      rw [hsame.read_eq_ok_iff (by rwa [h.place])] at hread
      exact h.caches e he p hp cache ⟨content, hread, hin⟩

section Prepared

variable (hw : config.Prepared w)
include hw

/-- No compiled file is in a source directory. -/
theorem Prepared.place_ne_of_mem_artifacts (he : e ∈ config.compilers) {e' : String × CompilerConfig}
    (he' : e' ∈ config.compilers) {p : Path} (hp : p ∈ e'.2.artifacts w) (n : String) :
    w.place p ≠ w.place e.2.sourceDir ++ [n] := by
  obtain ⟨rs, hprepared⟩ := hw.compilers e' he'
  have hsources := hw.separate.sources e he e' he'
  obtain ⟨n', hn', rfl | rfl⟩ := CompilerConfig.exists_of_mem_artifacts hprepared.config hw.sound hp
  · rw [w.place_child _ hn']
    intro hplace
    refine hsources e'.2.compiledCodeDir (by simp [CompilerConfig.outputPaths]) ?_
    rw [(List.append_inj' hplace rfl).1]
  · rw [w.place_child _ hn']
    intro hplace
    refine hsources e'.2.compiledAssetsDir (by simp [CompilerConfig.outputPaths]) ?_
    rw [(List.append_inj' hplace rfl).1]

/-- Nothing has to happen after a run. -/
theorem Prepared.since : config.Since w w where
  sound := hw.sound
  current := rfl
  sources _ _ := .refl _ _
  directories e he := by
    obtain ⟨rs, hprepared⟩ := hw.compilers e he
    exact ⟨hprepared.codeDir, hprepared.assetsDir⟩
  artifacts e he := by
    obtain ⟨rs, hprepared⟩ := hw.compilers e he
    exact hprepared.artifacts
  caches _ _ _ _ _ := id

/-- Where the files of a component are written there is no cache. -/
theorem Prepared.not_at_of_hold (he : e ∈ config.compilers) {rs : List CompiledComponent}
    (hrs : e.2.Prepared rs w) {r : CompiledComponent} (hr : r ∈ rs)
    (hcurrent : u.current = w.current)
    (hhold : ((Compiler.ofConfig "" e.2).outputs r.componentName).Hold r u)
    {e' : String × CompilerConfig} (he' : e' ∈ config.compilers) {p : Path} (hp : p ∈ e'.2.cacheFile)
    (hplace : w.place p ∈ ((Compiler.ofConfig "" e.2).outputs r.componentName).places w)
    (cache : Cache) : ¬ Cache.At u p cache := by
  rintro ⟨content, hread, hcache⟩
  have hplaces : ∀ p, u.place p = w.place p := fun p ↦ by simp only [FileTree.place, hcurrent]
  rw [← Compiler.Outputs.map_fst_writes _ r] at hplace
  obtain ⟨x, hx, hxp⟩ := List.mem_map.mp hplace
  have hxu : u.Holds x := by
    refine hhold.holds x ?_
    simpa only [Compiler.Outputs.writes, hplaces] using hx
  -- the content of the cache file is what is written for the component
  have hcontent := FileTree.holds_of_read hread
  rw [hplaces, ← hxp] at hcontent
  rw [hcontent.unique hxu] at hcache
  exact hw.separate.compiled e' he' p hp e he rs hrs.found x
    (List.mem_flatMap.mpr ⟨r, hr, hx⟩) hxp cache hcache

/-- The files of a component may be written again. -/
theorem Since.rewrites (h : config.Since w t) (he : e ∈ config.compilers)
    {rs : List CompiledComponent} (hrs : e.2.Prepared rs w) {r : CompiledComponent} (hr : r ∈ rs)
    (hrewrites : FileTree.Rewrites
      (· ∈ ((Compiler.ofConfig "" e.2).outputs r.componentName).places t) t u)
    (hhold : ((Compiler.ofConfig "" e.2).outputs r.componentName).Hold r u) : config.Since w u := by
  have hpaths : ∀ p ∈ ((Compiler.ofConfig "" e.2).outputs r.componentName).paths,
      p ∈ e.2.artifacts w := fun p hp ↦
    (CompilerConfig.mem_artifacts_iff_of_found hrs.found).mpr ⟨r, hr, hp⟩
  have hplaces : ((Compiler.ofConfig "" e.2).outputs r.componentName).places t =
      ((Compiler.ofConfig "" e.2).outputs r.componentName).places w :=
    List.map_congr_left fun p _ ↦ h.place p
  rw [hplaces] at hrewrites
  have hsame : FileTree.SameBut
      (· ∈ ((Compiler.ofConfig "" e.2).outputs r.componentName).places w) t u := {
    current := hrewrites.current
    same := hrewrites.at?
    before := by
      rintro l mode hl
      obtain ⟨p, hp, rfl⟩ := List.mem_map.mp hl
      exact h.artifacts e he p (hpaths p hp) mode
    after := by
      rintro l mode hl
      obtain ⟨p, hp, rfl⟩ := List.mem_map.mp hl
      rw [← h.place, ← hrewrites.place]
      exact (FileTree.writable_of_isFile (hhold.isFile p hp)).free mode }
  refine h.sameBut (hrewrites.sound h.sound) hsame (fun e' he' n hn ↦ ?_)
    fun e' he' p hp hplace cache hcache ↦ ?_
  · obtain ⟨p, hp, hplace⟩ := List.mem_map.mp hn
    exact hw.place_ne_of_mem_artifacts he' he (hpaths p hp) n hplace
  · exact absurd hcache (hw.not_at_of_hold he hrs hr (hrewrites.current.trans h.current) hhold he' hp
      hplace cache)

/-- A cache file may be deleted or get another content, as long as that is no cache. -/
theorem Since.replaced (h : config.Since w t) (he : e ∈ config.compilers) {p : Path}
    (hp : p ∈ e.2.cacheFile) (hu : u.Sound) (hsame : FileTree.SameBut (· = w.place p) t u)
    (hcache : ∀ cache, ¬ Cache.At u p cache) : config.Since w u := by
  refine h.sameBut hu hsame (fun e' he' n hn ↦ ?_) fun e' he' q hq hqp cache hqcache ↦ ?_
  · refine hw.separate.sources e' he' e he p
      (by simp [CompilerConfig.outputPaths, Option.mem_def.mp hp]) ?_
    rw [← hn]
    exact List.prefix_append _ _
  · -- no other configuration has its cache there
    have hsame' : e' = e := by
      by_contra hne
      exact hw.separate.caches.forall he' he hne q hq p hp hqp
    subst hsame'
    rw [Option.mem_def.mp hp] at hq
    cases hq
    exact absurd hqcache (hcache cache)

/-- A cache file may be deleted. -/
theorem Since.deleted (h : config.Since w t) (he : e ∈ config.compilers) {p : Path}
    (hp : p ∈ e.2.cacheFile) (hfile : ∀ mode, t.at? (w.place p) ≠ some (.directory mode)) :
    config.Since w (t.drop (w.place p)) := by
  have hplace : (t.drop (w.place p)).place p = w.place p := by
    simp only [FileTree.place, FileTree.drop, h.current]
  refine h.replaced hw he hp (h.sound.drop _) (FileTree.sameBut_drop hfile) ?_
  rintro cache ⟨content, hread, -⟩
  obtain ⟨-, mode, modified, hnode⟩ := FileTree.read_eq_ok_iff.mp hread
  rw [hplace, FileTree.at?_drop, if_pos rfl] at hnode
  cases hnode

/-! ## Scanning -/

section Scan

variable {s : Workspace} (home : RegistryId)

/-- The files of a component of the run can be written. -/
theorem Prepared.writable (he : e ∈ config.compilers) {found : List CompiledComponent}
    (hrs : e.2.Prepared found w) (h : config.Since w t) {p : Path} (hp : p ∈ e.2.artifacts w) :
    t.Writable p := by
  have hfree := h.artifacts e he p hp
  rw [← h.place] at hfree
  obtain ⟨hcode, hassets⟩ := h.directories e he
  obtain ⟨n, hn, rfl | rfl⟩ := CompilerConfig.exists_of_mem_artifacts hrs.config hw.sound hp
  · rw [t.place_child _ hn] at hfree
    exact FileTree.writable_child hcode hn hfree
  · rw [t.place_child _ hn] at hfree
    exact FileTree.writable_child hassets hn hfree

/-- A source compiles to what the run has found, unless the name is in the way. -/
theorem Prepared.outcome_compile (he : e ∈ config.compilers) {found : List CompiledComponent}
    (hrs : e.2.Prepared found w) {base : String} {r : CompiledComponent}
    (hbase : base ∈ Compiler.sourceNames w e.2.sourceDir) (hmem : r ∈ found)
    (hr : (Compiler.ofConfig home e.2).compiled? ((Compiler.ofConfig home e.2).identifierOf base) w
      ((Compiler.ofConfig home e.2).sourceOf base) = some r)
    (hs : config.Since w s.files) :
    match s.registry.register r.identifier (.compiled r) with
    | .error f => outcome ((Compiler.ofConfig home e.2).compile
        ((Compiler.ofConfig home e.2).identifierOf base)
        ((Compiler.ofConfig home e.2).sourceOf base)) s = (.error (.failure f), s)
    | .ok registry => ∃ s', outcome ((Compiler.ofConfig home e.2).compile
        ((Compiler.ofConfig home e.2).identifierOf base)
        ((Compiler.ofConfig home e.2).sourceOf base)) s = (.ok r, s') ∧
        s'.registry = registry ∧ config.Since w s'.files := by
  have hdescribes := Compiler.describes_of_compiled? hr
  have hwritable : ∀ p ∈ ((Compiler.ofConfig home e.2).outputs r.componentName).paths,
      s.files.Writable p := fun p hp ↦
    hw.writable he hrs hs ((CompilerConfig.mem_artifacts_iff_of_found hrs.found).mpr ⟨r, hmem, hp⟩)
  have hcompile := Compiler.outcome_compile_of_writable (s := s) (c := Compiler.ofConfig home e.2)
    hrs.config.compiledCodeDir hrs.config.compiledAssetsDir
    ((Compiler.compiled?_eq hw.sound hbase (hs.sources e he) _).trans hr)
    (hs.directories e he).1 (hs.directories e he).2 hwritable
  rw [hdescribes.identifier]
  cases hregister : s.registry.register ((Compiler.ofConfig home e.2).identifierOf base)
      (.compiled r) with
  | error f =>
    rw [hregister] at hcompile
    exact hcompile
  | ok registry =>
    rw [hregister] at hcompile
    obtain ⟨s', hone, hregistry, hrewrites, hhold⟩ := hcompile
    exact ⟨s', hone, hregistry,
      hs.rewrites hw he hrs hmem hrewrites (hhold (Compiler.nodup_places _ _ _))⟩

/-- The sources of a configuration compile to what the run has found, one after the other, until a
name is in the way of one of them. -/
theorem Prepared.outcome_compileSources (he : e ∈ config.compilers)
    {found : List CompiledComponent} (hrs : e.2.Prepared found w)
    {bases : List String} {rs : List CompiledComponent}
    (hall : List.Forall₂ (fun base r ↦ base ∈ Compiler.sourceNames w e.2.sourceDir ∧ r ∈ found ∧
      (Compiler.ofConfig home e.2).compiled? ((Compiler.ofConfig home e.2).identifierOf base) w
        ((Compiler.ofConfig home e.2).sourceOf base) = some r) bases rs)
    (hs : config.Since w s.files) :
    match s.registry.registerEach (rs.map Compiler.entry) with
    | .error f => ∃ s', outcome ((Compiler.ofConfig home e.2).compileSources bases) s =
        (.error (.failure f), s')
    | .ok r => ∃ s', outcome ((Compiler.ofConfig home e.2).compileSources bases) s = (.ok rs, s') ∧
        s'.registry = r ∧ config.Since w s'.files := by
  induction hall generalizing s with
  | nil => exact ⟨s, rfl, rfl, hs⟩
  | @cons base r bases rs hr hall ih =>
    obtain ⟨hbase, hmem, hr⟩ := hr
    have hcompile := hw.outcome_compile home he hrs hbase hmem hr hs
    rw [Compiler.compileSources, List.mapM_cons, List.map_cons, Registry.registerEach_cons,
      Compiler.entry]
    cases hregister : s.registry.register r.identifier (.compiled r) with
    | error f =>
      rw [hregister] at hcompile
      exact ⟨s, outcome_bind_of_error hcompile _⟩
    | ok registry =>
      rw [hregister] at hcompile
      obtain ⟨s₁, hone, rfl, hs₁⟩ := hcompile
      have hrest := ih hs₁
      rw [outcome_bind_of_ok hone]
      dsimp only [Except.bind]
      cases hregisters : s₁.registry.registerEach (rs.map Compiler.entry) with
      | error f =>
        simp only [hregisters] at hrest ⊢
        obtain ⟨s', hrest⟩ := hrest
        exact ⟨s', outcome_bind_of_error hrest _⟩
      | ok registry =>
        simp only [hregisters] at hrest ⊢
        obtain ⟨s', hrest, hregistry, hs'⟩ := hrest
        exact ⟨s', outcome_bind_of_ok hrest _, hregistry, hs'⟩

/-- A scan registers what the run has found, until a name is in the way. -/
theorem Prepared.outcome_scan (he : e ∈ config.compilers) {rs : List CompiledComponent}
    (hprepared : e.2.Prepared rs w) (hs : config.Since w s.files) :
    match s.registry.registerEach (rs.map Compiler.entry) with
    | .error f => ∃ s', outcome (Compiler.ofConfig home e.2).scan s = (.error (.failure f), s')
    | .ok r => ∃ s', outcome (Compiler.ofConfig home e.2).scan s = (.ok rs, s') ∧
        s'.registry = r ∧ config.Since w s'.files := by
  have hensure : outcome (Compiler.ofConfig home e.2).ensureOutputs s = (.ok (), s) :=
    Compiler.outcome_ensureOutputs_of_isDirectory (hs.directories e he).1 (hs.directories e he).2
  have hnames : Compiler.sourceNames s.files e.2.sourceDir = Compiler.sourceNames w e.2.sourceDir :=
    Compiler.sourceNames_eq hw.sound hs.sound (hs.sources e he)
  have hfound := (List.forall₂_and_left _ _).mpr
    ⟨fun _ ↦ id, (Compiler.found_eq_some_iff.mp hprepared.found).flip⟩
  have hall := (List.forall₂_and_left _ _).mpr ⟨fun _ ↦ id, hfound.flip⟩
  have hsources := hw.outcome_compileSources home he hprepared hall hs
  have hscan : outcome (Compiler.ofConfig home e.2).scan s =
      outcome (do
        let compiled ← (Compiler.ofConfig home e.2).compileSources
          (Compiler.sourceNames w e.2.sourceDir)
        Build.note (.scanCompleted compiled.length)
        return compiled) s := by
    rw [Compiler.scan, outcome_bind_of_ok hensure, outcome_get_bind, ← hnames]
    rfl
  rw [hscan]
  cases hregisters : s.registry.registerEach (rs.map Compiler.entry) with
  | error f =>
    simp only [hregisters] at hsources ⊢
    obtain ⟨s', hsources⟩ := hsources
    exact ⟨s', outcome_bind_of_error hsources _⟩
  | ok registry =>
    simp only [hregisters] at hsources ⊢
    obtain ⟨s', hsources, hregistry, hs'⟩ := hsources
    exact ⟨_, outcome_bind_of_ok hsources _, hregistry, hs'⟩

end Scan

end Prepared

end Config

/-- A boot reads no other cache file than that of the configuration. -/
theorem Boot.mem_of_cacheFile? {production : Bool} {c : CompilerConfig} {p : Path}
    (h : cacheFile? production c = some p) : p ∈ c.cacheFile := by
  unfold cacheFile? at h
  split at h
  · exact h
  · cases h

end IceCube

import IceCube.Boot
import IceCube.Proofs.Boot.Since

/-!
# Booting from caches and booting from sources

In production a registry is filled from caches, each of which was stored by a registry that knew one
configuration only, and elsewhere it is filled from the sources.  After a run both boots agree:
configuration by configuration, a cache that can be used has the same identifiers and names as the
sources, so it is turned down exactly if a name of the sources is in the way, and then the sources
are compiled after all and end in the same collision.
-/

namespace IceCube.Boot

open Step

variable {config : Config} {files w : FileTree} {e : String × CompilerConfig}
  {es : Table String CompilerConfig} {q r : Registry}

/-! ## Registries that agree -/

/-- The last configuration that has a source for an identifier. -/
def lastRegistering? (files : FileTree) (es : Table String CompilerConfig) (i : String) :
    Option CompilerConfig :=
  (es.reverse.find? fun e ↦ decide (i ∈ e.2.identifiers files)).map Prod.snd

/-- Registries with the same identifiers under the same names, whose records are the same in a cache of
the last configuration that has registered them. -/
structure Agree (files : FileTree) (es : Table String CompilerConfig) (q r : Registry) : Prop where
  owners : ∀ name, Table.get? q.owners name = Table.get? r.owners name
  records : ∀ i, match lastRegistering? files es i with
    | none => q.get? i = none ∧ r.get? i = none
    | some c => ∃ a b, q.get? i = some a ∧ r.get? i = some b ∧
        a.toCached c.includesStylesInCache = b.toCached c.includesStylesInCache

theorem lastRegistering?_concat (i : String) : lastRegistering? files (es ++ [e]) i =
    if i ∈ e.2.identifiers files then some e.2 else lastRegistering? files es i := by
  rw [lastRegistering?, List.reverse_append, List.reverse_singleton, List.singleton_append,
    List.find?_cons]
  by_cases h : i ∈ e.2.identifiers files <;> simp [h, lastRegistering?]

theorem Agree.empty (files : FileTree) : Agree files [] .empty .empty where
  owners _ := rfl
  records _ := ⟨rfl, rfl⟩

theorem Agree.isSome_get? (h : Agree files es q r) (i : String) :
    (q.get? i).isSome = (r.get? i).isSome := by
  have hi := h.records i
  cases hlast : lastRegistering? files es i with
  | none =>
    rw [hlast] at hi
    rw [hi.1, hi.2]
  | some c =>
    rw [hlast] at hi
    obtain ⟨a, b, ha, hb, -⟩ := hi
    rw [ha, hb]
    rfl

/-- Which compilers a registry asks has no part in it. -/
theorem Agree.attach (h : Agree files es q r) (c d : Compiler) :
    Agree files es (q.attach c) (r.attach d) where
  owners := by
    intro name
    rw [Registry.owners_attach, Registry.owners_attach]
    exact h.owners name
  records := by
    intro i
    rw [Registry.get?, Registry.get?, Registry.records_attach, Registry.records_attach]
    exact h.records i

/-- Registries go on to agree when they get the records of one more configuration, in any order and
each as a whole or as it is in the cache. -/
theorem Agree.putEach (h : Agree files es q r) {as bs : List (String × Record)}
    (hperm : (as.map fun x ↦ (x.1, x.2.toCached e.2.includesStylesInCache)).Perm
      (bs.map fun x ↦ (x.1, x.2.toCached e.2.includesStylesInCache)))
    (hkeys : Table.keys bs = e.2.identifiers files) (hnodup : (Table.keys bs).Nodup)
    (hnames : (bs.map fun x ↦ x.2.componentName).Nodup) :
    Agree files (es ++ [e]) (q.putEach as) (r.putEach bs) where
  owners := by
    intro name
    have hpairs := hperm.map fun x ↦ (x.2.componentName, x.1)
    rw [List.map_map, List.map_map] at hpairs
    have hreverse : (as.map fun x ↦ (x.2.componentName, x.1)).reverse.Perm
        (bs.map fun x ↦ (x.2.componentName, x.1)).reverse :=
      (List.reverse_perm _).trans (hpairs.trans (List.reverse_perm _).symm)
    have hdistinct : (Table.keys (bs.map fun x ↦ (x.2.componentName, x.1)).reverse).Nodup := by
      rw [Table.keys, List.map_reverse, List.nodup_reverse, List.map_map]
      exact hnames
    rw [Registry.owner_putEach, Registry.owner_putEach, h.owners,
      Table.get?_perm hdistinct hreverse.symm]
  records := by
    intro i
    have hreverse : (as.reverse.map fun x ↦ (x.1, x.2.toCached e.2.includesStylesInCache)).Perm
        (bs.reverse.map fun x ↦ (x.1, x.2.toCached e.2.includesStylesInCache)) :=
      ((List.reverse_perm as).map _).trans (hperm.trans ((List.reverse_perm bs).map _).symm)
    have hdistinct : (Table.keys (bs.reverse.map fun x ↦
        (x.1, x.2.toCached e.2.includesStylesInCache))).Nodup := by
      rw [Table.keys, List.map_map, List.map_reverse, List.nodup_reverse]
      exact hnodup
    have hsame := Table.get?_perm hdistinct hreverse.symm i
    rw [Table.get?_map (fun x : Record ↦ x.toCached e.2.includesStylesInCache),
      Table.get?_map (fun x : Record ↦ x.toCached e.2.includesStylesInCache)] at hsame
    have hmem : i ∈ e.2.identifiers files ↔ ∃ b, Table.get? bs.reverse i = some b := by
      rw [← hkeys, ← Table.mem_keys_iff, Table.keys, Table.keys, List.map_reverse, List.mem_reverse]
    rw [lastRegistering?_concat, Registry.get?_putEach, Registry.get?_putEach]
    by_cases hi : i ∈ e.2.identifiers files
    · obtain ⟨b, hb⟩ := hmem.mp hi
      rw [hb] at hsame
      obtain ⟨a, ha, hab⟩ := Option.map_eq_some_iff.mp hsame.symm
      rw [if_pos hi, ha, hb]
      exact ⟨a, b, rfl, rfl, hab⟩
    · have hb : Table.get? bs.reverse i = none := by
        rw [Option.eq_none_iff_forall_ne_some]
        exact fun b hb ↦ hi (hmem.mpr ⟨b, hb⟩)
      rw [hb] at hsame
      have ha : Table.get? as.reverse i = none := Option.map_eq_none_iff.mp hsame.symm
      rw [if_neg hi, ha, hb, Option.none_or, Option.none_or]
      exact h.records i

/-! ## Steps that end alike -/

/-- Two steps both end in the same collision of names, or both end well, and then in states that are
related. -/
def EndAlike {α β : Type} (P : Workspace → Workspace → Prop) (x : Except Error α × Workspace)
    (y : Except Error β × Workspace) : Prop :=
  (∃ name i j, x.1 = .error (.failure (.nameCollision name i j)) ∧
    y.1 = .error (.failure (.nameCollision name i j))) ∨
  ((∃ a, x.1 = .ok a) ∧ (∃ b, y.1 = .ok b) ∧ P x.2 y.2)

section EndAlike

variable {α β γ δ ι : Type} {P Q : Workspace → Workspace → Prop} {s s' : Workspace}

theorem EndAlike.mono {x : Except Error α × Workspace} {y : Except Error β × Workspace}
    (h : EndAlike P x y) (hPQ : ∀ s s', P s s' → Q s s') : EndAlike Q x y :=
  h.imp_right fun ⟨hx, hy, hP⟩ ↦ ⟨hx, hy, hPQ _ _ hP⟩

theorem EndAlike.bind {m : Build α} {m' : Build β} {f : α → Build γ} {g : β → Build δ}
    (h : EndAlike P (outcome m s) (outcome m' s'))
    (hfg : ∀ a b t t', P t t' → EndAlike Q (outcome (f a) t) (outcome (g b) t')) :
    EndAlike Q (outcome (m >>= f) s) (outcome (m' >>= g) s') := by
  rcases hm : outcome m s with ⟨x, t⟩
  rcases hm' : outcome m' s' with ⟨y, t'⟩
  rw [hm, hm'] at h
  rcases h with ⟨name, i, j, rfl, rfl⟩ | ⟨⟨a, rfl⟩, ⟨b, rfl⟩, hP⟩
  · rw [outcome_bind_of_error hm, outcome_bind_of_error hm']
    exact .inl ⟨name, i, j, rfl, rfl⟩
  · rw [outcome_bind_of_ok hm, outcome_bind_of_ok hm']
    exact hfg a b t t' hP

theorem EndAlike.pure (a : α) (b : β) (h : P s s') :
    EndAlike P (outcome (Pure.pure a : Build α) s) (outcome (Pure.pure b : Build β) s') :=
  .inr ⟨⟨a, rfl⟩, ⟨b, rfl⟩, h⟩

/-- If the steps for each element end alike after those for the elements before it, so do the steps
for all of them. -/
theorem endAlike_mapM {P : List ι → Workspace → Workspace → Prop} {f : ι → Build α} {g : ι → Build β}
    {as : List ι}
    (hstep : ∀ done, ∀ a ∈ as, ∀ s s', P done s s' →
      EndAlike (P (done ++ [a])) (outcome (f a) s) (outcome (g a) s'))
    (done : List ι) (h : P done s s') :
    EndAlike (P (done ++ as)) (outcome (as.mapM f) s) (outcome (as.mapM g) s') := by
  induction as generalizing done s s' with
  | nil =>
    rw [List.append_nil]
    exact .pure [] [] h
  | cons a as ih =>
    rw [List.mapM_cons, List.mapM_cons]
    refine (hstep done a (by simp) s s' h).bind fun b b' t t' ht ↦ ?_
    have hrest := ih (fun done a ha ↦ hstep done a (List.mem_cons_of_mem _ ha)) (done ++ [a]) ht
    rw [List.append_assoc, List.singleton_append] at hrest
    exact hrest.bind fun bs bs' u u' hu ↦ .pure _ _ hu

end EndAlike

/-! ## One configuration -/

/-- Two workspaces some time after the same run, with registries that agree. -/
structure Alike (config : Config) (w : FileTree) (es : Table String CompilerConfig)
    (s s' : Workspace) : Prop where
  left : config.Since w s.files
  right : config.Since w s'.files
  registries : Agree w es s.registry s'.registry

/-- Where the directories are there, a compiler only has to be attached. -/
theorem outcome_compilerOf (he : e ∈ config.compilers) {s : Workspace} (hs : config.Since w s.files)
    (home : RegistryId) : outcome (compilerOf home e.2) s = (.ok (.ofConfig home e.2),
      { s with registry := s.registry.attach (.ofConfig home e.2) }) := by
  have hensure : outcome (Compiler.ofConfig home e.2).ensureOutputs s = (.ok (), s) :=
    Compiler.outcome_ensureOutputs_of_isDirectory (hs.directories e he).1 (hs.directories e he).2
  have hsetUp : outcome (Compiler.ofConfig home e.2).setUp s = (.ok (),
      { s with registry := s.registry.attach (.ofConfig home e.2) }) := by
    rw [Compiler.setUp, outcome_bind_of_ok hensure]
    rfl
  rw [compilerOf, outcome_bind_of_ok hsetUp]
  rfl

/-- The records of a configuration have the identifiers of its sources and distinct names. -/
theorem keys_of_prepared (hw : w.Sound) {rs : List CompiledComponent} (hrs : e.2.Prepared rs w) :
    Table.keys (rs.map Compiler.entry) = e.2.identifiers w ∧
      (Table.keys (rs.map Compiler.entry)).Nodup ∧
      ((rs.map Compiler.entry).map fun x ↦ x.2.componentName).Nodup := by
  have hkeys : Table.keys (rs.map Compiler.entry) = e.2.identifiers w := by
    rw [Table.keys, List.map_map]
    exact CompilerConfig.identifiers_of_found hrs.found
  refine ⟨hkeys, ?_, ?_⟩
  · rw [hkeys]
    exact (Compiler.nodup_sourceNames hw _).map (Compiler.identifierOf_injective _)
  · rw [List.map_map]
    exact hrs.nodup

/-- The records of a cache are those of the components that it lists. -/
theorem cachedEntries_perm {cs : List CachedComponent} {rs : List CompiledComponent}
    {includeStyles : Bool}
    (hperm : cs.Perm (rs.map fun r ↦ (Record.compiled r).toCached includeStyles)) :
    ((Registry.cachedEntries cs).map fun x ↦ (x.1, x.2.toCached includeStyles)).Perm
      ((rs.map Compiler.entry).map fun x ↦ (x.1, x.2.toCached includeStyles)) := by
  have hentries := hperm.map fun c ↦ (c.identifier, (Record.cached c).toCached includeStyles)
  rw [List.map_map] at hentries
  rw [Registry.cachedEntries, List.map_map, List.map_map]
  refine hentries.trans (.of_eq (List.map_congr_left fun r _ ↦ ?_))
  exact congrArg (r.identifier, ·) (Record.toCached_cached _ _)

section Prepared

variable {s s' : Workspace} (hw : config.Prepared w)
include hw

section Configuration

variable (he : e ∈ config.compilers)
include he

/-- Scanning into registries that agree ends alike. -/
theorem scan_alike (home home' : RegistryId) (h : Alike config w es s s') :
    EndAlike (Alike config w (es ++ [e])) (outcome (Compiler.ofConfig home e.2).scan s)
      (outcome (Compiler.ofConfig home' e.2).scan s') := by
  obtain ⟨rs, hrs⟩ := hw.compilers e he
  have hscan := hw.outcome_scan home he hrs h.left
  have hscan' := hw.outcome_scan home' he hrs h.right
  have herror (f : Failure) : s.registry.registerEach (rs.map Compiler.entry) = .error f ↔
      s'.registry.registerEach (rs.map Compiler.entry) = .error f :=
    Registry.registerEach_eq_error_iff h.registries.owners
  cases hregister : s.registry.registerEach (rs.map Compiler.entry) with
  | error f =>
    rw [(herror f).mp hregister] at hscan'
    rw [hregister] at hscan
    obtain ⟨t, hscan⟩ := hscan
    obtain ⟨t', hscan'⟩ := hscan'
    obtain ⟨name, i, j, rfl⟩ := Registry.exists_of_registerEach_eq_error hregister
    rw [hscan, hscan']
    exact .inl ⟨name, i, j, rfl, rfl⟩
  | ok q =>
    cases hregister' : s'.registry.registerEach (rs.map Compiler.entry) with
    | error f =>
      rw [(herror f).mpr hregister'] at hregister
      cases hregister
    | ok r =>
      rw [hregister] at hscan
      rw [hregister'] at hscan'
      obtain ⟨t, hscan, hq, ht⟩ := hscan
      obtain ⟨t', hscan', hr, ht'⟩ := hscan'
      obtain ⟨hkeys, hnodup, hnames⟩ := keys_of_prepared hw.sound hrs
      rw [hscan, hscan']
      refine .inr ⟨⟨rs, rfl⟩, ⟨rs, rfl⟩, ht, ht', ?_⟩
      rw [hq, hr, Registry.registerEach_eq_ok hregister, Registry.registerEach_eq_ok hregister']
      exact h.registries.putEach (.refl _) hkeys hnodup hnames

/-- A cache that can be loaded gives what a scan gives. -/
theorem loadCache_alike (home home' : RegistryId) (h : Alike config w es s s') {p : Path}
    (hp : p ∈ e.2.cacheFile) {cache : Cache} (hcache : Registry.Loadable s p cache)
    (log : List Event) :
    EndAlike (α := Compiler) (Alike config w (es ++ [e]))
      (.ok (.ofConfig home e.2),
        { s with registry := s.registry.putAll cache.components.values, log := log })
      (outcome (do
        let _ ← (Compiler.ofConfig home' e.2).scan
        return Compiler.ofConfig home' e.2) s') := by
  obtain ⟨rs, hrs⟩ := hw.compilers e he
  obtain ⟨⟨text, htext, hread⟩, hversion, hregisters⟩ := hcache
  have hperm : cache.components.values.Perm (rs.map fun r ↦
      (Record.compiled r).toCached e.2.includesStylesInCache) :=
    hrs.cache p hp cache (h.left.caches e he p hp cache (Cache.at_of_readText htext hread hversion))
  obtain ⟨hkeys, hnodup, hnames⟩ := keys_of_prepared hw.sound hrs
  have hproj := cachedEntries_perm hperm
  simp only [Registry.registerAll_eq_registerEach] at hregisters
  obtain ⟨r, hr⟩ := Registry.registerEach_of_perm h.registries.owners hproj hnames hregisters
  have hscan := hw.outcome_scan home' he hrs h.right
  rw [hr] at hscan
  obtain ⟨t', hscan, hregistry, ht'⟩ := hscan
  rw [outcome_bind_of_ok hscan]
  refine .inr ⟨⟨_, rfl⟩, ⟨_, rfl⟩, h.left, ht', ?_⟩
  dsimp only [outcome_pure]
  rw [hregistry, Registry.registerEach_eq_ok hr, Registry.putAll_eq_putEach]
  exact h.registries.putEach hproj hkeys hnodup hnames

/-- One configuration is started alike from its cache and from its sources. -/
theorem start_alike (home home' : RegistryId) (h : Alike config w es s s') :
    EndAlike (Alike config w (es ++ [e])) (outcome (start home true e.1 e.2) s)
      (outcome (start home' false e.1 e.2) s') := by
  have hattach {log : List Event} : Alike config w es
      ⟨s.files, s.registry.attach (.ofConfig home e.2), log⟩
      { s' with registry := s'.registry.attach (.ofConfig home' e.2) } :=
    ⟨h.left, h.right, h.registries.attach _ _⟩
  have hsources : outcome (start home' false e.1 e.2) s' =
      outcome (do
        let _ ← (Compiler.ofConfig home' e.2).scan
        return Compiler.ofConfig home' e.2)
        { s' with registry := s'.registry.attach (.ofConfig home' e.2) } := by
    rw [start, outcome_bind_of_ok (outcome_compilerOf he h.right home')]
    rfl
  rw [hsources, start, outcome_bind_of_ok (outcome_compilerOf he h.left home)]
  cases hfile : cacheFile? true e.2 with
  | none =>
    exact (scan_alike hw he home home' hattach).bind fun _ _ t t' ht ↦ .pure _ _ ht
  | some p =>
    have hp := mem_of_cacheFile? hfile
    dsimp only
    by_cases hcache : ∃ cache, Registry.Loadable
        { s with registry := s.registry.attach (.ofConfig home e.2) } p cache
    · obtain ⟨cache, hcache⟩ := hcache
      rw [outcome_bind_of_ok (Registry.outcome_loadCache_of_loadable hcache), if_pos rfl, Build.note,
        outcome_modify_bind]
      exact loadCache_alike hw he home home' hattach hp hcache _
    · push Not at hcache
      obtain ⟨event, hload⟩ := Registry.outcome_loadCache_of_not_loadable hcache
      rw [outcome_bind_of_ok hload, if_neg Bool.false_ne_true, Build.note, outcome_modify_bind]
      exact (scan_alike hw he home home' hattach).bind fun _ _ t t' ht ↦ .pure _ _ ht

end Configuration

/-- Configurations are started alike, one after the other. -/
theorem boot_alike_of_subset (hes : es ⊆ config.compilers) (home home' : RegistryId)
    (h : Alike config w [] s s') :
    EndAlike (Alike config w es) (outcome (boot home true ⟨es⟩) s)
      (outcome (boot home' false ⟨es⟩) s') := by
  have hstep : ∀ done : Table String CompilerConfig, ∀ e ∈ es, ∀ t t',
      Alike config w done t t' → EndAlike (Alike config w (done ++ [e]))
        (outcome (do
          let compiler ← start home true e.1 e.2
          return (e.1, compiler)) t)
        (outcome (do
          let compiler ← start home' false e.1 e.2
          return (e.1, compiler)) t') := by
    intro done e he t t' ht
    exact (start_alike hw (hes he) home home' ht).bind fun _ _ _ _ hu ↦ .pure _ _ hu
  have hall := endAlike_mapM hstep [] h
  rwa [List.nil_append] at hall

/-- All configurations are started alike. -/
theorem boot_alike (home home' : RegistryId) (h : Alike config w [] s s') :
    EndAlike (Alike config w config.compilers) (outcome (boot home true config) s)
      (outcome (boot home' false config) s') :=
  boot_alike_of_subset hw (List.Subset.refl _) home home' h

end Prepared

end IceCube.Boot

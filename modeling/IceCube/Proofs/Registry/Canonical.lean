import IceCube.Proofs.Compiler.Compiling
import IceCube.Proofs.Registry.Stored

/-!
# One cache for one set of records

A cache file does not tell in which order its records were registered: it lists them by the names of
their components, which are distinct.  Nor does it tell whether a record was compiled or came from a
cache: what is loaded from the file is stored as the same file again.
-/

namespace IceCube

open Step

namespace Registry

variable {q r : Registry} {includeStyles : Bool}

/-! ## The order of a cache -/

/-- A cache lists its components by their names. -/
theorem Coherent.pairwise_toCache (h : Coherent r) (includeStyles : Bool) :
    (r.toCache includeStyles).components.Pairwise fun a b ↦ a.1 ≤ b.1 := by
  have hsorted := @List.pairwise_mergeSort Record
    (fun a b ↦ decide (a.componentName ≤ b.componentName))
    (fun a b c hab hbc ↦ by simpa using String.le_trans (by simpa using hab) (by simpa using hbc))
    (fun a b ↦ by simpa using String.le_total a.componentName b.componentName) r.records.values
  rw [h.components_toCache, List.pairwise_map]
  exact hsorted.imp of_decide_eq_true

theorem Coherent.pairwise_values_toCache (h : Coherent r) (includeStyles : Bool) :
    (r.toCache includeStyles).components.values.Pairwise fun a b ↦
      a.componentName ≤ b.componentName := by
  have hsorted := h.pairwise_toCache includeStyles
  rw [h.components_toCache, List.pairwise_map] at hsorted
  rw [h.components_toCache, Table.values, List.map_map, List.pairwise_map]
  exact hsorted

/-- Registries whose records have the same projections differ in their order only. -/
theorem Coherent.projections_perm (hq : Coherent q) (hr : Coherent r)
    (h : ∀ i, (q.get? i).map (·.toCached includeStyles) = (r.get? i).map (·.toCached includeStyles)) :
    (q.records.map fun e ↦ (e.1, e.2.toCached includeStyles)).Perm
      (r.records.map fun e ↦ (e.1, e.2.toCached includeStyles)) := by
  have hkeys {r : Registry} (hr : Coherent r) :
      (Table.keys (r.records.map fun e ↦ (e.1, e.2.toCached includeStyles))).Nodup := by
    rw [Table.keys, List.map_map]
    exact hr.nodup
  refine Table.perm_of_get? (hkeys hq) (hkeys hr) fun i ↦ ?_
  have hget (r : Registry) := Table.get?_map (Record.toCached · includeStyles) r.records i
  exact (hget q).trans ((h i).trans (hget r).symm)

/-- Registries whose records have the same projections have one cache. -/
theorem Coherent.toCache_congr (hq : Coherent q) (hr : Coherent r)
    (h : ∀ i, (q.get? i).map (·.toCached includeStyles) = (r.get? i).map (·.toCached includeStyles)) :
    q.toCache includeStyles = r.toCache includeStyles := by
  have hprojected {r : Registry} (hr : Coherent r) : (r.toCache includeStyles).components.Perm
      ((r.records.map fun e ↦ (e.1, e.2.toCached includeStyles)).map fun e ↦
        (e.2.componentName, e.2)) := by
    rw [List.map_map]
    exact hr.toCache_perm includeStyles
  have hperm := (hprojected hq).trans
    (((hq.projections_perm hr h).map _).trans (hprojected hr).symm)
  have hcomponents := hperm.eq_of_pairwise (fun a b ha hb hab hba ↦
    List.inj_on_of_nodup_map (hr.nodup_keys_toCache includeStyles) (hperm.mem_iff.mp ha) hb
      (String.le_antisymm hab hba)) (hq.pairwise_toCache includeStyles)
    (hr.pairwise_toCache includeStyles)
  exact congrArg (Cache.mk Cache.formatVersion) hcomponents

/-- What is loaded from a cache has that cache. -/
theorem Coherent.toCache_putAll_toCache (h : Coherent r)
    (hown : ∀ i record, r.get? i = some record → record.identifier = i) :
    (Registry.empty.putAll (r.toCache includeStyles).components.values).toCache includeStyles =
      r.toCache includeStyles := by
  refine (coherent_lasting.registerAll .empty (h.registerAll_toCache includeStyles)).toCache_congr h
    fun i ↦ ?_
  rw [h.get?_putAll_toCache hown, Option.map_map]
  congr 1
  funext record
  exact record.toCached_cached includeStyles

/-! ## Storing -/

/-- Of a registry, only its cache has a say in what becomes of the files. -/
theorem outcome_storeCache_congr {p : Path} {s t : Workspace} (hfiles : t.files = s.files)
    (hcache : t.registry.toCache includeStyles = s.registry.toCache includeStyles) :
    (outcome (storeCache p includeStyles) t).1 = (outcome (storeCache p includeStyles) s).1 ∧
      (outcome (storeCache p includeStyles) t).2.files =
        (outcome (storeCache p includeStyles) s).2.files := by
  rw [storeCache, outcome_get_bind, outcome_get_bind, hcache]
  simp only [outcome_bind, Build.outcome_ensureDirectory, hfiles]
  cases s.files.ensureDirectory p.parent with
  | error f => exact ⟨rfl, hfiles⟩
  | ok u =>
    simp only [Build.outcome_writeIfChanged]
    rcases u.writeIfChanged FileTree.undisturbed p
      (Utf8.encode (s.registry.toCache includeStyles).write) with ⟨f | b, v⟩ <;> exact ⟨rfl, rfl⟩

/-- Storing a cache that a file in a directory holds already leaves all files alone. -/
theorem outcome_storeCache_of_read {p : Path} {s : Workspace}
    (hdirectory : s.files.isDirectory p.parent = true)
    (hread : s.files.read p = .ok (Utf8.encode (s.registry.toCache includeStyles).write)) :
    ∃ log, outcome (storeCache p includeStyles) s = (.ok p, { s with log := log }) := by
  refine ⟨s.log ++ [.cacheStored (s.registry.toCache includeStyles).components.length includeStyles],
    ?_⟩
  rw [storeCache, outcome_get_bind]
  simp only [outcome_bind, Build.outcome_ensureDirectory,
    FileTree.ensureDirectory_of_isDirectory hdirectory, Build.outcome_writeIfChanged,
    FileTree.writeIfChanged_of_read hread]
  rfl

/-- A cache file is written into a directory that is made for it, and nothing else is written. -/
theorem writes_of_storeCache {p q : Path} {s s' : Workspace} (hp : p.Proper)
    (h : outcome (storeCache p includeStyles) s = (.ok q, s')) :
    q = p ∧ ∃ t, s.files.ensureDirectory p.parent = .ok t ∧
      FileTree.Rewrites (· = t.place p) t s'.files := by
  rw [storeCache, outcome_get_bind] at h
  obtain ⟨_, s₁, hdirectory, hrest⟩ := outcome_bind_eq_ok.mp h
  obtain ⟨b, s₂, hwrite, hlast⟩ := outcome_bind_eq_ok.mp hrest
  obtain ⟨_, s₃, hnote, hend⟩ := outcome_bind_eq_ok.mp hlast
  cases hnote
  cases hend
  obtain ⟨-, hrewrites, -⟩ := Build.rewrites_writeIfChanged hp hwrite
  rw [Build.outcome_ensureDirectory] at hdirectory
  cases hd : s.files.ensureDirectory p.parent with
  | error f => simp [hd] at hdirectory
  | ok t =>
    simp only [hd, Prod.mk.injEq, true_and] at hdirectory
    rw [← hdirectory] at hrewrites
    exact ⟨rfl, t, rfl, hrewrites⟩

/-- Storing what a file holds already that a cache was stored in leaves all files alone. -/
theorem outcome_storeCache_again {p q : Path} {s s' t : Workspace} (hp : p.Proper)
    (h : outcome (storeCache p includeStyles) s = (.ok q, s')) (hfiles : t.files = s'.files)
    (hcache : t.registry.toCache includeStyles = s.registry.toCache includeStyles) :
    ∃ log, outcome (storeCache p includeStyles) t = (.ok q, { t with log := log }) := by
  obtain ⟨rfl, u, hu, hrewrites⟩ := writes_of_storeCache hp h
  obtain ⟨-, hmade⟩ := FileTree.edits_ensureDirectory hp.parent hu
  refine outcome_storeCache_of_read ?_ ?_
  · rw [hfiles]
    exact hrewrites.isDirectory hmade
  · rw [hfiles, hcache]
    exact read_of_storeCache h

/-- The same records are under the same identifiers. -/
def SameRecords (q r : Registry) : Prop := ∀ i, q.get? i = r.get? i

theorem SameRecords.toCache_eq (h : SameRecords q r) (hq : Coherent q) (hr : Coherent r)
    (includeStyles : Bool) : q.toCache includeStyles = r.toCache includeStyles :=
  hq.toCache_congr hr fun i ↦ by rw [h i]

/-- Cache files are canonical.  Whatever requests have led to two registries, if these have the same
records under the same identifiers, they are stored as the same bytes, and storing the one does to
files what storing the other does to them.  A registry that is stored, loaded into an empty one and
stored again leaves all files as they are the second time. -/
theorem stored_caches_are_canonical {w : World} (hw : Reachable w) (home : RegistryId)
    (hown : ∀ i record, (w.registry home).get? i = some record → record.identifier = i)
    (hvalid : ∀ i record, (w.registry home).get? i = some record → record.Valid)
    (includeStyles : Bool) :
    ∃ bytes : Bytes,
      (∀ v home', Reachable v → SameRecords (v.registry home') (w.registry home) →
        (∀ p q s s', s.registry = v.registry home' →
          outcome (storeCache p includeStyles) s = (.ok q, s') → s'.files.read p = .ok bytes) ∧
        ∀ p s t, s.registry = w.registry home → t.registry = v.registry home' →
          t.files = s.files →
          (outcome (storeCache p includeStyles) t).1 = (outcome (storeCache p includeStyles) s).1 ∧
            (outcome (storeCache p includeStyles) t).2.files =
              (outcome (storeCache p includeStyles) s).2.files) ∧
      ∀ file q s s', s.registry = w.registry home →
        outcome (storeCache (.ofText file) includeStyles) s = (.ok q, s') →
        ∀ fresh : Workspace, fresh.files = s'.files → fresh.registry = .empty →
          ∃ r log log', outcome (loadCache (.ofText file)) fresh =
              (.ok true, { fresh with registry := r, log := log }) ∧
            outcome (storeCache (.ofText file) includeStyles)
              { fresh with registry := r, log := log } =
                (.ok q, { fresh with registry := r, log := log' }) := by
  have hr := Coherent.of_reachable hw home
  refine ⟨Utf8.encode ((w.registry home).toCache includeStyles).write, ?_, ?_⟩
  · intro v home' hv hsame
    have hcache := hsame.toCache_eq (Coherent.of_reachable hv home') hr includeStyles
    constructor
    · intro p q s s' hs hstore
      rw [← hcache, ← hs]
      exact read_of_storeCache hstore
    · intro p s t hs ht hfiles
      exact outcome_storeCache_congr hfiles (by rw [hs, ht, hcache])
  · intro file q s s' hs hstore fresh hfiles hempty
    have hread := read_of_storeCache hstore
    rw [hs, ← hfiles] at hread
    have hload := outcome_loadCache_of_loadable (loadable_of_storeCache hr hvalid hempty hread)
    rw [hempty] at hload
    obtain ⟨log', hagain⟩ := outcome_storeCache_again (Path.proper_ofText file) hstore
      (t := { fresh with
        registry := Registry.empty.putAll
          ((w.registry home).toCache includeStyles).components.values
        log := fresh.log ++ [.cacheLoaded
          ((w.registry home).toCache includeStyles).components.length] })
      hfiles (by rw [hs]; exact hr.toCache_putAll_toCache hown)
    exact ⟨_, _, log', hload, hagain⟩

/-- A world in which records are registered one after the other. -/
def registered (es : List (String × Record)) : World :=
  es.foldl (fun w e ↦ (outcome (Request.register "main" e.1 e.2).run w).2)
    (.start (.empty []) ⟨none, none⟩)

theorem reachable_registered (es : List (String × Record)) : Reachable (registered es) := by
  induction es using List.reverseRecOn with
  | nil => exact .start _ _
  | append_singleton es e ih =>
    rw [registered, List.foldl_append]
    exact .request ih (.register "main" e.1 e.2)

/-- A card and a panel. -/
def cardThenPanel : List (String × Record) :=
  [("app.Card", namedCard "app_Card"),
    ("app.Panel", .cached ⟨"app.Panel", "app_Panel", "out/panel.py", "out/panel", some "é", none,
      "89abcdef"⟩)]

/-- The workspace of the registry of some records without any files. -/
def unstored (es : List (String × Record)) : Workspace := (registered es).workspace "main"

/-- The files after a registry is stored without its styles. -/
def storedFiles (es : List (String × Record)) : FileTree :=
  (outcome (storeCache (.ofText "cache.json") false) (unstored es)).2.files

/-- Whether the card or the panel is registered first, the files are the same, and storing what was
loaded from them leaves them alone. -/
theorem card_and_panel_are_stored_alike :
    (registered cardThenPanel).registry "main" ≠ (registered cardThenPanel.reverse).registry "main" ∧
    storedFiles cardThenPanel.reverse = storedFiles cardThenPanel ∧
    ∃ r log log', outcome (loadCache (.ofText "cache.json")) ⟨storedFiles cardThenPanel, .empty, []⟩ =
        (.ok true, ⟨storedFiles cardThenPanel, r, log⟩) ∧
      outcome (storeCache (.ofText "cache.json") false) ⟨storedFiles cardThenPanel, r, log⟩ =
        (.ok (.ofText "cache.json"), ⟨storedFiles cardThenPanel, r, log'⟩) := by
  have hmem : ∀ i record, ((registered cardThenPanel).registry "main").get? i = some record →
      (i, record) ∈ cardThenPanel := fun i record h ↦ Table.mem_of_get? h
  have hsame : SameRecords ((registered cardThenPanel.reverse).registry "main")
      ((registered cardThenPanel).registry "main") := fun i ↦
    Table.get?_perm (t := cardThenPanel.reverse) (by decide) (List.reverse_perm _) i
  have hstore : outcome (storeCache (.ofText "cache.json") false) (unstored cardThenPanel) =
      (.ok (.ofText "cache.json"),
        (outcome (storeCache (.ofText "cache.json") false) (unstored cardThenPanel)).2) :=
    Prod.ext rfl rfl
  have hvalid : ∀ e ∈ cardThenPanel, e.2.identifier = e.1 ∧ e.2.Valid := by
    intro e he
    simp only [cardThenPanel, List.mem_cons, List.not_mem_nil, or_false] at he
    rcases he with rfl | rfl
    · exact ⟨rfl, by decide, by decide, by decide +kernel⟩
    · exact ⟨rfl, by decide, by decide, by decide +kernel⟩
  obtain ⟨bytes, halike, hagain⟩ := stored_caches_are_canonical
    (reachable_registered cardThenPanel) "main" (fun i record h ↦ (hvalid _ (hmem i record h)).1)
    (fun i record h ↦ (hvalid _ (hmem i record h)).2) false
  refine ⟨by decide, ?_, ?_⟩
  · exact ((halike _ "main" (reachable_registered cardThenPanel.reverse) hsame).2 _ _ _ rfl rfl
      rfl).2
  · exact hagain "cache.json" _ _ _ rfl hstore ⟨storedFiles cardThenPanel, .empty, []⟩ rfl rfl

end Registry

end IceCube

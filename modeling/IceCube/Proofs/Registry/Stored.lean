import IceCube.Proofs.Cache
import IceCube.Proofs.Json.File
import IceCube.Proofs.Registry.Ownership

/-!
# Storing a registry and loading it again

A cache file keys the components by their names, which loses nothing because names have one owner.
What is loaded from it into an empty registry is under the same identifiers, and each component is
the projection of the record that was stored.
-/

namespace IceCube

open Step

/-- What the checks of the fields of a record ask for. -/
structure Record.Valid (r : Record) : Prop where
  identifier : r.identifier ≠ ""
  componentName : r.componentName ≠ ""
  digest : Schema.isDigest r.digest = true

theorem Record.Valid.toCached {r : Record} (h : r.Valid) (includeStyles : Bool) :
    (r.toCached includeStyles).Valid := ⟨h.identifier, h.componentName, h.digest⟩

/-- Projecting a projection changes nothing. -/
theorem Record.toCached_cached (r : Record) (includeStyles : Bool) :
    (Record.cached (r.toCached includeStyles)).toCached includeStyles = r.toCached includeStyles := by
  cases includeStyles <;> rfl

/-- A record is valid exactly if its projection passes the checks of its own fields. -/
theorem Record.valid_iff_check (r : Record) (includeStyles : Bool) (w : Schema.Wording) :
    r.Valid ↔ Schema.cachedComponent w (Json.obj (r.toCached includeStyles).members) =
      .good (r.toCached includeStyles) := by
  rw [← CachedComponent.valid_iff_check]
  constructor
  · exact fun h ↦ h.toCached includeStyles
  · exact fun h ↦ ⟨h.identifier, h.componentName, h.digest⟩

namespace Registry

variable {r : Registry}

/-! ## The cache of a registry -/

theorem Coherent.nodup_componentNames (h : Coherent r) :
    (r.records.map fun e ↦ e.2.componentName).Nodup := by
  refine List.Nodup.map_on (fun a ha b hb hab ↦ ?_) (List.Nodup.of_map Prod.fst h.nodup)
  have hidentifier := h.identifier_eq ((Table.get?_eq_some_iff h.nodup).mpr ha)
    ((Table.get?_eq_some_iff h.nodup).mpr hb) hab
  exact List.inj_on_of_nodup_map h.nodup ha hb hidentifier

theorem Coherent.nodup_names_values (h : Coherent r) :
    (r.records.values.map Record.componentName).Nodup := by
  rw [Table.values, List.map_map]
  exact h.nodup_componentNames

/-- No projection takes the place of another one in a cache. -/
theorem Coherent.components_toCache (h : Coherent r) (includeStyles : Bool) :
    (r.toCache includeStyles).components =
      (r.records.values.mergeSort fun a b ↦ decide (a.componentName ≤ b.componentName)).map
        fun record ↦ (record.componentName, record.toCached includeStyles) := by
  refine Table.ofEntries_eq_self ?_
  rw [Table.keys, List.map_map, ((List.mergeSort_perm _ _).map _).nodup_iff, Table.values,
    List.map_map]
  exact h.nodup_componentNames

/-- A cache has the projections of all records under their names. -/
theorem Coherent.toCache_perm (h : Coherent r) (includeStyles : Bool) :
    (r.toCache includeStyles).components.Perm
      (r.records.map fun e ↦ (e.2.componentName, e.2.toCached includeStyles)) := by
  rw [h.components_toCache]
  refine ((List.mergeSort_perm _ _).map _).trans (.of_eq ?_)
  rw [Table.values, List.map_map]
  rfl

theorem Coherent.nodup_keys_toCache (h : Coherent r) (includeStyles : Bool) :
    (Table.keys (r.toCache includeStyles).components).Nodup := by
  rw [Table.keys, ((h.toCache_perm includeStyles).map Prod.fst).nodup_iff, List.map_map]
  exact h.nodup_componentNames

/-- The cache of valid records is read back as it is. -/
theorem Coherent.valid_toCache (h : Coherent r)
    (hvalid : ∀ i record, r.get? i = some record → record.Valid) (includeStyles : Bool) :
    (r.toCache includeStyles).Valid where
  nodup := h.nodup_keys_toCache includeStyles
  components := by
    intro e he
    have hperm := h.toCache_perm includeStyles
    obtain ⟨⟨i, record⟩, hmem, rfl⟩ := List.mem_map.mp (hperm.mem_iff.mp he)
    exact (hvalid i record ((Table.get?_eq_some_iff h.nodup).mpr hmem)).toCached includeStyles

/-- No name in the cache of a registry collides in an empty one. -/
theorem Coherent.registerAll_toCache (h : Coherent r) (includeStyles : Bool) :
    Registry.empty.registerAll (r.toCache includeStyles).components.values =
      .ok (Registry.empty.putAll (r.toCache includeStyles).components.values) := by
  have hnames : ((r.toCache includeStyles).components.values.map
      CachedComponent.componentName).Nodup := by
    rw [Table.values, List.map_map, ((h.toCache_perm includeStyles).map _).nodup_iff, List.map_map]
    exact h.nodup_componentNames
  exact (firstCollision?_eq_none_iff _ _).mp (firstCollision?_of_nodup hnames)

/-- Loading the cache of a registry into an empty one gives the projections of its records under the
same identifiers. -/
theorem Coherent.get?_putAll_toCache (h : Coherent r)
    (hown : ∀ i record, r.get? i = some record → record.identifier = i) (includeStyles : Bool)
    (i : String) :
    (Registry.empty.putAll (r.toCache includeStyles).components.values).get? i =
      (r.get? i).map fun record ↦ .cached (record.toCached includeStyles) := by
  have hperm : ((r.toCache includeStyles).components.values.map fun c ↦
      (c.identifier, Record.cached c)).reverse.Perm
        (r.records.map fun e ↦ (e.1, .cached (e.2.toCached includeStyles))) := by
    refine (List.reverse_perm _).trans ?_
    rw [Table.values, List.map_map]
    refine ((h.toCache_perm includeStyles).map _).trans (.of_eq ?_)
    rw [List.map_map]
    refine List.map_congr_left fun e he ↦ ?_
    have hidentifier := hown e.1 e.2 ((Table.get?_eq_some_iff h.nodup).mpr he)
    simp only [Function.comp_apply, Record.toCached, hidentifier]
  have hnodup : (Table.keys (r.records.map fun e ↦
      (e.1, Record.cached (e.2.toCached includeStyles)))).Nodup := by
    rw [Table.keys, List.map_map]
    exact h.nodup
  have hempty : Registry.empty.get? i = none := rfl
  rw [get?_putAll, hempty, Option.or_none,
    Table.get?_perm ((hperm.map Prod.fst).nodup_iff.mpr hnodup) hperm]
  exact Table.get?_map (fun record ↦ Record.cached (record.toCached includeStyles)) r.records i

theorem Coherent.getByName?_putAll_toCache (h : Coherent r)
    (hown : ∀ i record, r.get? i = some record → record.identifier = i) (includeStyles : Bool)
    {i : String} {record : Record} (hi : r.get? i = some record) :
    (Registry.empty.putAll (r.toCache includeStyles).components.values).getByName?
      record.componentName = some (.cached (record.toCached includeStyles)) := by
  have hcoherent := coherent_lasting.registerAll .empty
    (h.registerAll_toCache includeStyles)
  have hget := h.get?_putAll_toCache hown includeStyles i
  rw [hi] at hget
  exact hcoherent.getByName? hget

/-! ## The cache file of a registry -/

theorem outcome_writeIfChanged {p : Path} {text : String} {s s' : Workspace} {b : Bool}
    (h : outcome (Build.writeIfChanged p text) s = (.ok b, s')) :
    s'.files.read p = .ok (Utf8.encode text) := by
  cases hw : s.files.writeIfChanged FileTree.undisturbed p (Utf8.encode text) with
  | mk result files =>
    cases result with
    | error fault => simp [Build.writeIfChanged, hw, Build.ofFault] at h
    | ok b' =>
      simp only [Build.writeIfChanged, outcome_get_bind, hw, outcome_modify_bind, Build.ofFault,
        outcome_pure, Prod.mk.injEq] at h
      rw [← h.2]
      exact FileTree.read_writeIfChanged hw

theorem read_of_storeCache {p q : Path} {includeStyles : Bool} {s s' : Workspace}
    (h : outcome (storeCache p includeStyles) s = (.ok q, s')) :
    s'.files.read p = .ok (Utf8.encode (s.registry.toCache includeStyles).write) := by
  rw [storeCache, outcome_get_bind] at h
  obtain ⟨-, s₁, -, h⟩ := outcome_bind_eq_ok.mp h
  obtain ⟨b, s₂, hwrite, h⟩ := outcome_bind_eq_ok.mp h
  have hread := outcome_writeIfChanged hwrite
  simp [Build.note] at h
  rw [← h.2]
  exact hread

/-- A cache that a registry was stored in can be loaded into an empty registry. -/
theorem loadable_of_storeCache (hr : Coherent r)
    (hvalid : ∀ i record, r.get? i = some record → record.Valid) {p : Path} {includeStyles : Bool}
    {s : Workspace} (hregistry : s.registry = .empty)
    (hread : s.files.read p = .ok (Utf8.encode (r.toCache includeStyles).write)) :
    Loadable s p (r.toCache includeStyles) where
  reads := ⟨_, Json.readText_write _ _ hread, (hr.valid_toCache hvalid includeStyles).read⟩
  version := rfl
  registers := by
    rw [hregistry]
    exact ⟨_, hr.registerAll_toCache includeStyles⟩

/-- A cache loses nothing: after a registry is stored, an empty registry can be filled from the
file, and then has under the same identifiers the projections of the same records, each of which is
found under the name of its component. -/
theorem loadCache_storeCache {w : World} (hw : Reachable w) (home : RegistryId)
    (hown : ∀ i record, (w.registry home).get? i = some record → record.identifier = i)
    (hvalid : ∀ i record, (w.registry home).get? i = some record → record.Valid)
    {p q : Path} {includeStyles : Bool} {s : Workspace}
    (hstore : outcome (storeCache p includeStyles) (w.workspace home) = (.ok q, s))
    {fresh : Workspace} (hfiles : fresh.files = s.files) (hregistry : fresh.registry = .empty) :
    ∃ r log, outcome (loadCache p) fresh = (.ok true, { fresh with registry := r, log := log }) ∧
      (∀ i, r.get? i = ((w.registry home).get? i).map fun record ↦
        .cached (record.toCached includeStyles)) ∧
      (∀ i record, (w.registry home).get? i = some record →
        r.getByName? record.componentName = some (.cached (record.toCached includeStyles))) := by
  have hr := Coherent.of_reachable hw home
  have hread := read_of_storeCache hstore
  rw [← hfiles] at hread
  have hload := outcome_loadCache_of_loadable (loadable_of_storeCache hr hvalid hregistry hread)
  rw [hregistry] at hload
  exact ⟨_, _, hload, hr.get?_putAll_toCache hown includeStyles,
    fun i record hi ↦ hr.getByName?_putAll_toCache hown includeStyles hi⟩

/-- A compiled card with quotes, control characters and letters outside ASCII in its texts, and an
address that is empty. -/
def quotedCard : CompiledComponent where
  identifier := "app.Card"
  componentName := "app_Card"
  codeSection := "pass"
  scriptSection := none
  styleBlocks := []
  digest := "0123abcd"
  compiledCodePath := "out/\\card\".py"
  compiledAssetsBasePath := "out/\t\x01card"
  compiledScript := ""
  compiledStyle := some "é\r\n😀"
  scriptUrl := some ""

/-- A world in which the card is registered. -/
def quotedWorld : World :=
  (outcome (Request.register "main" "app.Card" (.compiled quotedCard)).run
    (.start (.empty []) ⟨none, none⟩)).2

/-- A file in the current directory. -/
def quotedPath : Path := ⟨.relative, ["cache.json"]⟩

/-- The files after the registry of the card is stored without its styles. -/
def quotedFiles : FileTree :=
  (outcome (storeCache quotedPath false) (quotedWorld.workspace "main")).2.files

theorem quoted_card_survives :
    Reachable quotedWorld ∧
    (outcome (storeCache quotedPath false) (quotedWorld.workspace "main")).1 = .ok quotedPath ∧
    ∃ r log, outcome (loadCache quotedPath) ⟨quotedFiles, .empty, []⟩ =
        (.ok true, ⟨quotedFiles, r, log⟩) ∧
      r.get? "app.Card" = some (.cached ((Record.compiled quotedCard).toCached false)) ∧
      r.getByName? "app_Card" = some (.cached ((Record.compiled quotedCard).toCached false)) := by
  have hw : Reachable quotedWorld := .request (.start _ _) _
  have honly : ∀ i record, (quotedWorld.registry "main").get? i = some record →
      i = "app.Card" ∧ record = .compiled quotedCard := by
    intro i record h
    have hmem : (i, record) ∈ [("app.Card", .compiled quotedCard)] := Table.mem_of_get? h
    simpa using hmem
  have hvalid : (Record.compiled quotedCard).Valid := ⟨by decide, by decide, by decide +kernel⟩
  have hstore : outcome (storeCache quotedPath false) (quotedWorld.workspace "main") =
      (.ok quotedPath, (outcome (storeCache quotedPath false) (quotedWorld.workspace "main")).2) :=
    Prod.ext rfl rfl
  obtain ⟨r, log, hload, hget, hname⟩ := loadCache_storeCache hw "main"
    (fun i record h ↦ by obtain ⟨rfl, rfl⟩ := honly i record h; rfl)
    (fun i record h ↦ by obtain ⟨rfl, rfl⟩ := honly i record h; exact hvalid) hstore
    (show (Workspace.mk quotedFiles .empty []).files = _ from rfl) rfl
  exact ⟨hw, rfl, r, log, hload, hget "app.Card", hname "app.Card" _ rfl⟩

end Registry

end IceCube

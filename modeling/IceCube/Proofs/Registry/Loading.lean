import IceCube.Proofs.Step
import IceCube.Proofs.Table
import IceCube.Registry.Store

/-!
# Filling a registry from a cache

Before anything is registered, a dry run over the cached components looks for a name that its
identifier cannot own.  The dry run keeps a table of owners of its own, and that table agrees at
every component with the owners of the registry that the components so far would give.  So the dry
run finds a collision exactly where registering would fail, and a cache is taken whole or not at
all.
-/

namespace IceCube.Registry

open Build Step

variable {r r' : Registry}

/-! ## Registering -/

/-- The registry with a record under an identifier, whoever owned the name of the component. -/
def put (r : Registry) (identifier : String) (record : Record) : Registry :=
  { r with
    records := Table.insert r.records identifier record
    owners := Table.insert r.owners record.componentName identifier }

theorem get?_put (r : Registry) (i j : String) (record : Record) :
    (r.put i record).get? j = if i = j then some record else r.get? j :=
  Table.get?_insert r.records i j record

theorem owner_put (r : Registry) (i : String) (record : Record) (name : String) :
    Table.get? (r.put i record).owners name =
      if record.componentName = name then some i else Table.get? r.owners name :=
  Table.get?_insert r.owners record.componentName name i

@[simp] theorem records_attach (r : Registry) (c : Compiler) : (r.attach c).records = r.records := by
  unfold attach
  split <;> rfl

@[simp] theorem owners_attach (r : Registry) (c : Compiler) : (r.attach c).owners = r.owners := by
  unfold attach
  split <;> rfl

@[simp] theorem loaded_attach (r : Registry) (c : Compiler) : (r.attach c).loaded = r.loaded := by
  unfold attach
  split <;> rfl

/-- A record is registered unless another identifier owns its name. -/
theorem register_eq (r : Registry) (i : String) (record : Record) :
    r.register i record = match Table.get? r.owners record.componentName with
      | some j => if j = i then .ok (r.put i record)
        else .error (.nameCollision record.componentName i j)
      | none => .ok (r.put i record) := by
  unfold register checkName
  cases Table.get? r.owners record.componentName with
  | none => rfl
  | some j => by_cases h : j = i <;> simp [h, bind, Except.bind, put, pure, Except.pure]

theorem register_eq_ok_iff {i : String} {record : Record} :
    r.register i record = .ok r' ↔
      (∀ j, Table.get? r.owners record.componentName = some j → j = i) ∧ r' = r.put i record := by
  rw [register_eq]
  cases Table.get? r.owners record.componentName with
  | none => simp [eq_comm]
  | some j =>
    by_cases h : j = i
    · simp [h, eq_comm]
    · simp [h]

theorem register_eq_error_iff {i : String} {record : Record} {f : Failure} :
    r.register i record = .error f ↔
      ∃ j, Table.get? r.owners record.componentName = some j ∧ j ≠ i ∧
        f = .nameCollision record.componentName i j := by
  rw [register_eq]
  cases Table.get? r.owners record.componentName with
  | none => simp
  | some j =>
    by_cases h : j = i
    · simp [h]
    · constructor
      · intro hf
        exact ⟨j, rfl, h, by simpa [h, eq_comm] using hf⟩
      · rintro ⟨_, ⟨⟩, -, rfl⟩
        simp [h]

theorem register_eq_map (r : Registry) (i : String) (record : Record) :
    r.register i record = (r.checkName i record.componentName).map fun _ ↦ r.put i record := by
  unfold register
  cases r.checkName i record.componentName <;> rfl

/-! ## Registering all components of a cache -/

/-- The registry with all components of a cache, later ones in place of earlier ones. -/
def putAll (r : Registry) (cached : List CachedComponent) : Registry :=
  { r with
    records := Table.insertAll r.records (cached.map fun c ↦ (c.identifier, .cached c))
    owners := Table.insertAll r.owners (cached.map fun c ↦ (c.componentName, c.identifier)) }

@[simp] theorem putAll_nil (r : Registry) : r.putAll [] = r := rfl

@[simp] theorem putAll_cons (r : Registry) (c : CachedComponent) (cs : List CachedComponent) :
    r.putAll (c :: cs) = (r.put c.identifier (.cached c)).putAll cs := rfl

/-- Under an identifier is the last component of the cache that names it, else what was there. -/
theorem get?_putAll (r : Registry) (cs : List CachedComponent) (i : String) :
    (r.putAll cs).get? i =
      (Table.get? (cs.map fun c ↦ (c.identifier, Record.cached c)).reverse i).or (r.get? i) :=
  Table.get?_insertAll r.records _ i

/-- A name is owned by the last component of the cache that has it, else as it was. -/
theorem owner_putAll (r : Registry) (cs : List CachedComponent) (name : String) :
    Table.get? (r.putAll cs).owners name =
      (Table.get? (cs.map fun c ↦ (c.componentName, c.identifier)).reverse name).or
        (Table.get? r.owners name) :=
  Table.get?_insertAll r.owners _ name

theorem registerAll_cons (r : Registry) (c : CachedComponent) (cs : List CachedComponent) :
    r.registerAll (c :: cs) =
      (r.register c.identifier (.cached c)).bind fun r ↦ r.registerAll cs := rfl

/-- The dry run goes on with the owners that registering the component would leave. -/
theorem firstCollision?_cons (r : Registry) (c : CachedComponent) (cs : List CachedComponent) :
    firstCollision? r.owners (c :: cs) =
      if ∀ j, Table.get? r.owners c.componentName = some j → j = c.identifier then
        firstCollision? (r.put c.identifier (.cached c)).owners cs
      else some c.componentName := by
  rw [firstCollision?, Table.getOrInsert_eq]
  cases h : Table.get? r.owners c.componentName with
  | none => simp [put, Record.componentName]
  | some j =>
    by_cases hj : j = c.identifier
    · simp [hj, put, Record.componentName]
    · simp [hj]

/-- The dry run finds a collision exactly where registering the components fails, and where it finds
none they all replace what was there. -/
theorem registerAll_eq (r : Registry) (cs : List CachedComponent) :
    match firstCollision? r.owners cs with
    | none => r.registerAll cs = .ok (r.putAll cs)
    | some name => ∃ i j, r.registerAll cs = .error (.nameCollision name i j) := by
  -- the owners of the dry run are those of the registry, so the induction is over all registries
  induction cs generalizing r with
  | nil => rfl
  | cons c cs ih =>
    rw [firstCollision?_cons, registerAll_cons]
    split_ifs with h
    · rw [register_eq_ok_iff.mpr ⟨h, rfl⟩]
      exact ih (r.put c.identifier (.cached c))
    · push Not at h
      obtain ⟨j, hj, hne⟩ := h
      exact ⟨c.identifier, j, by
        rw [register_eq_error_iff.mpr ⟨j, hj, hne, rfl⟩]
        rfl⟩

theorem firstCollision?_eq_none_iff (r : Registry) (cs : List CachedComponent) :
    firstCollision? r.owners cs = none ↔ r.registerAll cs = .ok (r.putAll cs) := by
  have h := registerAll_eq r cs
  cases hc : firstCollision? r.owners cs with
  | none => simpa [hc] using h
  | some name =>
    simp only [hc] at h
    obtain ⟨i, j, h⟩ := h
    simp [h]

theorem registerAll_eq_ok_iff (r r' : Registry) (cs : List CachedComponent) :
    r.registerAll cs = .ok r' ↔ firstCollision? r.owners cs = none ∧ r' = r.putAll cs := by
  constructor
  · intro h
    have hnone : firstCollision? r.owners cs = none := by
      have hcs := registerAll_eq r cs
      cases hc : firstCollision? r.owners cs with
      | none => rfl
      | some name =>
        simp only [hc] at hcs
        obtain ⟨i, j, hij⟩ := hcs
        simp [h] at hij
    have hall := (firstCollision?_eq_none_iff r cs).mp hnone
    exact ⟨hnone, by simpa [h] using hall⟩
  · rintro ⟨hnone, rfl⟩
    exact (firstCollision?_eq_none_iff r cs).mp hnone

/-- There is no collision among new names that are distinct. -/
theorem firstCollision?_of_nodup {owners : Table String String} {cs : List CachedComponent}
    (h : (Table.keys owners ++ cs.map CachedComponent.componentName).Nodup) :
    firstCollision? owners cs = none := by
  induction cs generalizing owners with
  | nil => rfl
  | cons c cs ih =>
    have hnew : c.componentName ∉ Table.keys owners := by
      intro hmem
      exact (List.nodup_append.mp h).2.2 _ hmem _ (by simp) rfl
    have hnone := Table.get?_eq_none_iff.mpr hnew
    rw [firstCollision?, Table.getOrInsert_eq, hnone]
    simp only [Option.getD_none, if_true]
    refine ih ?_
    rw [Table.insert_of_get?_eq_none hnone]
    simpa [Table.keys] using h

/-! ## Loading a cache file -/

/-- A file from which a registry can be filled: its text writes a cache of the present version, and
the components of that cache register one after the other. -/
structure Loadable (s : Workspace) (p : Path) (cache : Cache) : Prop where
  reads : ∃ text, Config.readText s.files p = .ok text ∧ Cache.read text = .good cache
  version : cache.version = Cache.formatVersion
  registers : ∃ r, s.registry.registerAll cache.components.values = .ok r

/-- A text is usable where it writes a cache of the present version in which the dry run finds no
collision. -/
theorem usable_eq_ok_iff {text : String} {cache : Cache} :
    r.usable text = .ok cache ↔ Cache.read text = .good cache ∧
      cache.version = Cache.formatVersion ∧
      firstCollision? r.owners cache.components.values = none := by
  unfold usable
  cases Cache.read text with
  | bad issues => simp
  | good c =>
    by_cases hv : c.version = Cache.formatVersion
    · cases hc : firstCollision? r.owners c.components.values with
      | none =>
        simp only [hv, hc, ne_eq, not_true_eq_false, if_false, Except.ok.injEq,
          Schema.Verdict.good.injEq]
        constructor
        · rintro rfl
          exact ⟨rfl, hv, hc⟩
        · exact fun h ↦ h.1
      | some name =>
        simp only [hv, hc, ne_eq, not_true_eq_false, if_false, Schema.Verdict.good.injEq]
        constructor
        · simp
        · rintro ⟨rfl, -, hnone⟩
          simp [hc] at hnone
    · simp only [hv, ne_eq, not_false_eq_true, if_true, Schema.Verdict.good.injEq]
      constructor
      · simp
      · rintro ⟨rfl, hv', -⟩
        exact absurd hv' hv

theorem loadable_iff {s : Workspace} {p : Path} {cache : Cache} :
    Loadable s p cache ↔
      ∃ text, Config.readText s.files p = .ok text ∧ s.registry.usable text = .ok cache := by
  constructor
  · rintro ⟨⟨text, ht, hc⟩, hv, r, hr⟩
    exact ⟨text, ht, usable_eq_ok_iff.mpr ⟨hc, hv, ((registerAll_eq_ok_iff _ _ _).mp hr).1⟩⟩
  · rintro ⟨text, ht, hu⟩
    obtain ⟨hc, hv, hnone⟩ := usable_eq_ok_iff.mp hu
    exact ⟨⟨text, ht, hc⟩, hv, _, (firstCollision?_eq_none_iff _ _).mp hnone⟩

/-- A file that can be loaded is loaded whole. -/
theorem outcome_loadCache_of_loadable {s : Workspace} {p : Path} {cache : Cache}
    (h : Loadable s p cache) :
    outcome (loadCache p) s = (.ok true,
      { s with
        registry := s.registry.putAll cache.components.values
        log := s.log ++ [.cacheLoaded cache.components.length] }) := by
  obtain ⟨r, hr⟩ := h.registers
  obtain ⟨-, rfl⟩ := (registerAll_eq_ok_iff _ _ _).mp hr
  obtain ⟨text, ht, hu⟩ := loadable_iff.mp h
  simp [loadCache, ht, hu, changeRegistry, hr, note]

/-- A file that cannot be loaded leaves one line in the log and nothing else. -/
theorem outcome_loadCache_of_not_loadable {s : Workspace} {p : Path}
    (h : ∀ cache, ¬ Loadable s p cache) :
    ∃ e, outcome (loadCache p) s = (.ok false, { s with log := s.log ++ [e] }) := by
  cases ht : Config.readText s.files p with
  | error e => exact ⟨.cacheUnavailable, by simp [loadCache, ht, note]⟩
  | ok text =>
    cases hu : s.registry.usable text with
    | error e => exact ⟨e, by simp [loadCache, ht, hu, note]⟩
    | ok cache => exact absurd (loadable_iff.mpr ⟨text, ht, hu⟩) (h cache)

/-- A cache is loaded whole or not at all, and no collision comes out of loading it: whatever is at
the path, either the file can be loaded and all its components replace what the registry has under
their identifiers and names, later ones before earlier ones, or the registry stays as it is.  The
dry run over the components of a cache finds a collision exactly where registering them fails. -/
theorem loadCache_all_or_nothing (p : Path) (s : Workspace) :
    (∀ cs, match firstCollision? s.registry.owners cs with
      | none => s.registry.registerAll cs = .ok (s.registry.putAll cs)
      | some name => ∃ i j, s.registry.registerAll cs = .error (.nameCollision name i j)) ∧
    ((∃ cache r log, Loadable s p cache ∧
        outcome (loadCache p) s = (.ok true, { s with registry := r, log := log }) ∧
        r = s.registry.putAll cache.components.values ∧
        (∀ i, r.get? i = (Table.get? (cache.components.values.map fun c ↦
          (c.identifier, Record.cached c)).reverse i).or (s.registry.get? i)) ∧
        (∀ name, Table.get? r.owners name = (Table.get? (cache.components.values.map fun c ↦
          (c.componentName, c.identifier)).reverse name).or (Table.get? s.registry.owners name))) ∨
      ((∀ cache, ¬ Loadable s p cache) ∧
        ∃ log, outcome (loadCache p) s = (.ok false, { s with log := log }))) := by
  refine ⟨registerAll_eq s.registry, ?_⟩
  by_cases h : ∃ cache, Loadable s p cache
  · obtain ⟨cache, hl⟩ := h
    exact .inl ⟨cache, _, _, hl, outcome_loadCache_of_loadable hl, rfl,
      get?_putAll s.registry cache.components.values,
      owner_putAll s.registry cache.components.values⟩
  · push Not at h
    obtain ⟨e, he⟩ := outcome_loadCache_of_not_loadable h
    exact .inr ⟨h, _, he⟩

end IceCube.Registry

import IceCube.Proofs.Registry.Ownership

/-!
# Registering one record after another

Whether records can be registered one after the other depends on the owners of names only, and where
the names are distinct, no record is in the way of another one.  So the order does not matter, and
registries with the same owners of names take the same records.
-/

namespace IceCube.Registry

variable {r r' : Registry} {es : List (String × Record)}

/-- The registry with records under their identifiers, up to the first that cannot have its name. -/
def registerEach (r : Registry) (es : List (String × Record)) : Except Failure Registry :=
  es.foldlM (fun r e ↦ r.register e.1 e.2) r

/-- The registry with records under their identifiers, whoever owned their names. -/
def putEach (r : Registry) (es : List (String × Record)) : Registry :=
  es.foldl (fun r e ↦ r.put e.1 e.2) r

theorem registerEach_cons (r : Registry) (e : String × Record) (es : List (String × Record)) :
    r.registerEach (e :: es) = (r.register e.1 e.2).bind fun r ↦ r.registerEach es := rfl

theorem records_putEach (r : Registry) (es : List (String × Record)) :
    (r.putEach es).records = Table.insertAll r.records es := by
  induction es generalizing r with
  | nil => rfl
  | cons e es ih => exact ih (r.put e.1 e.2)

theorem owners_putEach (r : Registry) (es : List (String × Record)) :
    (r.putEach es).owners =
      Table.insertAll r.owners (es.map fun e ↦ (e.2.componentName, e.1)) := by
  induction es generalizing r with
  | nil => rfl
  | cons e es ih => exact ih (r.put e.1 e.2)

theorem get?_putEach (r : Registry) (es : List (String × Record)) (i : String) :
    (r.putEach es).get? i = (Table.get? es.reverse i).or (r.get? i) := by
  rw [get?, records_putEach]
  exact Table.get?_insertAll r.records es i

theorem owner_putEach (r : Registry) (es : List (String × Record)) (name : String) :
    Table.get? (r.putEach es).owners name =
      (Table.get? (es.map fun e ↦ (e.2.componentName, e.1)).reverse name).or
        (Table.get? r.owners name) := by
  rw [owners_putEach]
  exact Table.get?_insertAll r.owners _ name

theorem registerEach_eq_ok (h : r.registerEach es = .ok r') : r' = r.putEach es := by
  induction es generalizing r with
  | nil =>
    cases h
    rfl
  | cons e es ih =>
    rw [registerEach_cons] at h
    cases he : r.register e.1 e.2 with
    | error f => simp [he, Except.bind] at h
    | ok r₁ =>
      obtain ⟨-, rfl⟩ := register_eq_ok_iff.mp he
      rw [he] at h
      exact ih h

/-- Records under new and distinct identifiers come after what was there. -/
theorem records_of_registerEach (h : r.registerEach es = .ok r')
    (hnodup : (Table.keys (r.records ++ es)).Nodup) : r'.records = r.records ++ es := by
  rw [registerEach_eq_ok h, records_putEach, Table.insertAll_eq_append hnodup]

/-! ## Records of distinct names -/

/-- Records of distinct names can be registered exactly if each can be registered alone. -/
theorem registerEach_of_nodup (hnodup : (es.map fun e ↦ e.2.componentName).Nodup) :
    (∃ r', r.registerEach es = .ok r') ↔
      ∀ e ∈ es, ∀ j, Table.get? r.owners e.2.componentName = some j → j = e.1 := by
  induction es generalizing r with
  | nil => exact ⟨fun _ ↦ by simp, fun _ ↦ ⟨r, rfl⟩⟩
  | cons e es ih =>
    obtain ⟨hnew, hnodup⟩ := List.nodup_cons.mp hnodup
    rw [List.forall_mem_cons, registerEach_cons]
    by_cases howner : ∀ j, Table.get? r.owners e.2.componentName = some j → j = e.1
    · rw [register_eq_ok_iff.mpr ⟨howner, rfl⟩]
      -- registering the first record changes the owner of no other name
      have hother : ∀ e' ∈ es, Table.get? (r.put e.1 e.2).owners e'.2.componentName =
          Table.get? r.owners e'.2.componentName := by
        intro e' he'
        rw [owner_put, if_neg]
        intro heq
        exact hnew (List.mem_map.mpr ⟨e', he', heq.symm⟩)
      refine (ih hnodup).trans ?_
      constructor
      · exact fun h ↦ ⟨howner, fun e' he' ↦ hother e' he' ▸ h e' he'⟩
      · exact fun h e' he' ↦ hother e' he' ▸ h.2 e' he'
    · constructor
      · rintro ⟨r', h⟩
        push Not at howner
        obtain ⟨j, hj, hne⟩ := howner
        rw [register_eq_error_iff.mpr ⟨j, hj, hne, rfl⟩] at h
        cases h
      · exact fun h ↦ absurd h.1 howner

/-- What a registry can register in one form and one order, a registry with the same owners of names
can register in another one. -/
theorem registerEach_of_perm {q : Registry} {as bs : List (String × Record)} {includeStyles : Bool}
    (howners : ∀ name, Table.get? q.owners name = Table.get? r.owners name)
    (hperm : (as.map fun x ↦ (x.1, x.2.toCached includeStyles)).Perm
      (bs.map fun x ↦ (x.1, x.2.toCached includeStyles)))
    (hnames : (bs.map fun x ↦ x.2.componentName).Nodup)
    (hq : ∃ q', q.registerEach as = .ok q') : ∃ r', r.registerEach bs = .ok r' := by
  have hpairs := hperm.map fun x ↦ (x.2.componentName, x.1)
  rw [List.map_map, List.map_map] at hpairs
  have hnames' : (as.map fun x ↦ x.2.componentName).Nodup := by
    have hfirst := hpairs.map Prod.fst
    rw [List.map_map, List.map_map] at hfirst
    exact hfirst.nodup_iff.mpr hnames
  rw [registerEach_of_nodup hnames'] at hq
  rw [registerEach_of_nodup hnames]
  intro y hy j hj
  have hmem := hpairs.mem_iff.mpr (List.mem_map_of_mem hy)
  obtain ⟨x, hx, hxy⟩ := List.mem_map.mp hmem
  obtain ⟨hname, hkey⟩ := Prod.mk.injEq .. ▸ hxy
  rw [← howners, ← show x.2.componentName = y.2.componentName from hname] at hj
  exact (hq x hx j hj).trans hkey

/-- Registries with the same owners of names turn down the same records, for the same reason. -/
theorem registerEach_eq_error_iff {q : Registry} {f : Failure}
    (h : ∀ name, Table.get? q.owners name = Table.get? r.owners name) :
    q.registerEach es = .error f ↔ r.registerEach es = .error f := by
  induction es generalizing q r with
  | nil => exact ⟨nofun, nofun⟩
  | cons e es ih =>
    rw [registerEach_cons, registerEach_cons, register_eq, register_eq, h]
    have hput : ∀ name, Table.get? (q.put e.1 e.2).owners name =
        Table.get? (r.put e.1 e.2).owners name := by
      intro name
      rw [owner_put, owner_put, h]
    cases Table.get? r.owners e.2.componentName with
    | none => exact ih hput
    | some j =>
      dsimp only
      split
      · exact ih hput
      · exact Iff.rfl

/-- Only a collision of names can be in the way. -/
theorem exists_of_registerEach_eq_error {xs : List (String × Record)} {f : Failure}
    (h : r.registerEach xs = .error f) : ∃ name i j, f = .nameCollision name i j := by
  induction xs generalizing r with
  | nil => cases h
  | cons x xs ih =>
    rw [registerEach_cons] at h
    cases hx : r.register x.1 x.2 with
    | error g =>
      obtain ⟨j, -, -, rfl⟩ := register_eq_error_iff.mp hx
      rw [hx] at h
      cases h
      exact ⟨_, _, j, rfl⟩
    | ok r' =>
      rw [hx] at h
      exact ih h

/-! ## Identifiers that are registered -/

/-- Registering many records is a change as well. -/
theorem kept_registerEach {P : Registry → Prop} (hP : Kept P) (hr : P r)
    (h : r.registerEach es = .ok r') : P r' := by
  induction es generalizing r with
  | nil =>
    cases h
    exact hr
  | cons e es ih =>
    rw [registerEach_cons] at h
    obtain ⟨r₁, hr₁, h⟩ := Step.except_bind_eq_ok.mp h
    exact ih (hP.register hr hr₁) h

/-- A registry has a record of an identifier, which owns the name that its component gets. -/
structure Knows (r : Registry) (i : String) : Prop where
  record : r.get? i ≠ none
  owner : Table.get? r.owners (Identifier.flatten i) = some i

/-- No other identifier gets the name. -/
theorem knows_kept (i : String) : Kept fun r ↦ r.Knows i where
  register {r r' j record} h hr := by
    obtain ⟨howner, rfl⟩ := register_eq_ok_iff.mp hr
    refine ⟨?_, ?_⟩
    · rw [get?_put]
      split_ifs
      · simp
      · exact h.record
    · rw [owner_put]
      split_ifs with hname
      · rw [hname] at howner
        rw [howner i h.owner]
      · exact h.owner
  attach c h := ⟨by rw [get?, records_attach]; exact h.record, by rw [owners_attach]; exact h.owner⟩
  setLoaded _ _ h := ⟨h.record, h.owner⟩

theorem knows_of_register {i : String} {record : Record} (h : r.register i record = .ok r')
    (hname : record.componentName = Identifier.flatten i) : r'.Knows i := by
  obtain ⟨-, rfl⟩ := register_eq_ok_iff.mp h
  refine ⟨?_, ?_⟩
  · rw [get?_put, if_pos rfl]
    simp
  · rw [owner_put, if_pos hname]

theorem knows_of_registerEach {i : String} {record : Record} (h : r.registerEach es = .ok r')
    (hmem : (i, record) ∈ es) (hname : record.componentName = Identifier.flatten i) :
    r'.Knows i := by
  induction es generalizing r with
  | nil => cases hmem
  | cons e es ih =>
    rw [registerEach_cons] at h
    obtain ⟨r₁, hr₁, hrest⟩ := Step.except_bind_eq_ok.mp h
    rcases List.mem_cons.mp hmem with rfl | hmem
    · exact kept_registerEach (knows_kept i) (knows_of_register hr₁ hname) hrest
    · exact ih hrest hmem

theorem Knows.isSome_getByName? {i : String} (h : r.Knows i) :
    (r.getByName? (Identifier.flatten i)).isSome = true := by
  rw [getByName?, h.owner, Option.isSome_iff_ne_none]
  exact h.record

/-! ## Caches as lists of records -/

/-- The components of a cache as records under their identifiers. -/
def cachedEntries (cs : List CachedComponent) : List (String × Record) :=
  cs.map fun c ↦ (c.identifier, .cached c)

theorem registerAll_eq_registerEach (r : Registry) (cs : List CachedComponent) :
    r.registerAll cs = r.registerEach (cachedEntries cs) := by
  rw [registerAll, registerEach, cachedEntries, List.foldlM_map]

theorem putAll_eq_putEach (r : Registry) (cs : List CachedComponent) :
    r.putAll cs = r.putEach (cachedEntries cs) := by
  induction cs generalizing r with
  | nil => rfl
  | cons c cs ih => exact ih (r.put c.identifier (.cached c))

end IceCube.Registry

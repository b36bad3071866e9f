import IceCube.Proofs.Registry.Ownership

/-!
# What the names of a registry remember

A registry forgets no name.  Registering an identifier anew replaces its record, and the identifier
goes on to own every name that it was ever registered under.  So the owners of names are the whole
history of registrations, while the records are only the last of them, and a name leads to a record
of another name exactly where an identifier has changed its name on the way.
-/

namespace IceCube

open Step

namespace Registry

/-- A registry and all the registrations that have led to it, in their order. -/
inductive History : List (String × Record) → Registry → Prop where
  | empty : History [] .empty
  | register {es : List (String × Record)} {r r' : Registry} {i : String} {record : Record}
      (h : History es r) (hr : r.register i record = .ok r') : History (es ++ [(i, record)]) r'
  | attach {es : List (String × Record)} {r : Registry} (h : History es r) (c : Compiler) :
      History es (r.attach c)
  | setLoaded {es : List (String × Record)} {r : Registry} (h : History es r) (i : String)
      (c : ClassId) : History es (r.setLoaded i c)

variable {es : List (String × Record)} {r : Registry}

/-- Every registry that changes one after the other lead to has a history. -/
theorem history_lasting : Lasting fun r ↦ ∃ es, History es r where
  empty := ⟨[], .empty⟩
  register := by
    rintro r r' i record ⟨es, h⟩ hr
    exact ⟨_, h.register hr⟩
  attach := by
    rintro r c ⟨es, h⟩
    exact ⟨es, h.attach c⟩
  setLoaded := by
    rintro r i c ⟨es, h⟩
    exact ⟨es, h.setLoaded i c⟩

/-- An identifier owns exactly the names that it was ever registered under. -/
theorem History.owner_iff (h : History es r) {name i : String} :
    Table.get? r.owners name = some i ↔
      ∃ record, (i, record) ∈ es ∧ record.componentName = name := by
  induction h generalizing i with
  | empty => simp [Registry.empty]
  | attach _ c ih => rw [owners_attach, ih]
  | setLoaded _ j c ih => exact ih
  | @register es r r' j record _ hr ih =>
    obtain ⟨howner, rfl⟩ := register_eq_ok_iff.mp hr
    rw [owner_put]
    constructor
    · intro hi
      split_ifs at hi with hname
      · cases hi
        exact ⟨record, by simp, hname⟩
      · obtain ⟨a, ha, rfl⟩ := ih.mp hi
        exact ⟨a, List.mem_append_left _ ha, rfl⟩
    · rintro ⟨a, ha, rfl⟩
      rcases List.mem_append.mp ha with ha | ha
      · have hi := ih.mpr ⟨a, ha, rfl⟩
        split_ifs with hname
        · -- only the owner of a name can be registered under it
          rw [← hname] at hi
          rw [howner i hi]
        · exact hi
      · cases List.mem_singleton.mp ha
        simp

/-- A registry is truthful if every name leads to a record of that name. -/
def Truthful (r : Registry) : Prop :=
  ∀ name record, r.getByName? name = some record → record.componentName = name

/-- Names lead to records of these names exactly if no identifier was ever registered under another
name than that of its record. -/
theorem History.truthful_iff (h : History es r) :
    r.Truthful ↔ ∀ i a b, (i, a) ∈ es → r.get? i = some b → a.componentName = b.componentName := by
  constructor
  · intro ht i a b ha hb
    have howner := h.owner_iff.mpr ⟨a, ha, rfl⟩
    refine (ht a.componentName b ?_).symm
    rw [getByName?, howner]
    exact hb
  · intro hsame name record hrecord
    obtain ⟨i, hi, hget⟩ := Option.bind_eq_some_iff.mp hrecord
    obtain ⟨a, ha, rfl⟩ := h.owner_iff.mp hi
    exact (hsame i a record ha hget).symm

end Registry

/-- In every registry that requests have led to, whatever the registrations on the way, names lead
to records of these names as long as every identifier has kept its name, and no longer. -/
theorem truthful_while_names_are_kept {w : World} (hw : Reachable w) (home : RegistryId) :
    (∃ es, Registry.History es (w.registry home)) ∧
    ∀ es, Registry.History es (w.registry home) →
      ((w.registry home).Truthful ↔ ∀ i a b, (i, a) ∈ es → (w.registry home).get? i = some b →
        a.componentName = b.componentName) :=
  ⟨Registry.history_lasting.of_reachable hw home, fun _ h ↦ h.truthful_iff⟩

/-- A name is kept by an identifier that has a record of another name, and leads to that record. -/
theorem first_name_leads_to_renamed_card :
    Reachable renamedCard ∧
    (renamedCard.registry "main").getByName? "app_Card" = some (namedCard "app_Panel") ∧
    (namedCard "app_Panel").componentName ≠ "app_Card" :=
  ⟨.request (.request (.start _ _) _) _, rfl, by decide⟩

/-- A world in which a card is registered twice under one name. -/
def renewedCard : World :=
  let again : Request := .register "main" "app.Card" (namedCard "app_Card")
  (outcome again.run (outcome again.run (.start (.empty []) ⟨none, none⟩)).2).2

theorem renewed_card_is_truthful :
    Reachable renewedCard ∧ (renewedCard.registry "main").Truthful := by
  have hw : Reachable renewedCard := .request (.request (.start _ _) _) _
  refine ⟨hw, ?_⟩
  obtain ⟨-, hiff⟩ := truthful_while_names_are_kept hw "main"
  have hfirst : Registry.History [("app.Card", namedCard "app_Card")]
      (Registry.empty.put "app.Card" (namedCard "app_Card")) := .register .empty rfl
  have hes : Registry.History
      ([("app.Card", namedCard "app_Card")] ++ [("app.Card", namedCard "app_Card")])
      (renewedCard.registry "main") := hfirst.register rfl
  refine (hiff _ hes).mpr ?_
  intro i a b ha hb
  have hmem : (i, b) ∈ [("app.Card", namedCard "app_Card")] := Table.mem_of_get? hb
  simp_all

end IceCube

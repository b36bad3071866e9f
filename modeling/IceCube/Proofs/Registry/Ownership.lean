import IceCube.Proofs.Registry.Reachable

/-!
# Who owns a name

In every reachable registry each identifier that has a record owns the name of that record.  An
identifier can be registered anew under another name and then goes on to own the old one, but no
record can take a name from an identifier that owns it, so the owner of a name that a record carries
is the identifier of that record.
-/

namespace IceCube

open Step

namespace Registry

/-- Every identifier has at most one record and owns the name of that record. -/
structure Coherent (r : Registry) : Prop where
  nodup : (Table.keys r.records).Nodup
  owned : ∀ {i : String} {record : Record}, r.get? i = some record →
    Table.get? r.owners record.componentName = some i

variable {r r' : Registry}

theorem Coherent.empty : Coherent .empty where
  nodup := List.nodup_nil
  owned h := by simp [get?, Registry.empty] at h

/-- A record that may have its name does not take it from another one. -/
theorem Coherent.register (h : Coherent r) {i : String} {record : Record}
    (hr : r.register i record = .ok r') : Coherent r' := by
  obtain ⟨howner, rfl⟩ := register_eq_ok_iff.mp hr
  refine ⟨Table.nodup_keys_insert h.nodup i record, fun {j other} hj ↦ ?_⟩
  rw [get?_put] at hj
  rw [owner_put]
  split_ifs at hj with hij
  · cases hj
    simp [hij]
  · have hother := h.owned hj
    split_ifs with hname
    · -- the name of the new record would be that of `other`, which `j` owns
      rw [hname] at howner
      exact absurd (howner j hother).symm hij
    · exact hother

theorem Coherent.attach (h : Coherent r) (c : Compiler) : Coherent (r.attach c) := by
  unfold Registry.attach
  split
  · exact h
  · exact ⟨h.nodup, h.owned⟩

theorem coherent_lasting : Lasting Coherent where
  empty := .empty
  register h hr := h.register hr
  attach c h := h.attach c
  setLoaded _ _ h := ⟨h.nodup, h.owned⟩

theorem Coherent.of_reachable {w : World} (hw : Reachable w) (home : RegistryId) :
    Coherent (w.registry home) := coherent_lasting.of_reachable hw home

theorem Coherent.getByName? (h : Coherent r) {i : String} {record : Record}
    (hi : r.get? i = some record) : r.getByName? record.componentName = some record := by
  rw [Registry.getByName?, h.owned hi]
  exact hi

/-- Two identifiers whose records have one name are one. -/
theorem Coherent.identifier_eq (h : Coherent r) {i j : String} {a b : Record}
    (hi : r.get? i = some a) (hj : r.get? j = some b) (hab : a.componentName = b.componentName) :
    i = j := by
  have ha := h.owned hi
  rw [hab, h.owned hj] at ha
  exact (Option.some.inj ha).symm

end Registry

/-- A registration that ends in an error leaves every registry and all else as it was. -/
theorem Request.register_error {home : RegistryId} {i : String} {record : Record} {w v : World}
    {e : Error} (h : outcome (Request.register home i record).run w = (.error e, v)) :
    (∃ j, Table.get? (w.registry home).owners record.componentName = some j ∧ j ≠ i ∧
        e = .failure (.nameCollision record.componentName i j)) ∧
      v = w.withWorkspace home (w.workspace home) := by
  rw [Request.run, Run.outcome_build] at h
  cases hr : (w.registry home).register i record with
  | ok r => simp [Build.changeRegistry, World.workspace, hr] at h
  | error f =>
    obtain ⟨j, hj, hne, rfl⟩ := Registry.register_eq_error_iff.mp hr
    simp only [Build.changeRegistry, outcome_get_bind, World.workspace, hr, Build.fail,
      outcome_throw, Prod.mk.injEq, Except.error.injEq] at h
    exact ⟨⟨j, hj, hne, h.1.symm⟩, h.2.symm⟩

/-- Names are owned uniquely: in a registry that any requests have led to, no two identifiers have
records of one name, and the identifier of a record owns its name, so that the name finds the
record.  A registration is turned down only where another identifier owns the name, and then nothing
has changed. -/
theorem names_have_one_owner {w : World} (hw : Reachable w) (home : RegistryId) :
    (∀ i j a b, (w.registry home).get? i = some a → (w.registry home).get? j = some b →
        i ≠ j → a.componentName ≠ b.componentName) ∧
    (∀ i record, (w.registry home).get? i = some record →
        Table.get? (w.registry home).owners record.componentName = some i ∧
        (w.registry home).getByName? record.componentName = some record) ∧
    (∀ i record e v, outcome (Request.register home i record).run w = (.error e, v) →
        (∃ j, j ≠ i ∧ e = .failure (.nameCollision record.componentName i j)) ∧
        (∀ id, v.registry id = w.registry id) ∧ { v with registries := w.registries } = w) := by
  have h := Registry.Coherent.of_reachable hw home
  refine ⟨fun i j a b hi hj hne hab ↦ hne (h.identifier_eq hi hj hab),
    fun i record hi ↦ ⟨h.owned hi, h.getByName? hi⟩, fun i record e v he ↦ ?_⟩
  obtain ⟨⟨j, -, hne, hf⟩, rfl⟩ := Request.register_error he
  refine ⟨⟨j, hne, hf⟩, fun id ↦ ?_, rfl⟩
  rw [World.registry_withWorkspace]
  split
  · rename_i hid
    rw [← hid]
    rfl
  · rfl

/-- A card under a component name. -/
def namedCard (componentName : String) : Record :=
  .cached ⟨"app.Card", componentName, "out/card.py", "out/card", none, none, "0123abcd"⟩

/-- A world in which a card is registered under one name and then under another. -/
def renamedCard : World :=
  let first : Request := .register "main" "app.Card" (namedCard "app_Card")
  let second : Request := .register "main" "app.Card" (namedCard "app_Panel")
  (outcome second.run (outcome first.run (.start (.empty []) ⟨none, none⟩)).2).2

/-- The card goes on to own its first name: no other identifier can be registered under it. -/
theorem renamed_card_has_one_owner :
    Reachable renamedCard ∧
    (renamedCard.registry "main").getByName? "app_Panel" = some (namedCard "app_Panel") ∧
    ∀ id, (outcome (Request.register "main" "app.Other" (namedCard "app_Card")).run
      renamedCard).2.registry id = renamedCard.registry id := by
  have hw : Reachable renamedCard := .request (.request (.start _ _) _) _
  obtain ⟨-, howned, herror⟩ := names_have_one_owner hw "main"
  exact ⟨hw, (howned "app.Card" _ rfl).2, (herror "app.Other" (namedCard "app_Card") _ _ rfl).2.1⟩

end IceCube

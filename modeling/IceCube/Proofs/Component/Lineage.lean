import IceCube.Component.Class

/-!
# What can be seen of a class

All that is ever asked of a class is asked of the classes that it inherits from, one after the other,
and of what the oldest of them is built on.  So two classes that have these alike cannot be told
apart, whatever their identities are and in whichever tables they stand.
-/

namespace IceCube.Component

/-- A class without the identity of the one that it is built on. -/
def Class.unbased (c : Class) : Class := { c with base := .object }

theorem Class.eq_of_unbased {c c' : Class} (h : c'.unbased = c.unbased) :
    c'.qualifiedName = c.qualifiedName ∧ c'.module = c.module ∧ c'.params = c.params ∧
      c'.init = c.init := by
  rw [unbased, unbased, Class.mk.injEq] at h
  obtain ⟨-, hname, hmodule, -, hparams, hinit, -⟩ := h
  exact ⟨hname, hmodule, hparams, hinit⟩

namespace Classes

variable {cs cs' : Classes} {id id' : Nat}

/-- The classes that a class inherits from, without their identities, and what the oldest of them is
built on. -/
def lineage (cs : Classes) (id : ClassId) : List Class × Base ClassId :=
  ((cs.ancestry id).map Class.unbased, cs.root id)

section Lineage

variable (h : cs'.lineage id' = cs.lineage id)
include h

theorem root_of_lineage : cs'.root id' = cs.root id := by
  have hroot : (cs'.lineage id').2 = (cs.lineage id).2 := congrArg Prod.snd h
  exact hroot

theorem isComponent_of_lineage : cs'.isComponent id' = cs.isComponent id := by
  rw [isComponent, isComponent, root_of_lineage h]

theorem isSingle_of_lineage : cs'.isSingle id' = cs.isSingle id := by
  rw [isSingle, isSingle, root_of_lineage h]

theorem isIce_of_lineage : cs'.isIce id' = cs.isIce id := by
  rw [isIce, isIce, root_of_lineage h]

theorem attribute?_of_lineage (name : String) :
    cs'.attribute? id' name = cs.attribute? id name := by
  have hlineage (cs : Classes) (id : ClassId) : cs.attribute? id name =
      (cs.lineage id).1.findSome? fun c ↦ Table.get? c.attributes name := by
    rw [lineage, List.findSome?_map]
    rfl
  rw [hlineage, hlineage, h]

theorem isConcrete_of_lineage : cs'.isConcrete id' = cs.isConcrete id := by
  rw [isConcrete, isConcrete, root_of_lineage h, attribute?_of_lineage h]

theorem constructor?_of_lineage :
    (cs'.constructor? id').map Class.unbased = (cs.constructor? id).map Class.unbased := by
  have hlineage (cs : Classes) (id : ClassId) : (cs.constructor? id).map Class.unbased =
      (cs.lineage id).1.find? fun c ↦ c.params.isSome := by
    rw [lineage, List.find?_map]
    rfl
  rw [hlineage, hlineage, h]

/-- A class itself is the first of those that it inherits from. -/
theorem class_of_lineage : (cs'[id']?).map Class.unbased = (cs[id]?).map Class.unbased := by
  have hlineage (cs : Classes) (id : ClassId) :
      (cs[id]?).map Class.unbased = (cs.lineage id).1.head? := by
    rw [lineage, List.head?_map, ancestry, chain]
    cases cs[id]? with
    | none => rfl
    | some c =>
      dsimp only
      split <;> rfl
  rw [hlineage, hlineage, h]

end Lineage

/-! ## Classes of one lineage -/

/-- What two classes are built on is the same, or two older classes that are matched. -/
inductive BasesMatch (r : Nat → Nat → Prop) (id id' : Nat) : Base ClassId → Base ClassId → Prop
  | root {b : Base ClassId} (h : ∀ parent, b ≠ .class parent) : BasesMatch r id id' b b
  | parents {p p' : Nat} (h : r p p') (older : p < id) (older' : p' < id') :
      BasesMatch r id id' (.class p) (.class p')

/-- Classes that are matched are there, and are alike up to what they are built on. -/
def Matches (cs cs' : Classes) (r : Nat → Nat → Prop) : Prop :=
  ∀ ⦃id id'⦄, r id id' → ∃ c c', cs[id]? = some c ∧ cs'[id']? = some c' ∧
    c'.unbased = c.unbased ∧ BasesMatch r id id' c.base c'.base

theorem Matches.chain {r : Nat → Nat → Prop} (h : Matches cs cs' r) (hr : r id id')
    {fuel fuel' : Nat} (hfuel : id < fuel) (hfuel' : id' < fuel') :
    ((cs'.chain fuel' id').1.map Class.unbased, (cs'.chain fuel' id').2) =
      ((cs.chain fuel id).1.map Class.unbased, (cs.chain fuel id).2) := by
  induction id using Nat.strongRecOn generalizing id' fuel fuel' with
  | ind id ih =>
    obtain ⟨fuel, rfl⟩ : ∃ n, fuel = n + 1 := ⟨fuel - 1, by omega⟩
    obtain ⟨fuel', rfl⟩ : ∃ n, fuel' = n + 1 := ⟨fuel' - 1, by omega⟩
    obtain ⟨c, c', hc, hc', hunbased, hbase⟩ := h hr
    rw [Classes.chain, Classes.chain, hc, hc']
    dsimp only
    generalize hb : c.base = b at hbase
    generalize hb' : c'.base = b' at hbase
    cases hbase with
    | root hroot =>
      cases b with
      | «class» parent => exact absurd rfl (hroot parent)
      | _ => simp [hunbased]
    | @parents p p' hp older older' =>
      have hparents := ih p older hp (show p < fuel by omega) (show p' < fuel' by omega)
      obtain ⟨hclasses, hroot⟩ := Prod.mk.injEq .. ▸ hparents
      simp only [List.map_cons, hunbased, hclasses, hroot]

/-- Classes that are matched have one lineage. -/
theorem Matches.lineage_eq {r : Nat → Nat → Prop} (h : Matches cs cs' r) (hr : r id id') :
    cs'.lineage id' = cs.lineage id := h.chain hr (Nat.lt_succ_self _) (Nat.lt_succ_self _)

/-- Every class is built on an older one. -/
def Grounded (cs : Classes) : Prop :=
  ∀ ⦃id : Nat⦄ ⦃c : Class⦄, cs[id]? = some c → ∀ parent : Nat, c.base = .class parent → parent < id

/-- A class keeps its lineage as long as the older classes stay. -/
theorem Grounded.lineage_eq {n : Nat} (h : cs.Grounded) (hn : n ≤ cs.length)
    (hsame : ∀ i < n, cs'[i]? = cs[i]?) (hid : id < n) : cs'.lineage id = cs.lineage id := by
  have hmatches : Matches cs cs' fun i i' ↦ i = i' ∧ i < n := by
    rintro i _ ⟨rfl, hi⟩
    have hc := List.getElem?_eq_getElem (l := cs) (i := i) (by omega)
    refine ⟨_, _, hc, (hsame i hi).trans hc, rfl, ?_⟩
    cases hbase : cs[i].base with
    | «class» parent =>
      have holder := h hc parent hbase
      exact .parents ⟨rfl, Nat.lt_trans holder hi⟩ holder holder
    | _ => exact .root (by simp)
  exact hmatches.lineage_eq ⟨rfl, hid⟩

end Classes

end IceCube.Component

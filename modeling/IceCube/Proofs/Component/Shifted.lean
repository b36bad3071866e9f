import IceCube.Component.Module
import IceCube.Proofs.Component.Lineage
import IceCube.Proofs.Step
import IceCube.Proofs.Table

/-!
# Code that is run anywhere

Code that is run makes classes behind those that are there already, and refers to none of the older
ones.  So wherever it is run it makes the same classes, but for the numbers that they get: all of
them are shifted by as many classes as there were before.
-/

namespace IceCube

open Step Component

/-- A world with other classes. -/
def World.withClasses (w : World) (cs : Classes) : World := { w with classes := cs }

@[simp] theorem World.classes_withClasses (w : World) (cs : Classes) :
    (w.withClasses cs).classes = cs := rfl

@[simp] theorem World.withClasses_withClasses (w : World) (cs cs' : Classes) :
    (w.withClasses cs).withClasses cs' = w.withClasses cs' := rfl

theorem World.withClasses_classes (w : World) : w.withClasses w.classes = w := rfl

namespace Component

open Run

variable {n : Nat} {module : String} {scope scope' : Scope} {xs ys : Classes} {w : World}

/-! ## Shifting -/

/-- What a class is built on, when all classes of its code are shifted. -/
def Base.shift (n : Nat) : Base ClassId → Base ClassId
  | .class id => .class (n + id)
  | b => b

/-- A class whose code made its classes after some others. -/
def Class.shift (n : Nat) (c : Class) : Class := { c with base := c.base.shift n }

/-- What a name stands for, when all classes of the code are shifted. -/
def Binding.shift (n : Nat) : Binding → Binding
  | .class id => .class (n + id)
  | .value v => .value v

/-- The names of a module whose classes are shifted. -/
def Scope.shift (n : Nat) (scope : Scope) : Scope := scope.map fun e ↦ (e.1, e.2.shift n)

theorem Scope.get?_shift (name : String) :
    Table.get? (scope.shift n) name = (Table.get? scope name).map (Binding.shift n) :=
  Table.get?_map _ _ _

theorem Scope.insert_shift (name : String) (b : Binding) :
    Table.insert (scope.shift n) name (b.shift n) = Scope.shift n (Table.insert scope name b) :=
  Table.insert_map _ _ _ _

/-! ## Running -/

theorem outcome_newClass (c : Class) (w : World) : outcome (newClass c) w =
    (.ok w.classes.length, w.withClasses (w.classes ++ [c])) := rfl

/-- The base of a class is found alike. -/
theorem outcome_base_shift (n : Nat) (scope : Scope) (b : Base String) :
    ∃ r, (∀ w, outcome (scope.base b) w = (r, w)) ∧
      ∀ w, outcome ((scope.shift n).base b) w = (r.map (Base.shift n), w) := by
  cases b with
  | «class» name =>
    simp only [Scope.base, Scope.get?_shift]
    rcases Table.get? scope name with _ | (id | v)
    · exact ⟨.error .noKey, fun _ ↦ rfl, fun _ ↦ rfl⟩
    · exact ⟨.ok (.class id), fun _ ↦ rfl, fun _ ↦ rfl⟩
    · exact ⟨.error .noKey, fun _ ↦ rfl, fun _ ↦ rfl⟩
  | _ => exact ⟨.ok _, fun _ ↦ rfl, fun _ ↦ rfl⟩

/-- A statement is carried out alike. -/
theorem outcome_execute_shift (statement : Statement) (w u : World) (cs : Classes) :
    outcome (execute module (scope.shift cs.length) statement)
        (u.withClasses (cs ++ w.classes.map (Class.shift cs.length))) =
      ((outcome (execute module scope statement) w).1.map (Scope.shift cs.length),
        u.withClasses (cs ++
          (outcome (execute module scope statement) w).2.classes.map (Class.shift cs.length))) := by
  cases statement with
  | fail kind message => rfl
  | define d =>
    cases d with
    | value name v =>
      simp only [execute, outcome_pure, Except.map]
      rw [← Scope.insert_shift]
      rfl
    | «class» spec =>
      obtain ⟨r, hbase, hshifted⟩ := outcome_base_shift cs.length scope spec.base
      rw [execute, execute, outcome_bind, outcome_bind, hbase, hshifted]
      cases r with
      | error e => rfl
      | ok base =>
        have hid : (Binding.class (cs ++ w.classes.map (Class.shift cs.length)).length) =
            (Binding.class w.classes.length).shift cs.length := by
          rw [List.length_append, List.length_map]
          rfl
        simp only [Except.map, outcome_bind, outcome_newClass, outcome_pure, World.classes_withClasses,
          World.withClasses_withClasses, hid, Scope.insert_shift, List.map_append, List.append_assoc]
        rfl

/-- Statements are carried out alike, one after the other. -/
theorem outcome_statements_shift (module : String) (scope : Scope) (code : List Statement)
    (w u : World) (cs : Classes) :
    outcome (code.foldlM (execute module) (scope.shift cs.length))
        (u.withClasses (cs ++ w.classes.map (Class.shift cs.length))) =
      ((outcome (code.foldlM (execute module) scope) w).1.map (Scope.shift cs.length),
        u.withClasses (cs ++ (outcome (code.foldlM (execute module) scope) w).2.classes.map
          (Class.shift cs.length))) := by
  induction code generalizing scope w with
  | nil => rfl
  | cons statement code ih =>
    rw [List.foldlM_cons, List.foldlM_cons, outcome_bind, outcome_bind,
      outcome_execute_shift statement w u cs]
    rcases outcome (execute module scope statement) w with ⟨e | scope', w'⟩
    · rfl
    · exact ih scope' w'

/-- Code is run as where there are no classes yet. -/
theorem outcome_runModule_shift {u : World} (hu : u.classes = []) (module : String)
    (code : List Statement) (w : World) : outcome (runModule module code) w =
      ((outcome (runModule module code) u).1.map (Scope.shift w.classes.length),
        w.withClasses (w.classes ++ (outcome (runModule module code) u).2.classes.map
          (Class.shift w.classes.length))) := by
  have hshift := outcome_statements_shift module [] code u w w.classes
  rwa [hu, List.map_nil, List.append_nil, World.withClasses_classes] at hshift

/-! ## What code is built on -/

/-- The classes that the names of a module stand for are among the first ones. -/
def Scope.Within (scope : Scope) (n : Nat) : Prop :=
  ∀ (name : String) (id : Nat), Table.get? scope name = some (.class id) → id < n

theorem Scope.Within.insert_class (h : scope.Within n) (name : String) :
    Scope.Within (Table.insert scope name (.class n)) (n + 1) := by
  intro name' id hget
  rw [Table.get?_insert] at hget
  split at hget
  · cases hget
    exact Nat.lt_succ_self n
  · exact Nat.lt_succ_of_lt (h name' id hget)

theorem Scope.Within.insert_value (h : scope.Within n) (name : String) (v : Value) :
    Scope.Within (Table.insert scope name (.value v)) n := by
  intro name' id hget
  rw [Table.get?_insert] at hget
  split at hget
  · cases hget
  · exact h name' id hget

theorem Scope.Within.base (h : scope.Within w.classes.length) (b : Base String) :
    (outcome (scope.base b) w).2 = w ∧
      ∀ {base : Base ClassId} {w' : World}, outcome (scope.base b) w = (.ok base, w') →
        ∀ parent : Nat, base = .class parent → parent < w.classes.length := by
  cases b with
  | «class» name =>
    rw [Scope.base]
    rcases hget : Table.get? scope name with _ | (id | v)
    · exact ⟨rfl, nofun⟩
    · refine ⟨rfl, fun {base w'} hbase parent hparent ↦ ?_⟩
      subst hparent
      cases hbase
      exact h name id hget
    · exact ⟨rfl, nofun⟩
  | _ =>
    refine ⟨rfl, fun {base w'} hbase parent hparent ↦ ?_⟩
    subst hparent
    cases hbase

theorem Classes.Grounded.concat {cs : Classes} (h : cs.Grounded) {c : Class}
    (hc : ∀ parent : Nat, c.base = .class parent → parent < cs.length) :
    Classes.Grounded (cs ++ [c]) := by
  intro id d hd parent hparent
  rw [List.getElem?_append] at hd
  split at hd
  · exact h hd parent hparent
  · rename_i hid
    obtain rfl := List.mem_singleton.mp (List.mem_of_getElem? hd)
    exact Nat.lt_of_lt_of_le (hc parent hparent) (Nat.le_of_not_lt hid)

/-- Classes that are made behind others are built on older ones. -/
theorem Classes.Grounded.append_shift {cs xs : Classes} (h : cs.Grounded) (hxs : xs.Grounded) :
    Classes.Grounded (cs ++ xs.map (Class.shift cs.length)) := by
  intro id d hd parent hparent
  rw [List.getElem?_append] at hd
  split at hd
  · exact h hd parent hparent
  · rename_i hid
    rw [List.getElem?_map, Option.map_eq_some_iff] at hd
    obtain ⟨c, hc, rfl⟩ := hd
    cases hbase : c.base with
    | «class» older =>
      have holder := hxs hc older hbase
      rw [Class.shift, hbase, Base.shift, Base.class.injEq] at hparent
      subst hparent
      exact Nat.add_lt_of_lt_sub' holder
    | _ => simp [Class.shift, hbase, Base.shift] at hparent

/-- Classes are made on older ones, whichever way the code ends. -/
theorem grounded_execute {statement : Statement} (hscope : scope.Within w.classes.length)
    (hw : w.classes.Grounded) {r : Except Error Scope} {w' : World}
    (h : outcome (execute module scope statement) w = (r, w')) :
    w'.classes.Grounded ∧ ∀ scope', r = .ok scope' → scope'.Within w'.classes.length := by
  cases statement with
  | fail kind message =>
    cases h
    exact ⟨hw, nofun⟩
  | define d =>
    cases d with
    | value name v =>
      cases h
      refine ⟨hw, fun scope' hscope' ↦ ?_⟩
      cases hscope'
      exact hscope.insert_value name _
    | «class» spec =>
      rw [execute, outcome_bind] at h
      obtain ⟨hsame, hparent⟩ := hscope.base spec.base
      rcases hbase : outcome (scope.base spec.base) w with ⟨e | base, w₁⟩
      · rw [hbase] at h hsame
        cases h
        obtain rfl : w' = w := hsame
        exact ⟨hw, nofun⟩
      · rw [hbase] at h hsame
        obtain rfl : w₁ = w := hsame
        cases h
        refine ⟨hw.concat (hparent hbase), fun scope' hscope' ↦ ?_⟩
        cases hscope'
        dsimp only
        rw [List.length_append]
        exact hscope.insert_class spec.name

theorem grounded_runModule {code : List Statement} (hscope : scope.Within w.classes.length)
    (hw : w.classes.Grounded) {r : Except Error Scope} {w' : World}
    (h : outcome (code.foldlM (execute module) scope) w = (r, w')) :
    w'.classes.Grounded ∧ ∀ scope', r = .ok scope' → scope'.Within w'.classes.length := by
  induction code generalizing scope w with
  | nil =>
    cases h
    refine ⟨hw, fun scope' hscope' ↦ ?_⟩
    cases hscope'
    exact hscope
  | cons statement code ih =>
    rw [List.foldlM_cons, outcome_bind] at h
    rcases hone : outcome (execute module scope statement) w with ⟨e | scope₁, w₁⟩
    · rw [hone] at h
      cases h
      exact ⟨(grounded_execute hscope hw hone).1, nofun⟩
    · rw [hone] at h
      obtain ⟨hw₁, hscope₁⟩ := grounded_execute hscope hw hone
      exact ih (hscope₁ scope₁ rfl) hw₁ h

/-- A class keeps its lineage when its code is run behind other classes. -/
theorem Classes.lineage_append_shift {xs : Classes} (hxs : xs.Grounded) (cs : Classes) {id : Nat}
    (hid : id < xs.length) :
    Classes.lineage (cs ++ xs.map (Class.shift cs.length)) (cs.length + id) = xs.lineage id := by
  have hmatches : Classes.Matches xs (cs ++ xs.map (Class.shift cs.length))
      fun i i' ↦ i' = cs.length + i ∧ i < xs.length := by
    rintro i _ ⟨rfl, hi⟩
    have hc := List.getElem?_eq_getElem (l := xs) (i := i) hi
    refine ⟨xs[i], xs[i].shift cs.length, hc, ?_, rfl, ?_⟩
    · rw [List.getElem?_append_right (Nat.le_add_right _ _), Nat.add_sub_cancel_left,
        List.getElem?_map, hc]
      rfl
    · cases hbase : xs[i].base with
      | «class» parent =>
        have holder := hxs hc parent hbase
        rw [Class.shift, hbase]
        exact .parents ⟨rfl, Nat.lt_trans holder hi⟩ holder (Nat.add_lt_add_left holder _)
      | _ =>
        rw [Class.shift, hbase]
        exact .root (by simp)
  exact hmatches.lineage_eq ⟨rfl, hid⟩

end Component

end IceCube

import IceCube.Proofs.Component.Shifted
import IceCube.Resolve

/-!
# Classes that code defines

The class of a record is loaded by running its code.  Which class that is depends on the text of the
code, on the name that its module gets and on the names that it carries, and on nothing else: it is
what the code defines in a process that has done nothing, with all classes behind those that are
there already.
-/

namespace IceCube.Resolve

open Step Component Run

/-- The class of a record among those that its code has defined. -/
def pick (record : Record) (scope : Scope) : Run ClassId := do
  let name := Identifier.className record.identifier
  match Table.get? scope name with
  | some (.class id) =>
    setClassAttribute id "component_name" (.text record.componentName)
    setClassAttribute id "identifier" (.text record.identifier)
    return id
  | _ =>
    if name = moduleClassName then throw .mismatch
    else
      failWith (.componentNotFound record.identifier)
        (.classNotDefined (Path.ofText record.compiledCodePath).text name)

/-- The class of a record, defined by its code. -/
def define (record : Record) (code : String) : Run ClassId := do
  pick record (← runModule (moduleStart ++ record.componentName) (statementsOf code))

theorem load_eq (record : Record) : load record = (do
    define record (← readCode record (Path.ofText record.compiledCodePath))) := rfl

/-- A process that has done nothing. -/
def idle : World := .start (.empty []) ⟨none, none⟩

/-- A class that carries the names of a record. -/
def named (componentName identifier : String) (c : Component.Class) : Component.Class :=
  (c.setAttribute "component_name" (.text componentName)).setAttribute "identifier"
    (.text identifier)

/-- Code defines some classes, one of which is that of an identifier. -/
def Defines (componentName identifier code : String) (cs : Classes) (id : Nat) : Prop :=
  ∃ scope w, outcome (runModule (moduleStart ++ componentName) (statementsOf code)) idle =
      (.ok scope, w) ∧ Table.get? scope (Identifier.className identifier) = some (.class id) ∧
    cs = w.classes.modify id (named componentName identifier)

variable {componentName identifier code : String} {cs cs' : Classes} {id id' : Nat}
  {record : Record} {w w' : World}

/-- What code defines is determined. -/
theorem Defines.unique (h : Defines componentName identifier code cs id)
    (h' : Defines componentName identifier code cs' id') : cs' = cs ∧ id' = id := by
  obtain ⟨scope, w, hrun, hclass, rfl⟩ := h
  obtain ⟨scope', w', hrun', hclass', rfl⟩ := h'
  cases hrun.symm.trans hrun'
  cases hclass.symm.trans hclass'
  exact ⟨rfl, rfl⟩

theorem grounded_modify {f : Component.Class → Component.Class} (hf : ∀ c, (f c).base = c.base)
    (h : cs.Grounded) (k : Nat) : Classes.Grounded (cs.modify k f) := by
  intro i c hc parent hparent
  rw [List.getElem?_modify, Option.map_eq_map, Option.map_eq_some_iff] at hc
  obtain ⟨d, hd, rfl⟩ := hc
  refine h hd parent ?_
  split at hparent
  · exact (hf d).symm.trans hparent
  · exact hparent

/-- What code has made, whichever way it ends, is built on what it has made itself. -/
theorem grounded_idle {r : Except Error Scope}
    (h : outcome (runModule (moduleStart ++ componentName) (statementsOf code)) idle = (r, w)) :
    w.classes.Grounded ∧ ∀ scope, r = .ok scope → scope.Within w.classes.length := by
  have hscope : Scope.Within [] idle.classes.length := by
    intro name id hget
    cases hget
  have hidle : idle.classes.Grounded := by
    intro id c hc
    cases hc
  exact grounded_runModule hscope hidle h

theorem Defines.grounded (h : Defines componentName identifier code cs id) :
    cs.Grounded ∧ id < cs.length := by
  obtain ⟨scope, w, hrun, hclass, rfl⟩ := h
  obtain ⟨hw, hscope⟩ := grounded_idle hrun
  refine ⟨grounded_modify (f := named componentName identifier) (fun _ ↦ rfl) hw id, ?_⟩
  rw [List.length_modify]
  exact hscope scope rfl _ _ hclass

theorem modify_append_shift (f : Component.Class → Component.Class) (n : Nat)
    (hf : ∀ c : Component.Class, (f c).shift n = f (c.shift n)) (cs xs : Classes) (k : Nat) :
    (cs ++ xs.map (Class.shift n)).modify (cs.length + k) f =
      cs ++ (xs.modify k f).map (Class.shift n) := by
  induction cs with
  | nil =>
    rw [List.nil_append, List.nil_append, List.length_nil, Nat.zero_add]
    induction xs generalizing k with
    | nil => simp
    | cons x xs ih =>
      cases k with
      | zero => simp [hf]
      | succ k => simp [ih]
  | cons c cs ih =>
    rw [List.cons_append, List.length_cons, Nat.add_right_comm, List.modify_succ_cons, ih]
    rfl

/-- A class is picked and gets its names, and nothing is done to the classes where there is none. -/
theorem outcome_pick (record : Record) (scope : Scope) (w : World) :
    match Table.get? scope (Identifier.className record.identifier) with
    | some (.class k) => outcome (pick record scope) w = (.ok k, w.withClasses
        (w.classes.modify k (named record.componentName record.identifier)))
    | _ => ∃ e v, outcome (pick record scope) w = (.error e, v) ∧ v.classes = w.classes := by
  have hfails : ∃ e v, outcome (if Identifier.className record.identifier = moduleClassName then
      throw .mismatch else failWith (.componentNotFound record.identifier) (.classNotDefined
        (Path.ofText record.compiledCodePath).text (Identifier.className record.identifier)) :
      Run ClassId) w = (.error e, v) ∧ v.classes = w.classes := by
    split <;> exact ⟨_, _, rfl, rfl⟩
  rw [pick]
  rcases hclass : Table.get? scope (Identifier.className record.identifier) with _ | (k | v)
  · exact hfails
  · simp only [setClassAttribute, outcome_modify_bind, outcome_pure, List.modify_modify_eq]
    rfl
  · exact hfails

/-- Wherever code is run, it defines its classes behind those that are there, and where it does not
define a class for its record, it leaves classes that are built on each other all the same. -/
theorem outcome_define (record : Record) (code : String) (w : World) :
    (∃ cs k, Defines record.componentName record.identifier code cs k ∧
      outcome (define record code) w = (.ok (w.classes.length + k),
        w.withClasses (w.classes ++ cs.map (Class.shift w.classes.length)))) ∨
    ((∀ cs k, ¬ Defines record.componentName record.identifier code cs k) ∧
      ∃ e v cs, outcome (define record code) w = (.error e, v) ∧ Classes.Grounded cs ∧
        v.classes = w.classes ++ cs.map (Class.shift w.classes.length)) := by
  rw [define, outcome_bind, outcome_runModule_shift (u := idle) rfl]
  simp only [Defines]
  rcases hrun : outcome (runModule (moduleStart ++ record.componentName) (statementsOf code)) idle
    with ⟨e | scope, v⟩
  · refine .inr ⟨?_, e, _, v.classes, rfl, (grounded_idle hrun).1, rfl⟩
    rintro cs k ⟨_, _, ⟨⟩, -⟩
  · have hshift := modify_append_shift (named record.componentName record.identifier)
      w.classes.length (fun _ ↦ rfl) w.classes v.classes
    have hpick := outcome_pick record (scope.shift w.classes.length)
      (w.withClasses (w.classes ++ v.classes.map (Class.shift w.classes.length)))
    rw [Scope.get?_shift] at hpick
    have hfails : (∀ k, Table.get? scope (Identifier.className record.identifier) ≠
        some (.class k)) → ∀ cs k, ¬ ∃ scope' w',
          ((Except.ok scope : Except Error Scope), v) = (.ok scope', w') ∧
          Table.get? scope' (Identifier.className record.identifier) = some (.class k) ∧
          cs = w'.classes.modify k (named record.componentName record.identifier) := by
      rintro hnone cs k ⟨_, _, h, hk, -⟩
      cases h
      exact hnone k hk
    simp only [Except.map]
    rcases hclass : Table.get? scope (Identifier.className record.identifier) with _ | (k | x)
    · rw [hclass] at hpick
      obtain ⟨e, u, hpick, hclasses⟩ := hpick
      exact .inr ⟨hfails (by simp [hclass]), e, u, v.classes, hpick, (grounded_idle hrun).1,
        hclasses⟩
    · rw [hclass] at hpick
      refine .inl ⟨_, k, ⟨scope, v, rfl, hclass, rfl⟩, ?_⟩
      rw [← hshift k]
      exact hpick
    · rw [hclass] at hpick
      obtain ⟨e, u, hpick, hclasses⟩ := hpick
      exact .inr ⟨hfails (by simp [hclass]), e, u, v.classes, hpick, (grounded_idle hrun).1,
        hclasses⟩

/-! ## Loading -/

/-- Code is read where it is a text, and nothing is done to the classes where it is not. -/
theorem outcome_readCode (record : Record) (p : Path) (w : World) :
    match Config.readText w.files p with
    | .ok code => outcome (readCode record p) w = (.ok code, w)
    | .error _ => ∃ e v, outcome (readCode record p) w = (.error e, v) ∧ v.classes = w.classes := by
  rw [readCode, outcome_get_bind]
  cases Config.readText w.files p with
  | ok code => rfl
  | error e => cases e <;> exact ⟨_, _, rfl, rfl⟩

/-- A record is loaded where its code is a text that defines its class. -/
theorem outcome_load_eq_ok_iff : outcome (load record) w = (.ok id, w') ↔
    ∃ code cs k, Config.readText w.files (Path.ofText record.compiledCodePath) = .ok code ∧
      Defines record.componentName record.identifier code cs k ∧ id = w.classes.length + k ∧
      w' = w.withClasses (w.classes ++ cs.map (Class.shift w.classes.length)) := by
  have hread := outcome_readCode record (Path.ofText record.compiledCodePath) w
  rw [load_eq]
  cases htext : Config.readText w.files (Path.ofText record.compiledCodePath) with
  | error e =>
    rw [htext] at hread
    obtain ⟨e', v, hread, -⟩ := hread
    rw [outcome_bind_of_error hread]
    simp
  | ok code =>
    rw [htext] at hread
    rw [outcome_bind_of_ok hread]
    rcases outcome_define record code w with ⟨cs, k, hdefines, hok⟩ | ⟨hnone, e, v, cs, herror, -⟩
    · rw [hok]
      constructor
      · rintro ⟨⟩
        exact ⟨code, cs, k, rfl, hdefines, rfl, rfl⟩
      · rintro ⟨_, cs', k', ⟨⟩, hdefines', rfl, rfl⟩
        obtain ⟨rfl, rfl⟩ := hdefines.unique hdefines'
        rfl
    · rw [herror]
      constructor
      · rintro ⟨⟩
      · rintro ⟨_, cs', k', ⟨⟩, hdefines', -, -⟩
        exact absurd hdefines' (hnone cs' k')

/-- Whichever way loading ends, it leaves the classes that are there as they are. -/
theorem exists_classes_load (record : Record) (w : World) :
    ∃ cs : Classes, cs.Grounded ∧ (outcome (load record) w).2.classes =
      w.classes ++ cs.map (Class.shift w.classes.length) := by
  have hread := outcome_readCode record (Path.ofText record.compiledCodePath) w
  rw [load_eq]
  cases htext : Config.readText w.files (Path.ofText record.compiledCodePath) with
  | error e =>
    rw [htext] at hread
    obtain ⟨e', v, hread, hclasses⟩ := hread
    rw [outcome_bind_of_error hread]
    exact ⟨[], nofun, by simpa using hclasses⟩
  | ok code =>
    rw [htext] at hread
    rw [outcome_bind_of_ok hread]
    rcases outcome_define record code w with ⟨cs, k, hdefines, hok⟩ | ⟨-, e, v, cs, herror, hcs⟩
    · rw [hok]
      exact ⟨cs, hdefines.grounded.1, rfl⟩
    · rw [herror]
      exact ⟨cs, hcs⟩

end IceCube.Resolve

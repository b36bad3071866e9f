import IceCube.Proofs.Compiler.Locating
import IceCube.Proofs.Registry.Unresolved

/-!
# Identifiers that are not found

An identifier without a record is compiled by the first compiler that covers it, and no other compiler
is asked.  It is not found if there is no such compiler, if that compiler has no source for it, or if
the code of its source leaves out the class.  Nothing else is reported in this way, because compiling
a source fails for the source, its name or the files, and what has been compiled can be read.
-/

namespace IceCube

open Step

/-! ## What is compiled from sources -/

namespace Compiler

variable {c : Compiler} {i : String} {s s' : Workspace} {r : CompiledComponent}

/-- What has been compiled is in the files. -/
theorem hold_of_compileIdentifier (hcode : c.codeDir.Proper) (hassets : c.assetsDir.Proper)
    (h : outcome (c.compileIdentifier i) s = (.ok r, s')) :
    (c.outputs r.componentName).Hold r s'.files :=
  hold_of_compile hcode hassets (outcome_compile_of_compileIdentifier h).2

/-- The record leads to its code, whose line ends may be read differently. -/
theorem readText_of_compileIdentifier (hcode : c.codeDir.Proper) (hassets : c.assetsDir.Proper)
    (h : outcome (c.compileIdentifier i) s = (.ok r, s')) :
    Config.readText s'.files (.ofText r.compiledCodePath) = .ok (Text.unify r.codeSection) := by
  obtain ⟨-, hcompiled⟩ := compiled?_of_compileIdentifier h
  have hdescribes := describes_of_compiled? hcompiled
  have hpath : Path.ofText r.compiledCodePath = (c.outputs r.componentName).code := by
    rw [hdescribes.codePath, hdescribes.componentName, (proper_code hcode _).ofText_text]
  have hread := (hold_of_compileIdentifier hcode hassets h).code
  simp only [Config.readText, hpath, hread, Except.mapError, Utf8.decode_encode, bind, Except.bind,
    pure, Except.pure]

end Compiler

namespace Resolve

open Component Run

variable {home : RegistryId} {i : String} {force : Bool} {record : Record} {w : World}

/-! ## Code that leaves out its class -/

/-- Code leaves out the class of an identifier: it runs to its end without defining it, or it is not
found by the code itself.  No class can have the name of what every module is. -/
def Omits (componentName identifier code : String) : Prop :=
  (∃ j, Fails (runModule (moduleStart ++ componentName) (statementsOf code)) idle
    (.failure (.componentNotFound j))) ∨
  ∃ scope v, outcome (runModule (moduleStart ++ componentName) (statementsOf code)) idle =
      (.ok scope, v) ∧
    Identifier.className identifier ≠ moduleClassName ∧
    ∀ id, Table.get? scope (Identifier.className identifier) ≠ some (.class id)

theorem not_defines_of_omits {componentName identifier code : String}
    (h : Omits componentName identifier code) (cs : Classes) (id : Nat) :
    ¬ Defines componentName identifier code cs id := by
  rintro ⟨scope, v, hrun, hclass, -⟩
  rcases h with ⟨j, h⟩ | ⟨scope', v', hrun', -, hnone⟩
  · exact not_fails_of_ok hrun h
  · cases hrun.symm.trans hrun'
    exact hnone id hclass

theorem exists_fails_pick_iff {scope : Scope} :
    (∃ j, Fails (pick record scope) w (.failure (.componentNotFound j))) ↔
      Identifier.className record.identifier ≠ moduleClassName ∧
        ∀ id, Table.get? scope (Identifier.className record.identifier) ≠ some (.class id) := by
  unfold pick
  dsimp only
  split
  · rename_i id hid
    refine iff_of_false ?_ fun h ↦ h.2 id hid
    rintro ⟨j, t, ⟨⟩⟩
  · rename_i hclass
    by_cases hname : Identifier.className record.identifier = moduleClassName
    · rw [if_pos hname]
      refine iff_of_false ?_ fun h ↦ h.1 hname
      rintro ⟨j, t, ⟨⟩⟩
    · rw [if_neg hname]
      exact iff_of_true ⟨_, _, rfl⟩ ⟨hname, hclass⟩

/-- Wherever code is run, its class is not found exactly if it leaves it out. -/
theorem exists_fails_define_iff {code : String} :
    (∃ j, Fails (define record code) w (.failure (.componentNotFound j))) ↔
      Omits record.componentName record.identifier code := by
  have hrun := outcome_runModule_shift (u := idle) rfl (moduleStart ++ record.componentName)
    (statementsOf code) w
  unfold Omits define
  rcases hidle : outcome (runModule (moduleStart ++ record.componentName) (statementsOf code)) idle
    with ⟨e | scope, v⟩
  · rw [hidle] at hrun
    have hfails : Fails (runModule (moduleStart ++ record.componentName) (statementsOf code)) w e :=
      ⟨_, hrun⟩
    constructor
    · rintro ⟨j, h⟩
      rcases fails_bind_iff.mp h with h | ⟨_, _, hok, -⟩
      · cases hfails.unique h
        exact .inl ⟨j, v, hidle⟩
      · cases hrun.symm.trans hok
    · rintro (⟨j, h⟩ | ⟨_, _, ⟨⟩, -⟩)
      cases (show Fails _ idle e from ⟨v, hidle⟩).unique h
      exact ⟨j, fails_bind_iff.mpr (.inl hfails)⟩
  · rw [hidle] at hrun
    have hget (id : Nat) : Table.get? (scope.shift w.classes.length)
        (Identifier.className record.identifier) = some (.class id) →
          ∃ k, Table.get? scope (Identifier.className record.identifier) = some (.class k) := by
      rw [Scope.get?_shift, Option.map_eq_some_iff]
      rintro ⟨b, hb, hid⟩
      cases b with
      | «class» k => exact ⟨k, hb⟩
      | value x => cases hid
    simp only [Except.map] at hrun
    simp only [fails_bind_of_ok hrun, exists_fails_pick_iff]
    constructor
    · rintro ⟨hname, hnone⟩
      refine .inr ⟨scope, v, rfl, hname, fun id hid ↦ hnone (w.classes.length + id) ?_⟩
      rw [Scope.get?_shift, hid]
      rfl
    · rintro (⟨j, h⟩ | ⟨_, _, ⟨⟩, hname, hnone⟩)
      · exact absurd h (not_fails_of_ok hidle)
      · refine ⟨hname, fun id hid ↦ ?_⟩
        obtain ⟨k, hk⟩ := hget id hid
        exact hnone k hk

/-! ## Resolving -/

/-- Resolving an identifier ends with the failure that something is not found. -/
def NotFound (home : RegistryId) (i : String) (force : Bool) (w : World) : Prop :=
  ∃ j, Fails (resolve home i force) w (.failure (.componentNotFound j))

/-- A class is looked for anew: none is remembered, or it is wanted afresh. -/
def Seeks (home : RegistryId) (i : String) (force : Bool) (w : World) : Prop :=
  w.remembered? home i = none ∨ force = true

theorem fails_resolve_iff_afresh {e : Error} :
    Fails (resolve home i force) w e ↔ Seeks home i force w ∧ Fails (afresh home i force) w e := by
  unfold Seeks Fails
  rw [outcome_resolve]
  cases w.remembered? home i <;> cases force <;> simp

/-- A class is loaded from a record that is found. -/
theorem fails_afresh_of_record {e : Error} {v : World}
    (h : outcome (Resolve.record home i force) w = (.ok (some record), v)) :
    Fails (afresh home i force) w e ↔ Fails (load record) v e := by
  rw [afresh, fails_bind_of_ok h]
  dsimp only
  rw [fails_bind_iff, or_iff_left]
  rintro ⟨_, _, -, t, ⟨⟩⟩

/-- What has been compiled is not found exactly if its code leaves out the class. -/
theorem exists_fails_load_iff {v : World} {code : String}
    (hcode : Config.readText v.files (.ofText record.compiledCodePath) = .ok code) :
    (∃ j, Fails (load record) v (.failure (.componentNotFound j))) ↔
      Omits record.componentName record.identifier code := by
  rw [← exists_fails_define_iff (w := v), load_eq]
  simp only [fails_bind_of_ok (readCode_of_readText hcode)]

theorem exists_fails_load_compiled_iff {r : CompiledComponent} {v : World} {code : String}
    (hi : r.identifier = i)
    (hcode : Config.readText v.files (.ofText r.compiledCodePath) = .ok code) :
    (∃ j, Fails (load (.compiled r)) v (.failure (.componentNotFound j))) ↔
      Omits r.componentName i code := by
  subst hi
  exact exists_fails_load_iff hcode

/-- What a compiler is asked for is not found if the compiler does not find it, or compiles code that
leaves out its class. -/
theorem exists_fails_afresh_iff {c : Compiler} (hcode : c.codeDir.Proper) (hassets : c.assetsDir.Proper)
    (hwanted : (w.registry home).get? i = none ∨ force = true)
    (hcompiler : (w.registry home).compilerFor? i = some c) :
    (∃ j, Fails (afresh home i force) w (.failure (.componentNotFound j))) ↔
      (∃ j, Fails (c.compileIdentifier i) (w.workspace c.home) (.failure (.componentNotFound j))) ∨
      ∃ r s, outcome (c.compileIdentifier i) (w.workspace c.home) = (.ok r, s) ∧
        Omits r.componentName i (Text.unify r.codeSection) := by
  rcases hcompile : outcome (c.compileIdentifier i) (w.workspace c.home) with ⟨e | r, s⟩
  · have hfails : Fails (c.compileIdentifier i) (w.workspace c.home) e := ⟨s, hcompile⟩
    have hafresh : Fails (afresh home i force) w e :=
      fails_bind_iff.mpr (.inl ⟨_, outcome_record_of_compile hwanted hcompiler hcompile⟩)
    constructor
    · rintro ⟨j, h⟩
      cases hafresh.unique h
      exact .inl ⟨j, hfails⟩
    · rintro (⟨j, h⟩ | ⟨_, _, ⟨⟩, -⟩)
      cases hfails.unique h
      exact ⟨j, hafresh⟩
  · have hrecord : outcome (Resolve.record home i force) w =
        (.ok (some (.compiled r)), w.withWorkspace c.home s) :=
      outcome_record_of_compile hwanted hcompiler hcompile
    have hdescribes := Compiler.describes_of_compiled?
      (Compiler.compiled?_of_compileIdentifier hcompile).2
    have hread : Config.readText (w.withWorkspace c.home s).files (.ofText r.compiledCodePath) =
        .ok (Text.unify r.codeSection) := Compiler.readText_of_compileIdentifier hcode hassets hcompile
    simp only [fails_afresh_of_record hrecord]
    rw [exists_fails_load_compiled_iff hdescribes.identifier hread]
    constructor
    · intro homits
      exact .inr ⟨r, s, rfl, homits⟩
    · rintro (⟨j, h⟩ | ⟨_, _, ⟨⟩, homits⟩)
      · exact absurd h (not_fails_of_ok hcompile)
      · exact homits

/-- An identifier without a record is not found exactly if it is looked for, and the first compiler
that covers it, if there is one, has no source for it or compiles code that leaves out its class. -/
theorem notFound_iff (hnone : (w.registry home).get? i = none)
    (hdirs : ∀ c ∈ (w.registry home).compilers, c.codeDir.Proper ∧ c.assetsDir.Proper) :
    NotFound home i force w ↔ Seeks home i force w ∧
      ∀ c, (w.registry home).compilerFor? i = some c → c.HasSource i w.files →
        ∃ r s, outcome (c.compileIdentifier i) (w.workspace c.home) = (.ok r, s) ∧
          Omits r.componentName i (Text.unify r.codeSection) := by
  simp only [NotFound, fails_resolve_iff_afresh, exists_and_left]
  refine and_congr_right fun _ ↦ ?_
  cases hcompiler : (w.registry home).compilerFor? i with
  | none =>
    refine iff_of_true ⟨i, ?_⟩ nofun
    have hrecord : outcome (Resolve.record home i force) w = (.ok none, w) := by
      rw [Resolve.record, outcome_get_bind]
      dsimp only
      rw [hnone, hcompiler]
      rfl
    rw [afresh, fails_bind_of_ok hrecord]
    exact fails_throw.mpr rfl
  | some c =>
    obtain ⟨hcode, hassets⟩ := hdirs c (List.mem_of_find?_eq_some hcompiler)
    rw [exists_fails_afresh_iff hcode hassets (.inl hnone) hcompiler,
      Compiler.exists_fails_compileIdentifier_iff, ← imp_iff_not_or]
    constructor
    · rintro h d hd
      cases hd
      exact h
    · intro h
      exact h c rfl

/-- An identifier without a record is not found exactly if it is looked for, and the first compiler
that covers it has no source for it or compiles code that leaves out its class.  So what is not found
has no source or no class as long as the first compiler that covers it has a source, or none has. -/
theorem notFound_without_source_iff (hnone : (w.registry home).get? i = none)
    (hdirs : ∀ c ∈ (w.registry home).compilers, c.codeDir.Proper ∧ c.assetsDir.Proper) :
    (NotFound home i force w ↔ Seeks home i force w ∧
      ∀ c, (w.registry home).compilerFor? i = some c → c.HasSource i w.files →
        ∃ r s, outcome (c.compileIdentifier i) (w.workspace c.home) = (.ok r, s) ∧
          Omits r.componentName i (Text.unify r.codeSection)) ∧
    ((NotFound home i force w → (∀ c ∈ (w.registry home).compilers, ¬ c.HasSource i w.files) ∨
        ∃ c, (w.registry home).compilerFor? i = some c ∧ c.HasSource i w.files ∧
          ∃ r s, outcome (c.compileIdentifier i) (w.workspace c.home) = (.ok r, s) ∧
            ∀ cs id, ¬ Defines r.componentName i (Text.unify r.codeSection) cs id) ↔
      (Seeks home i force w → (∀ c ∈ (w.registry home).compilers, ¬ c.HasSource i w.files) ∨
        ∃ c, (w.registry home).compilerFor? i = some c ∧ c.HasSource i w.files)) := by
  have hiff : NotFound home i force w ↔ _ := notFound_iff hnone hdirs
  refine ⟨hiff, fun h hseeks ↦ ?_, fun h hmissing ↦ ?_⟩
  · by_cases hfirst : ∃ c, (w.registry home).compilerFor? i = some c ∧ c.HasSource i w.files
    · exact .inr hfirst
    · -- a first compiler without a source decides, whatever the other compilers have
      have hmissing : NotFound home i force w :=
        hiff.mpr ⟨hseeks, fun c hc hsource ↦ absurd ⟨c, hc, hsource⟩ hfirst⟩
      rcases h hmissing with hall | ⟨c, hc, hsource, -⟩
      · exact .inl hall
      · exact absurd ⟨c, hc, hsource⟩ hfirst
  · obtain ⟨hseeks, hfirst⟩ := hiff.mp hmissing
    rcases h hseeks with hall | ⟨c, hc, hsource⟩
    · exact .inl hall
    · obtain ⟨r, s, hcompile, homits⟩ := hfirst c hc hsource
      exact .inr ⟨c, hc, hsource, r, s, hcompile, fun cs id ↦ not_defines_of_omits homits cs id⟩

/-! ## One prefix inside another -/

open Compiler (cardCompiler cardFiles)

/-- A registry with some compilers, and nothing registered. -/
def attached (files : FileTree) (compilers : List Compiler) : World :=
  { World.start files ⟨none, none⟩ with
    registries := [("main", { Registry.empty with compilers := compilers })] }

/-- The source of the card does not define its class, so it is not found, though it has a source. -/
theorem card_without_class_is_not_found :
    NotFound "main" "app.Card" false (attached cardFiles [cardCompiler]) ∧
      cardCompiler.HasSource "app.Card" cardFiles ∧
      ∃ (c : Compiler) (r : CompiledComponent) (s : Workspace),
        outcome (c.compileIdentifier "app.Card")
          ((attached cardFiles [cardCompiler]).workspace c.home) = (.ok r, s) ∧
        ∀ cs id, ¬ Defines r.componentName "app.Card" (Text.unify r.codeSection) cs id := by
  have hcompiler : ((attached cardFiles [cardCompiler]).registry "main").compilerFor? "app.Card" =
      some cardCompiler := by decide
  have hsource : cardCompiler.HasSource "app.Card" cardFiles :=
    ⟨by decide +kernel, by decide +kernel⟩
  have homits : Omits "app_Card" "app.Card" (Text.unify "pass") :=
    .inr ⟨[], idle, rfl, by decide, nofun⟩
  have hcompiled : (outcome (cardCompiler.compileIdentifier "app.Card")
      ((attached cardFiles [cardCompiler]).workspace "main")).1.toOption.map
        (fun r ↦ (r.componentName, r.codeSection)) = some ("app_Card", "pass") := by
    decide +kernel
  obtain ⟨r, s, hcompile, hnames⟩ := exists_outcome_of_map hcompiled
  obtain ⟨hname, hcode⟩ := Prod.mk.inj hnames
  have hdirs : ∀ c ∈ ((attached cardFiles [cardCompiler]).registry "main").compilers,
      c.codeDir.Proper ∧ c.assetsDir.Proper := by decide
  have hnotFound : NotFound "main" "app.Card" false (attached cardFiles [cardCompiler]) := by
    refine (notFound_without_source_iff rfl hdirs).1.mpr ⟨.inl rfl, fun c hc _ ↦ ?_⟩
    rw [hcompiler] at hc
    cases hc
    rw [← hname, ← hcode] at homits
    exact ⟨r, s, hcompile, homits⟩
  refine ⟨hnotFound, hsource, ?_⟩
  rcases (notFound_without_source_iff rfl hdirs).2.mpr
      (fun _ ↦ .inr ⟨cardCompiler, hcompiler, hsource⟩) hnotFound with hnone | ⟨c, -, -, hmisses⟩
  · exact absurd hsource (hnone cardCompiler (List.mem_singleton_self _))
  · exact ⟨c, hmisses⟩

/-- A compiler for cards whose prefix is inside that of the other one. -/
def nestedCompiler : Compiler :=
  { cardCompiler with namespacePrefix := "app.ui", sourceDir := ⟨.relative, ["ui"]⟩ }

/-- The source of a card of the inner prefix. -/
def nestedFiles : FileTree :=
  ((FileTree.empty []).set ["ui"] (.directory FileTree.parentMode)).set ["ui", "Card.ice.py"]
    (.file (Utf8.encode "define(r'''\x7b\"class\": \"Card\"\x7d''')") FileTree.fileMode 0)

/-- The compiler with the wider prefix is asked first, and hides the source of the other one. -/
theorem wider_prefix_hides_source :
    ((attached nestedFiles [cardCompiler, nestedCompiler]).registry "main").get? "app.ui.Card" =
        none ∧
      nestedCompiler.HasSource "app.ui.Card" nestedFiles ∧
      NotFound "main" "app.ui.Card" false (attached nestedFiles [cardCompiler, nestedCompiler]) ∧
      ∃ id w, outcome (resolve "main" "app.ui.Card" false)
        (attached nestedFiles [nestedCompiler, cardCompiler]) = (.ok id, w) := by
  refine ⟨rfl, ⟨by decide +kernel, by decide +kernel⟩, ?_, ?_⟩
  · have hcompiler : ((attached nestedFiles [cardCompiler, nestedCompiler]).registry
        "main").compilerFor? "app.ui.Card" = some cardCompiler := by decide
    refine (notFound_iff rfl (by decide)).mpr ⟨.inl rfl, fun c hc hsource ↦ ?_⟩
    rw [hcompiler] at hc
    cases hc
    exact absurd hsource.2 (by decide)
  · have hok : (outcome (resolve "main" "app.ui.Card" false)
        (attached nestedFiles [nestedCompiler, cardCompiler])).1.toOption.isSome = true := by
      decide +kernel
    obtain ⟨id, w, h, -⟩ := exists_outcome_eq_ok (P := fun _ ↦ True) hok trivial
    exact ⟨id, w, h⟩

end Resolve

end IceCube

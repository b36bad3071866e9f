import IceCube.Proofs.Stylesheet.Containment
import IceCube.Proofs.Stylesheet.Variables

/-!
# The same sheet in the scope of a component and without it

A sheet that compiles for itself compiles in the scope of a component too, to rules with the same
properties in the same order.  Selectors take the scope before them as long as an ampersand only
begins a selector, since it stands for all that is around it; and values stay the same as long as no
rule assigns a variable of the sheet, which is local in the scope.
-/

namespace IceCube.Stylesheet

open Reader

variable {name text css : String} {s t parent w : Selector} {c : Compound}
variable {parents parents' selectors under : List Selector} {scope scope' after after' : Scope}
variable {ss : List Statement} {own own' : List Declaration} {rules rules' : List FlatRule}

/-! ## Selectors after the scope -/

/-- A selector names the one around it, if it does, at its start and with no sign before. -/
def Selector.NamesFirst : Selector → Prop
  | [] => True
  | c :: rest => ('&' ∈ c.text → c.combinator = .descendant) ∧ ∀ d ∈ rest, '&' ∉ d.text

mutual

/-- The selectors of a statement name those around them at their start. -/
def Statement.NamesFirst : Statement → Prop
  | .declare _ => True
  | .assign _ _ => True
  | .rule selectors body => (∀ s ∈ selectors, Selector.NamesFirst s) ∧ NamesFirst body

/-- All selectors of a body name those around them at their start. -/
def NamesFirst : List Statement → Prop
  | [] => True
  | s :: ss => s.NamesFirst ∧ NamesFirst ss

end

theorem Selector.within_of_named {suffix : List Char} {rest : Selector} (hparent : parent ≠ [])
    (hc : c.combinator = .descendant) (htext : c.text = '&' :: suffix)
    (hrest : ∀ d ∈ rest, '&' ∉ d.text) :
    Selector.within parent (c :: rest) = some (Selector.extend suffix parent ++ rest) := by
  obtain ⟨first, tail, rfl⟩ := List.exists_cons_of_ne_nil hparent
  have hover : ({ first with combinator := c.combinator.over first.combinator } : Compound) =
      first := by rw [hc, Combinator.over]
  have hfirst : Compound.within (first :: tail) c =
      some (Selector.extend suffix (first :: tail), true) := by
    rw [Compound.within_of_cons htext, hover]
  have hparts : (c :: rest).mapM (Compound.within (first :: tail)) =
      some ((Selector.extend suffix (first :: tail), true) :: rest.map fun d ↦ ([d], false)) :=
    mapM_eq_some_iff.mpr <| .cons hfirst <| List.forall₂_map_right_iff.mpr <|
      List.forall₂_same.mpr fun d hd ↦ Compound.within_of_not_mem (hrest d hd)
  refine Selector.within_eq_some_iff.mpr ⟨_, hparts, ?_⟩
  simp [List.flatMap_map]

/-- What is before the selector around another one is before the other one. -/
theorem Selector.NamesFirst.within (h : s.NamesFirst) (w : Selector)
    (ht : Selector.within parent s = some t) :
    Selector.within (w ++ parent) s = some (w ++ t) := by
  by_cases hplain : ∀ c ∈ s, '&' ∉ c.text
  · rw [Selector.within_of_not_mem hplain] at ht ⊢
    rw [List.append_assoc, Option.some.inj ht]
  · cases s with
    | nil => simp at hplain
    | cons c rest =>
      obtain ⟨hc, hrest⟩ := h
      have hmem : '&' ∈ c.text := by
        by_contra hmem
        exact hplain (List.forall_mem_cons.mpr ⟨hmem, hrest⟩)
      obtain ⟨parts, hparts, -⟩ := Selector.within_eq_some_iff.mp ht
      obtain ⟨⟨chain, named⟩, _, hchain, -, -⟩ :=
        List.forall₂_cons_left_iff.mp (mapM_eq_some_iff.mp hparts)
      obtain ⟨hnot, -, -⟩ | ⟨suffix, first, tail, htext, rfl, -, -⟩ := Compound.within_inv hchain
      · exact absurd hmem hnot
      · rw [Selector.within_of_named (by simp) (hc hmem) htext hrest] at ht ⊢
        rw [Selector.extend_append (by simp), List.append_assoc, Option.some.inj ht]

/-- Selectors with another one before them, which stands alone outside all rules. -/
def lift (w : Selector) (parents : List Selector) : List Selector :=
  (around parents).map (w ++ ·)

theorem selectorsWithin_lift (hnames : ∀ s ∈ selectors, Selector.NamesFirst s)
    (h : selectorsWithin parents selectors = some under) :
    selectorsWithin (lift w parents) selectors = some (under.map (w ++ ·)) := by
  have hlist {p : Selector} {list : List Selector}
      (hfound : selectors.mapM (Selector.within p) = some list) :
      selectors.mapM (Selector.within (w ++ p)) = some (list.map (w ++ ·)) := by
    refine mapM_eq_some_iff.mpr (List.forall₂_map_right_iff.mpr ?_)
    refine ((List.forall₂_and_left _ _).mpr ⟨hnames, mapM_eq_some_iff.mp hfound⟩).imp ?_
    exact fun s t ⟨hs, ht⟩ ↦ hs.within w ht
  obtain ⟨lists, hlists, rfl⟩ := selectorsWithin_eq_some_iff.mp h
  have hlift : lift w parents ≠ [] := by simp [lift, around_ne_nil]
  refine selectorsWithin_eq_some_iff.mpr ⟨lists.map (List.map (w ++ ·)), ?_, ?_⟩
  · rw [around_of_ne_nil hlift]
    refine mapM_eq_some_iff.mpr (List.forall₂_map_left_iff.mpr (List.forall₂_map_right_iff.mpr ?_))
    exact (mapM_eq_some_iff.mp hlists).imp fun p list hfound ↦ hlist hfound
  · rw [List.map_flatten]

/-- The selectors of flat rules are those of others with a selector before them. -/
def Prefixed (w : Selector) (rules rules' : List FlatRule) : Prop :=
  List.Forall₂ (fun r r' ↦ r'.selectors = r.selectors.map (w ++ ·)) rules rules'

theorem flattenBody_lift (hss : Proper ss) (hnames : NamesFirst ss)
    (h : flattenBody parents scope ss = some (own, rules, after))
    (h' : flattenBody (lift w parents) scope' ss = some (own', rules', after')) :
    Prefixed w rules rules' := by
  induction hss generalizing parents scope scope' own rules after own' rules' after' with
  | nil =>
    obtain ⟨-, rfl, -⟩ := by simpa using h
    obtain ⟨-, rfl, -⟩ := by simpa using h'
    exact .nil
  | declare d _ ih =>
    obtain ⟨_, _, _, hmore, -⟩ := flattenBody_declare.mp h
    obtain ⟨_, _, _, hmore', -⟩ := flattenBody_declare.mp h'
    exact ih hnames.2 hmore hmore'
  | assign _ _ _ ih =>
    obtain ⟨_, -, hmore⟩ := flattenBody_assign.mp h
    obtain ⟨_, -, hmore'⟩ := flattenBody_assign.mp h'
    exact ih hnames.2 hmore hmore'
  | rule hselectors _ _ _ ihbody ih =>
    obtain ⟨under, _, _, _, _, hunder, hinner, hmore, rfl⟩ := flattenBody_rule.mp h
    obtain ⟨under', _, _, _, _, hunder', hinner', hmore', rfl⟩ := flattenBody_rule.mp h'
    obtain ⟨⟨hnamesrule, hnamesbody⟩, hnamesmore⟩ := hnames
    obtain rfl := Option.some.inj ((selectorsWithin_lift hnamesrule hunder).symm.trans hunder')
    have hlift : under.map (w ++ ·) = lift w under := by
      rw [lift, around_of_ne_nil (selectorsWithin_ne_nil hunder hselectors)]
    exact .cons rfl
      (List.rel_append (ihbody hnamesbody hinner (hlift ▸ hinner')) (ih hnamesmore hmore hmore'))

/-! ## The same shape -/

/-- The same properties are declared in the same order. -/
def SameProperties (own own' : List Declaration) : Prop :=
  own'.map Declaration.property = own.map Declaration.property

/-- The same properties are declared in the same order for as many selectors. -/
def FlatRule.SameShape (r r' : FlatRule) : Prop :=
  r'.selectors.length = r.selectors.length ∧ SameProperties r.declarations r'.declarations

theorem isSome_selectorsWithin : (selectorsWithin parents selectors).isSome ↔
    ∀ p ∈ around parents, ∀ s ∈ selectors, (Selector.within p s).isSome := by
  have hlists : (selectorsWithin parents selectors).isSome =
      ((around parents).mapM fun p ↦ selectors.mapM (Selector.within p)).isSome := by
    rw [Bool.eq_iff_iff, Option.isSome_iff_exists, Option.isSome_iff_exists]
    simp only [selectorsWithin_eq_some_iff]
    exact ⟨fun ⟨_, lists, hlists, _⟩ ↦ ⟨lists, hlists⟩,
      fun ⟨lists, hlists⟩ ↦ ⟨_, lists, hlists, rfl⟩⟩
  rw [hlists, isSome_mapM]
  simp only [isSome_mapM, List.all_eq_true]

/-- What can stand under some selectors can stand under all that are not empty. -/
theorem exists_selectorsWithin (hparents' : parents' ≠ []) (hne : ∀ p ∈ parents', p ≠ [])
    (h : selectorsWithin parents selectors = some under) :
    ∃ under', selectorsWithin parents' selectors = some under' := by
  have hall := isSome_selectorsWithin.mp (Option.isSome_iff_exists.mpr ⟨under, h⟩)
  obtain ⟨p, hp⟩ := List.exists_mem_of_ne_nil _ (around_ne_nil : around parents ≠ [])
  refine Option.isSome_iff_exists.mp (isSome_selectorsWithin.mpr fun p' hp' s hs ↦ ?_)
  rw [around_of_ne_nil hparents'] at hp'
  exact Selector.isSome_within_of_ne_nil (hne p' hp') (hall p hp s hs)

/-- A body that can be flattened can be flattened under other selectors too, if as many, and in a
scope in which the same names have values. -/
theorem exists_flattenBody (hss : Proper ss) (hparents' : parents' ≠ [])
    (hne : ∀ p ∈ parents', p ≠ []) (hlength : parents'.length = (around parents).length)
    (hscope : Alike scope scope')
    (h : flattenBody parents scope ss = some (own, rules, after)) :
    ∃ own' rules' after', flattenBody parents' scope' ss = some (own', rules', after') ∧
      SameProperties own own' ∧ List.Forall₂ FlatRule.SameShape rules rules' ∧
      Alike after after' := by
  induction hss generalizing parents parents' scope scope' own rules after with
  | nil =>
    obtain ⟨rfl, rfl, rfl⟩ := by simpa using h
    exact ⟨[], [], scope', rfl, rfl, .nil, hscope⟩
  | declare d _ ih =>
    obtain ⟨value, more, hvalue, hmore, rfl⟩ := flattenBody_declare.mp h
    obtain ⟨value', hvalue'⟩ := hscope.exists_evaluate hvalue
    obtain ⟨more', rules', after', hmore', hsame, hrules, hafter⟩ :=
      ih hparents' hne hlength hscope hmore
    refine ⟨_, rules', after', flattenBody_declare.mpr ⟨value', more', hvalue', hmore', rfl⟩,
      ?_, hrules, hafter⟩
    exact congrArg (d.property :: ·) hsame
  | assign name value _ ih =>
    obtain ⟨given, hgiven, hmore⟩ := flattenBody_assign.mp h
    obtain ⟨given', hgiven'⟩ := hscope.exists_evaluate hgiven
    obtain ⟨own', rules', after', hmore', hrest⟩ :=
      ih hparents' hne hlength (hscope.assign name given given') hmore
    exact ⟨own', rules', after', flattenBody_assign.mpr ⟨given', hgiven', hmore'⟩, hrest⟩
  | rule hselectors hselectorsne _ _ ihbody ih =>
    obtain ⟨under, inside, inner, within, others, hunder, hinner, hmore, rfl⟩ :=
      flattenBody_rule.mp h
    obtain ⟨under', hunder'⟩ := exists_selectorsWithin hparents' hne hunder
    have hcount : under'.length = under.length := by
      rw [length_selectorsWithin hunder, length_selectorsWithin hunder',
        around_of_ne_nil hparents', hlength]
    have hunderne : ∀ t ∈ under', t ≠ [] := by
      intro t ht
      obtain ⟨p, -, s, hs, hwithin⟩ := exists_of_mem_selectorsWithin hunder' ht
      exact Selector.within_ne_nil (hselectorsne s hs) hwithin
    obtain ⟨inside', inner', within', hinner', hinside, hinnerrules, hwithin⟩ :=
      ihbody (selectorsWithin_ne_nil hunder' hselectors) hunderne
        (by rw [hcount, around_of_ne_nil (selectorsWithin_ne_nil hunder hselectors)])
        hscope.enter hinner
    obtain ⟨own', others', after', hmore', hown, hothers, hafter⟩ :=
      ih hparents' hne hlength hwithin.leave hmore
    exact ⟨own', _, after', flattenBody_rule.mpr
      ⟨under', inside', inner', within', others', hunder', hinner', hmore', rfl⟩, hown,
      .cons ⟨hcount, hinside⟩ (List.rel_append hinnerrules hothers), hafter⟩

/-! ## The sheet in the scope -/

/-- A sheet that is read to its end outside a line comment is read as the body of a rule for the
scope. -/
theorem IsName.sheet?_scopedTo_of_sheet? (hname : IsName name) {sheet : List Statement}
    (hsheet : sheet? text.toList = some sheet)
    (hend : (scan (.text none) text.toList).2 ≠ .lineComment) :
    sheet? (scopedTo name "\"" text).toList = some [.rule [scopeSelector name] sheet] := by
  obtain ⟨hended, hreads⟩ := sheet?_eq_some_iff.mp hsheet
  have hplace : (scan (.text none) text.toList).2 = .text none := hended.resolve_right hend
  have hopen : openQuote none (scan (.text none) text.toList).1 = none := by
    have := openQuote_scan (.text none) text.toList
    rwa [hplace] at this
  have hscan : scan (.text none) (text.toList ++ [' ', '\x7d']) =
      ((scan (.text none) text.toList).1 ++ [' ', '\x7d'], .text none) := by
    rw [scan_append_plain (by decide) (.text none) quotable_none, hplace]
    rfl
  refine hname.sheet?_scopedTo.mpr ⟨sheet, [], [], ?_, ?_, .ending rfl rfl, rfl⟩
  · rw [hscan]
    exact .inl rfl
  · rw [hscan]
    exact (hreads.enclose hopen []).blank

/-- Rules that correspond to each other are left out together for want of declarations. -/
theorem forall₂_filter_declarations {R : FlatRule → FlatRule → Prop}
    (hshape : List.Forall₂ FlatRule.SameShape rules rules') (h : List.Forall₂ R rules rules') :
    List.Forall₂ R (rules.filter fun r ↦ !r.declarations.isEmpty)
      (rules'.filter fun r ↦ !r.declarations.isEmpty) := by
  have hboth := List.Forall₂.mp (fun _ _ hr hs ↦ And.intro hr hs) hshape h
  refine (List.rel_filter (fun r r' hr ↦ ?_) hboth).imp fun _ _ hr ↦ hr.2
  have hlength : r'.declarations.length = r.declarations.length := by
    simpa using congrArg List.length hr.1.2
  simp [← List.length_eq_zero_iff, hlength]

/-- How the rules of a sheet in the scope of a component are related to its rules without it. -/
structure Agrees (name : String) (sheet : List Statement) (rules rules' : List FlatRule) :
    Prop where
  shape : List.Forall₂ FlatRule.SameShape rules rules'
  contained : Contained name rules'
  selectors : NamesFirst sheet → Prefixed (scopeSelector name) rules rules'
  values : Undisturbed [] sheet → SameValues rules rules'

/-- A block that compiles for itself compiles in the scope of a component as well if it does not end
within a line comment, and to the same rules: with the same properties, with the scope in every
selector, and before it if an ampersand only begins a selector, and with the same values if no rule
gives a value to a variable of the sheet. -/
theorem scoped_agrees_with_global (hname : IsName name)
    (hend : (scan (.text none) text.toList).2 ≠ .lineComment)
    (h : (StyleStrategy.preprocessor .compressed).compile name ⟨text, true⟩ = some css) :
    ∃ sheet rules rules', sheet? text.toList = some sheet ∧ flatten sheet = some rules ∧
      css = print .compressed rules ∧
      (StyleStrategy.preprocessor .compressed).compile name ⟨text, false⟩ =
        some (print .compressed rules') ∧
      Agrees name sheet rules rules' := by
  obtain ⟨rules, hrules, rfl⟩ := hname.compile_eq_some_iff.mp h
  rw [if_pos rfl] at hrules
  obtain ⟨sheet, hsheet, hflat⟩ := Option.bind_eq_some_iff.mp hrules
  have hproper := (sheet?_eq_some_iff.mp hsheet).2.proper
  obtain ⟨all, after, hall, rfl⟩ := flatten_eq_some_iff.mp hflat
  obtain ⟨own', all', after', hall', hown, hshape, -⟩ :=
    exists_flattenBody hproper (List.cons_ne_nil (scopeSelector name) []) (by simp [scopeSelector])
      rfl alike_sheet hall
  obtain rfl : own' = [] := by simpa [SameProperties] using hown
  refine ⟨sheet, _, all'.filter fun r ↦ !r.declarations.isEmpty, hsheet, hflat, rfl, ?_, ?_⟩
  · have hscoped := hname.sheet?_scopedTo_of_sheet? hsheet hend
    refine hname.compile_eq_some_iff.mpr ⟨_, ?_, rfl⟩
    rw [if_neg Bool.false_ne_true, rules?, hscoped]
    refine flatten_eq_some_iff.mpr ⟨⟨[scopeSelector name], []⟩ :: (all' ++ []), _,
      flattenBody_rule.mpr ⟨_, [], all', after', [], hname.selectorsWithin_scope, hall', rfl, rfl⟩,
      ?_⟩
    simp
  · have hlift : lift (scopeSelector name) [] = [scopeSelector name] := by simp [lift, around]
    have hcontained : Contained name all' :=
      contained_flattenBody hproper (by simp) (by simp [inScope_scopeSelector]) hall'
    exact {
      shape := forall₂_filter_declarations hshape hshape
      contained := fun r hr ↦ hcontained r (List.mem_of_mem_filter hr)
      selectors := fun hnames ↦ forall₂_filter_declarations hshape
        (flattenBody_lift hproper hnames hall (hlift ▸ hall'))
      values := fun hundisturbed ↦ forall₂_filter_declarations hshape
        (flattenBody_undisturbed hproper hundisturbed (fun m hm ↦ by simp [Table.contains] at hm)
          hall hall').2 }

/-- A block with a variable and an ampersand agrees. -/
theorem hovered_block_agrees : ∃ sheet rules rules',
    sheet? "$c: blue; a \x7b &:hover \x7b x: $c \x7d \x7d".toList = some sheet ∧
      flatten sheet = some rules ∧ "a:hover\x7bx:blue\x7d\n" = print .compressed rules ∧
      (StyleStrategy.preprocessor .compressed).compile "Foo"
        ⟨"$c: blue; a \x7b &:hover \x7b x: $c \x7d \x7d", false⟩ =
          some (print .compressed rules') ∧
      Agrees "Foo" sheet rules rules' :=
  scoped_agrees_with_global (by decide +kernel) (by decide +kernel) (by decide +kernel)

/-- In the scope of a component the first rule changes the variable of the sheet for the second one,
an ampersand takes the scope with it to where it stands, and a line comment at the end of the sheet
goes on over the brace that ends the scope. -/
theorem scope_changes_sheets :
    (StyleStrategy.preprocessor .compressed).compile "Foo"
        ⟨"$c: red; a \x7b $c: blue; x: $c \x7d b \x7b y: $c \x7d", true⟩ =
      some "a\x7bx:blue\x7db\x7by:red\x7d\n" ∧
    (StyleStrategy.preprocessor .compressed).compile "Foo"
        ⟨"$c: red; a \x7b $c: blue; x: $c \x7d b \x7b y: $c \x7d", false⟩ =
      some "[data-icecube=\"Foo\"] a\x7bx:blue\x7d[data-icecube=\"Foo\"] b\x7by:blue\x7d\n" ∧
    (StyleStrategy.preprocessor .compressed).compile "Foo"
        ⟨".a \x7b .b &.x \x7b c: d \x7d \x7d", true⟩ = some ".b .a.x\x7bc:d\x7d\n" ∧
    (StyleStrategy.preprocessor .compressed).compile "Foo"
        ⟨".a \x7b .b &.x \x7b c: d \x7d \x7d", false⟩ =
      some ".b [data-icecube=\"Foo\"] .a.x\x7bc:d\x7d\n" ∧
    (StyleStrategy.preprocessor .compressed).compile "Foo" ⟨"a \x7b b: c \x7d // d", true⟩ =
      some "a\x7bb:c\x7d\n" ∧
    (StyleStrategy.preprocessor .compressed).compile "Foo" ⟨"a \x7b b: c \x7d // d", false⟩ =
      none := by
  decide +kernel

end IceCube.Stylesheet

import IceCube.Proofs.Stylesheet.Scoped

/-!
# Which rules stay inside a component

All that is nested in the scope of a component keeps the attribute selector, whatever it says, since
a selector either follows the one around it or names it.  The scope ends at the first brace that
closes more than was opened, though, and that may be a brace of the text: the text behind it is then
a sheet of its own.
-/

namespace IceCube.Stylesheet

open Reader

variable {name text css : String} {s t parent : Selector}

/-- The attribute selector of a component is in a selector. -/
def InScope (name : String) (s : Selector) : Prop := ∃ c ∈ s, scopeText name <+: c.text

/-- The attribute selector of a component is in all selectors of all rules. -/
def Contained (name : String) (rules : List FlatRule) : Prop :=
  ∀ r ∈ rules, ∀ s ∈ r.selectors, InScope name s

instance : Decidable (InScope name s) := List.decidableBEx _ _

instance {rules : List FlatRule} : Decidable (Contained name rules) :=
  haveI : DecidablePred fun r : FlatRule ↦ ∀ s ∈ r.selectors, InScope name s :=
    fun _ ↦ List.decidableBAll _ _
  List.decidableBAll _ _

theorem inScope_scopeSelector (name : String) : InScope name (scopeSelector name) :=
  ⟨_, .head _, List.prefix_refl _⟩

/-! ## Below the scope -/

theorem InScope.mono (h : InScope name s) (hst : ∀ c ∈ s, c ∈ t) : InScope name t :=
  h.imp fun c hc ↦ ⟨hst c hc.1, hc.2⟩

theorem InScope.extend (h : InScope name s) (suffix : List Char) :
    InScope name (Selector.extend suffix s) := by
  obtain ⟨c, hc, hprefix⟩ := h
  induction s with
  | nil => cases hc
  | cons d rest ih =>
    cases rest with
    | nil =>
      obtain rfl := List.mem_singleton.mp hc
      exact ⟨_, .head _, hprefix.trans (List.prefix_append _ _)⟩
    | cons e rest =>
      obtain rfl | hc := List.mem_cons.mp hc
      · exact ⟨c, .head _, hprefix⟩
      · exact (ih hc).mono fun d hd ↦ .tail _ hd

/-- What stands under a selector with the scope has the scope: it follows that selector, or names it
with another sign before it. -/
theorem InScope.within (h : InScope name parent) (ht : Selector.within parent s = some t) :
    InScope name t := by
  obtain ⟨parts, hparts, rfl⟩ := Selector.within_eq_some_iff.mp ht
  split
  · rename_i hnamed
    obtain ⟨⟨chain, named⟩, hpart, rfl⟩ := List.any_eq_true.mp hnamed
    obtain ⟨c, -, hchain⟩ := exists_of_mem_mapM hparts hpart
    obtain ⟨-, -, hfalse⟩ | ⟨suffix, first, rest, -, rfl, -, rfl⟩ := Compound.within_inv hchain
    · cases hfalse
    · have hparent : InScope name
          ({ first with combinator := c.combinator.over first.combinator } :: rest) := by
        obtain ⟨d, hd, hprefix⟩ := h
        obtain rfl | hd := List.mem_cons.mp hd
        · exact ⟨_, .head _, hprefix⟩
        · exact ⟨d, .tail _ hd, hprefix⟩
      exact (hparent.extend suffix).mono fun d hd ↦ List.mem_flatMap_of_mem hpart hd
  · exact h.mono fun c hc ↦ List.mem_append_left _ hc

theorem contained_flattenBody {parents : List Selector} {scope after : Scope} {ss : List Statement}
    {own : List Declaration} {rules : List FlatRule} (hss : Proper ss) (hparents : parents ≠ [])
    (hscope : ∀ p ∈ parents, InScope name p)
    (h : flattenBody parents scope ss = some (own, rules, after)) : Contained name rules := by
  induction hss generalizing parents scope own rules after with
  | nil =>
    obtain ⟨-, rfl, -⟩ := by simpa using h
    nofun
  | declare d _ ih =>
    obtain ⟨_, _, _, hmore, -⟩ := flattenBody_declare.mp h
    exact ih hparents hscope hmore
  | assign _ _ _ ih =>
    obtain ⟨_, -, hmore⟩ := flattenBody_assign.mp h
    exact ih hparents hscope hmore
  | rule hselectors _ _ _ ihbody ih =>
    obtain ⟨under, inside, inner, within, others, hunder, hbody, hmore, rfl⟩ :=
      flattenBody_rule.mp h
    have hunderscope : ∀ t ∈ under, InScope name t := by
      intro t ht
      obtain ⟨p, hp, s, -, hwithin⟩ := exists_of_mem_selectorsWithin hunder ht
      rw [around_of_ne_nil hparents] at hp
      exact (hscope p hp).within hwithin
    intro r hr
    simp only [List.mem_cons, List.mem_append] at hr
    obtain rfl | hr | hr := hr
    · exact hunderscope
    · exact ihbody (selectorsWithin_ne_nil hunder hselectors) hunderscope hbody r hr
    · exact ih hparents hscope hmore r hr

/-! ## Behind the scope -/

/-- What a sheet inside the scope of a component is flattened to: rules in the scope, and those of
what it reads as behind its block. -/
theorem IsName.flatten_scope (h : IsName name) {body more : List Statement} {rules : List FlatRule}
    (hbody : Proper body)
    (hflat : flatten (.rule [scopeSelector name] body :: more) = some rules) :
    ∃ nested outside, rules = nested ++ outside ∧ Contained name nested ∧
      flatten more = some outside := by
  obtain ⟨all, after, hall, rfl⟩ := flatten_eq_some_iff.mp hflat
  obtain ⟨under, inside, inner, within, others, hunder, hinner, hmore, rfl⟩ :=
    flattenBody_rule.mp hall
  obtain rfl := Option.some.inj (h.selectorsWithin_scope.symm.trans hunder)
  obtain ⟨blocks, rfl, hblocks⟩ :=
    flattenBody_keeps_sheet hbody (List.cons_ne_nil [] []) hinner
  obtain ⟨block, rfl⟩ := List.length_eq_one_iff.mp hblocks
  have hscope : ∀ p ∈ [scopeSelector name], InScope name p := by
    simp [inScope_scopeSelector]
  have hcontained := contained_flattenBody hbody (by simp) hscope hinner
  refine ⟨(⟨_, inside⟩ :: inner).filter fun r ↦ !r.declarations.isEmpty, _,
    by rw [← List.filter_append, List.cons_append], fun r hr ↦ ?_,
    flatten_eq_some_iff.mpr ⟨others, after, hmore, rfl⟩⟩
  obtain rfl | hr := List.mem_cons.mp (List.mem_of_mem_filter hr)
  · exact hscope
  · exact hcontained r hr

/-- Rules behind a brace of the text that closes the scope are those of the rest as a sheet. -/
theorem rules?_behind {inside rest left : List Char} {more : List Statement}
    (hended : (scan (.text none) (inside ++ '\x7d' :: rest)).2.Ended)
    (hcloses : Closes 0 (.text none) inside)
    (hleft : left = (scan (.text none) rest).1) (hmore : Reads false left more []) :
    rules? (String.ofList rest) = flatten more := by
  obtain ⟨hscan, -⟩ := hcloses.behindBlock_eq rest
  rw [hscan, ahead_snd] at hended
  have hsheet : sheet? rest = some more := sheet?_eq_some_iff.mpr ⟨hended, hleft ▸ hmore⟩
  rw [rules?, String.toList_ofList, hsheet]
  rfl

/-- The last brace of a text that goes on with a blank and a brace is that brace or a brace of the
text. -/
theorem append_brace_eq {cs inside rest : List Char}
    (h : cs ++ [' ', '\x7d'] = inside ++ '\x7d' :: rest) :
    rest = [] ∨ ∃ ds, rest = ds ++ [' ', '\x7d'] ∧ cs = inside ++ '\x7d' :: ds := by
  obtain ⟨piece, rfl, hend⟩ | ⟨piece, rfl, hend⟩ := List.append_eq_append_iff.mp h
  · left
    obtain _ | ⟨c, _ | ⟨d, piece⟩⟩ := piece <;> simp_all
  · right
    obtain _ | ⟨c, piece⟩ := piece
    · simp at hend
    · obtain ⟨rfl, rfl⟩ := List.cons.inj hend
      exact ⟨piece, rfl, rfl⟩

/-- All rules of a stylesheet that a component's block compiles to have the attribute selector of the
component, if and only if those have it that the rest of the block behind a brace that closes the
scope compiles to on its own. -/
theorem scoped_rules_contained_iff (hname : IsName name)
    (h : (StyleStrategy.preprocessor .compressed).compile name ⟨text, false⟩ = some css) :
    ∃ rules, css = print .compressed rules ∧ rules? (scopedTo name "\"" text) = some rules ∧
      (Contained name rules ↔ ∀ inside rest, text.toList = inside ++ '\x7d' :: rest →
        Closes 0 (.text none) inside → ∃ outside,
          rules? (String.ofList (rest ++ [' ', '\x7d'])) = some outside ∧
            Contained name outside) := by
  obtain ⟨rules, hrules, rfl⟩ := hname.compile_eq_some_iff.mp h
  refine ⟨rules, rfl, hrules, ?_⟩
  obtain ⟨sheet, hsheet, hflat⟩ := Option.bind_eq_some_iff.mp hrules
  obtain ⟨body, left, more, hended, hbody, hmore, rfl⟩ := hname.sheet?_scopedTo.mp hsheet
  obtain ⟨nested, outside, rfl, hnested, houtside⟩ := hname.flatten_scope hbody.proper hflat
  have hbehind : behindBlock 0 none (scan (.text none) (text.toList ++ [' ', '\x7d'])).1 =
      some left := by
    simpa [behindBlock, behindBlock_cons, quoteAfter] using hbody.behindBlock_eq 0
  have hcontained : Contained name (nested ++ outside) ↔ Contained name outside := by
    simp only [Contained, List.mem_append]
    exact ⟨fun hall r hr ↦ hall r (.inr hr), fun hout r hr ↦ hr.elim (hnested r) (hout r)⟩
  rw [hcontained]
  constructor
  · intro hout inside rest htext hcloses
    rw [htext, List.append_assoc, List.cons_append] at hbehind hended
    obtain ⟨-, hleft⟩ := hcloses.behindBlock_eq (rest ++ [' ', '\x7d'])
    rw [hleft] at hbehind
    rw [rules?_behind hended hcloses (Option.some.inj hbehind).symm hmore]
    exact ⟨outside, houtside, hout⟩
  · intro hall
    obtain ⟨inside, rest, htext, hcloses, hleft⟩ := exists_closes (.text none) hbehind
    obtain rfl | ⟨rest, rfl, htext'⟩ := append_brace_eq htext
    · obtain rfl : left = [] := hleft
      obtain rfl := reads_nil hmore
      obtain rfl := Option.some.inj (houtside.symm.trans flatten_nil)
      intro r hr
      cases hr
    · obtain ⟨outside', houtside', hout⟩ := hall inside rest htext' hcloses
      rw [htext] at hended
      rw [rules?_behind hended hcloses hleft hmore] at houtside'
      obtain rfl := Option.some.inj (houtside.symm.trans houtside')
      exact hout

/-- The braces of this block are its own, and its rule is in the scope. -/
theorem paragraph_rules_are_contained : ∃ rules,
    "[data-icecube=\"Foo\"] p{color:red}\n" = print .compressed rules ∧
      rules? (scopedTo "Foo" "\"" "p \x7b color: red \x7d") = some rules ∧
      (Contained "Foo" rules ↔ ∀ inside rest,
        "p \x7b color: red \x7d".toList = inside ++ '\x7d' :: rest → Closes 0 (.text none) inside →
          ∃ outside, rules? (String.ofList (rest ++ [' ', '\x7d'])) = some outside ∧
            Contained "Foo" outside) :=
  scoped_rules_contained_iff (by decide +kernel) (by decide +kernel)

/-- A block that begins with a brace leaves the scope, and its rule is for all components. -/
theorem escaped_rule_is_not_contained :
    (StyleStrategy.preprocessor .compressed).compile "Foo" ⟨"\x7d body \x7b color: red", false⟩ =
      some "body{color:red}\n" ∧
    ∃ rules, rules? (scopedTo "Foo" "\"" "\x7d body \x7b color: red") = some rules ∧
      "body{color:red}\n" = print .compressed rules ∧ ¬ Contained "Foo" rules := by
  refine ⟨by decide +kernel, [⟨[[⟨.descendant, "body".toList⟩]],
    [⟨"color".toList, "red".toList⟩]⟩], ?_, ?_, ?_⟩ <;> decide +kernel

end IceCube.Stylesheet

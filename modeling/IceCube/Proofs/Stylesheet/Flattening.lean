import IceCube.Proofs.Stylesheet.Reading
import IceCube.Proofs.Table
import IceCube.Stylesheet.Strategy

/-!
# What a sheet is flattened to

A body is flattened statement by statement: a declaration is kept with its value, an assignment
changes the scope, and a rule comes before those inside it.  The selectors of a rule depend on those
around it only, and an assignment gives a name to the place where it stands and to no place around
it.
-/

namespace IceCube.Stylesheet

variable {parents selectors : List Selector} {scope after : Scope} {body ss : List Statement}
variable {own : List Declaration} {rules : List FlatRule}

/-- The flat rules of a sheet that is read from its text. -/
def rules? (source : String) : Option (List FlatRule) :=
  Reader.sheet? source.toList >>= flatten

theorem preprocess_eq (output : Output) (source : String) :
    preprocess output source = (rules? source).map (print output) := by
  unfold preprocess rules?
  cases Reader.sheet? source.toList with
  | none => rfl
  | some sheet => cases h : flatten sheet <;> simp [h]

/-! ## Statement by statement -/

@[simp] theorem flattenBody_nil : flattenBody parents scope [] = some ([], [], scope) := rfl

theorem flattenBody_declare {d : Declaration} :
    flattenBody parents scope (.declare d :: ss) = some (own, rules, after) ↔
      ∃ value more, evaluate scope d.value = some value ∧
        flattenBody parents scope ss = some (more, rules, after) ∧
        own = ⟨d.property, value⟩ :: more := by
  simp only [flattenBody, flattenRule, Option.bind_eq_bind, Option.bind_eq_some_iff,
    Option.pure_def, Option.some.injEq, Prod.mk.injEq, Prod.exists]
  constructor
  · rintro ⟨_, _, _, ⟨value, hvalue, rfl, rfl, rfl⟩, more, others, after, hmore, rfl, rfl, rfl⟩
    exact ⟨value, more, hvalue, hmore, rfl⟩
  · rintro ⟨value, more, hvalue, hmore, rfl⟩
    exact ⟨_, _, _, ⟨value, hvalue, rfl, rfl, rfl⟩, more, rules, after, hmore, rfl, rfl, rfl⟩

theorem flattenBody_assign {name value : List Char} :
    flattenBody parents scope (.assign name value :: ss) = some (own, rules, after) ↔
      ∃ given, evaluate scope value = some given ∧
        flattenBody parents (scope.assign name given) ss = some (own, rules, after) := by
  simp only [flattenBody, flattenRule, Option.bind_eq_bind, Option.bind_eq_some_iff,
    Option.pure_def, Option.some.injEq, Prod.mk.injEq, Prod.exists]
  constructor
  · rintro ⟨_, _, _, ⟨given, hgiven, rfl, rfl, rfl⟩, own, rules, after, hmore, rfl, rfl, rfl⟩
    exact ⟨given, hgiven, hmore⟩
  · rintro ⟨given, hgiven, hmore⟩
    exact ⟨_, _, _, ⟨given, hgiven, rfl, rfl, rfl⟩, own, rules, after, hmore, rfl, rfl, rfl⟩

theorem flattenBody_rule :
    flattenBody parents scope (.rule selectors body :: ss) = some (own, rules, after) ↔
      ∃ under inside inner within others, selectorsWithin parents selectors = some under ∧
        flattenBody under ([] :: scope) body = some (inside, inner, within) ∧
        flattenBody parents (within.drop 1) ss = some (own, others, after) ∧
        rules = ⟨under, inside⟩ :: (inner ++ others) := by
  simp only [flattenBody, flattenRule, Option.bind_eq_bind, Option.bind_eq_some_iff,
    Option.pure_def, Option.some.injEq, Prod.mk.injEq, Prod.exists]
  constructor
  · rintro ⟨_, _, _, ⟨under, hunder, inside, inner, within, hbody, rfl, rfl, rfl⟩,
      own, others, after, hmore, rfl, rfl, rfl⟩
    exact ⟨under, inside, inner, within, others, hunder, hbody, hmore, rfl⟩
  · rintro ⟨under, inside, inner, within, others, hunder, hbody, hmore, rfl⟩
    exact ⟨_, _, _, ⟨under, hunder, inside, inner, within, hbody, rfl, rfl, rfl⟩,
      own, others, after, hmore, rfl, rfl, rfl⟩

theorem flatten_eq_some_iff {sheet : List Statement} : flatten sheet = some rules ↔
    ∃ all after, flattenBody [] [[]] sheet = some ([], all, after) ∧
      rules = all.filter fun r ↦ !r.declarations.isEmpty := by
  simp only [flatten, Option.bind_eq_bind, Option.bind_eq_some_iff, Prod.exists]
  constructor
  · rintro ⟨own, all, after, hall, h⟩
    split at h
    · rename_i hown
      obtain rfl := Option.some.inj h
      exact ⟨all, after, List.isEmpty_iff.mp hown ▸ hall, rfl⟩
    · cases h
  · rintro ⟨all, after, hall, rfl⟩
    exact ⟨[], all, after, hall, rfl⟩

theorem flatten_nil : flatten [] = some [] := rfl

/-! ## Selectors under selectors -/

variable {parent s t : Selector} {c : Compound}

theorem Compound.within_of_not_mem (h : '&' ∉ c.text) :
    Compound.within parent c = some ([c], false) := by
  unfold Compound.within
  split
  · rename_i htext
    simp [htext] at h
  · simp [h]

theorem Compound.within_of_cons {suffix : List Char} {first : Compound} {rest : Selector}
    (h : c.text = '&' :: suffix) : Compound.within (first :: rest) c =
      some (Selector.extend suffix
        ({ first with combinator := c.combinator.over first.combinator } :: rest), true) := by
  simp [Compound.within, h]

/-- What stands for a compound selector, and whether it names the selector around it. -/
theorem Compound.within_inv {named : Bool} (h : Compound.within parent c = some (s, named)) :
    ('&' ∉ c.text ∧ s = [c] ∧ named = false) ∨
    ∃ suffix first rest, c.text = '&' :: suffix ∧ parent = first :: rest ∧ named = true ∧
      s = Selector.extend suffix
        ({ first with combinator := c.combinator.over first.combinator } :: rest) := by
  by_cases hmem : '&' ∈ c.text
  · right
    unfold Compound.within at h
    split at h
    · rename_i suffix htext
      cases parent with
      | nil => cases h
      | cons first rest =>
        obtain ⟨rfl, rfl⟩ := Prod.mk.inj (Option.some.inj h)
        exact ⟨suffix, first, rest, htext, rfl, rfl, rfl⟩
    · simp [hmem] at h
  · rw [Compound.within_of_not_mem hmem] at h
    obtain ⟨rfl, rfl⟩ := Prod.mk.inj (Option.some.inj h)
    exact .inl ⟨hmem, rfl, rfl⟩

theorem Selector.extend_ne_nil {suffix : List Char} (h : s ≠ []) :
    Selector.extend suffix s ≠ [] := by
  cases s with
  | nil => exact absurd rfl h
  | cons c rest => cases rest <;> simp [Selector.extend]

theorem Selector.extend_append {suffix : List Char} (h : s ≠ []) (before : Selector) :
    Selector.extend suffix (before ++ s) = before ++ Selector.extend suffix s := by
  induction before with
  | nil => rfl
  | cons c before ih =>
    obtain ⟨d, rest, hrest⟩ := List.exists_cons_of_ne_nil (List.append_ne_nil_of_right_ne_nil before h)
    rw [List.cons_append, hrest, Selector.extend, ← hrest, ih, List.cons_append]
    nofun

theorem Selector.within_eq_some_iff : Selector.within parent s = some t ↔
    ∃ parts, s.mapM (Compound.within parent) = some parts ∧
      (if parts.any Prod.snd then parts.flatMap Prod.fst
        else parent ++ parts.flatMap Prod.fst) = t := by
  simp [Selector.within, Option.bind_eq_some_iff]

/-- A selector without an ampersand follows the one around it. -/
theorem Selector.within_of_not_mem (h : ∀ c ∈ s, '&' ∉ c.text) :
    Selector.within parent s = some (parent ++ s) := by
  have hparts : s.mapM (Compound.within parent) = some (s.map fun c ↦ ([c], false)) :=
    mapM_eq_some_iff.mpr <| List.forall₂_map_right_iff.mpr <|
      List.forall₂_same.mpr fun c hc ↦ Compound.within_of_not_mem (h c hc)
  refine Selector.within_eq_some_iff.mpr ⟨_, hparts, ?_⟩
  simp [List.flatMap_map]

theorem Selector.isSome_within :
    (Selector.within parent s).isSome = s.all fun c ↦ (Compound.within parent c).isSome := by
  rw [← isSome_mapM, Selector.within]
  cases s.mapM (Compound.within parent) <;> rfl

/-- What can stand under one selector can stand under all that are not empty. -/
theorem Selector.isSome_within_of_ne_nil {parent' : Selector} (hparent : parent' ≠ [])
    (h : (Selector.within parent s).isSome) : (Selector.within parent' s).isSome := by
  rw [Selector.isSome_within, List.all_eq_true] at h ⊢
  intro c hc
  obtain ⟨⟨chain, named⟩, hchain⟩ := Option.isSome_iff_exists.mp (h c hc)
  obtain ⟨hmem, -, -⟩ | ⟨suffix, -, -, htext, -, -, -⟩ := Compound.within_inv hchain
  · simp [Compound.within_of_not_mem hmem]
  · obtain ⟨first, rest, rfl⟩ := List.exists_cons_of_ne_nil hparent
    simp [Compound.within_of_cons htext]

theorem Selector.within_ne_nil (hs : s ≠ []) (h : Selector.within parent s = some t) : t ≠ [] := by
  obtain ⟨parts, hparts, rfl⟩ := Selector.within_eq_some_iff.mp h
  obtain ⟨c, rest, rfl⟩ := List.exists_cons_of_ne_nil hs
  obtain ⟨⟨chain, named⟩, others, hchain, -, rfl⟩ :=
    List.forall₂_cons_left_iff.mp (mapM_eq_some_iff.mp hparts)
  have hne : chain ≠ [] := by
    obtain ⟨-, rfl, -⟩ | ⟨_, _, _, -, -, -, rfl⟩ := Compound.within_inv hchain
    · simp
    · exact Selector.extend_ne_nil (by simp)
  split <;> simp [hne]

/-- The selectors under which those of a rule stand: outside all rules an empty one. -/
def around (parents : List Selector) : List Selector := if parents = [] then [[]] else parents

theorem around_ne_nil : around parents ≠ [] := by
  unfold around
  split
  · simp
  · assumption

theorem around_of_ne_nil (h : parents ≠ []) : around parents = parents := if_neg h

theorem selectorsWithin_eq_some_iff {under : List Selector} :
    selectorsWithin parents selectors = some under ↔
      ∃ lists, (around parents).mapM (fun p ↦ selectors.mapM (Selector.within p)) = some lists ∧
        lists.flatten = under := by
  cases parents with
  | nil => cases h : selectors.mapM (Selector.within []) <;> simp [selectorsWithin, around, h]
  | cons p ps => simp only [selectorsWithin, around, reduceCtorEq, if_false, Option.map_eq_some_iff]

theorem exists_of_mem_selectorsWithin {under : List Selector}
    (h : selectorsWithin parents selectors = some under) (ht : t ∈ under) :
    ∃ p ∈ around parents, ∃ s ∈ selectors, Selector.within p s = some t := by
  obtain ⟨lists, hlists, rfl⟩ := selectorsWithin_eq_some_iff.mp h
  obtain ⟨list, hlist, ht⟩ := List.mem_flatten.mp ht
  obtain ⟨p, hp, hfound⟩ := exists_of_mem_mapM hlists hlist
  obtain ⟨s, hs, hwithin⟩ := exists_of_mem_mapM hfound ht
  exact ⟨p, hp, s, hs, hwithin⟩

theorem length_selectorsWithin {under : List Selector}
    (h : selectorsWithin parents selectors = some under) :
    under.length = (around parents).length * selectors.length := by
  obtain ⟨lists, hlists, rfl⟩ := selectorsWithin_eq_some_iff.mp h
  have heach : lists.map List.length = List.replicate lists.length selectors.length := by
    refine List.map_eq_replicate_iff.mpr fun list hlist ↦ ?_
    obtain ⟨p, -, hfound⟩ := exists_of_mem_mapM hlists hlist
    exact length_of_mapM hfound
  rw [List.length_flatten, heach, List.sum_replicate_nat, length_of_mapM hlists]

theorem selectorsWithin_ne_nil {under : List Selector}
    (h : selectorsWithin parents selectors = some under) (hselectors : selectors ≠ []) :
    under ≠ [] := by
  intro hnil
  have hlength := length_selectorsWithin h
  rw [hnil, List.length_nil, eq_comm, Nat.mul_eq_zero, List.length_eq_zero_iff,
    List.length_eq_zero_iff] at hlength
  exact hlength.elim around_ne_nil hselectors

/-! ## The block of the sheet itself -/

variable {blocks : Scope} {sheet : Table (List Char) (List Char)}

/-- An assignment within a block does not change the variables of the sheet itself. -/
theorem Scope.assign_append (hblocks : blocks ≠ []) (name value : List Char) : ∃ blocks' : Scope,
    Scope.assign name value (blocks ++ [sheet]) = blocks' ++ [sheet] ∧
      blocks'.length = blocks.length := by
  induction blocks with
  | nil => exact absurd rfl hblocks
  | cons block outer ih =>
    rw [List.cons_append, Scope.assign]
    split
    · exact ⟨Table.insert block name value :: outer, rfl, rfl⟩
    · rename_i hlocal
      have houter : outer ≠ [] := by
        rintro rfl
        simp [Scope.hasLocal] at hlocal
      obtain ⟨outer', houter', hlength⟩ := ih houter
      exact ⟨block :: outer', by rw [houter', List.cons_append], by simp [hlength]⟩

theorem flattenBody_keeps_sheet (hss : Reader.Proper ss) (hblocks : blocks ≠ [])
    (h : flattenBody parents (blocks ++ [sheet]) ss = some (own, rules, after)) :
    ∃ blocks' : Scope, after = blocks' ++ [sheet] ∧ blocks'.length = blocks.length := by
  induction hss generalizing parents blocks own rules after with
  | nil =>
    obtain ⟨-, -, rfl⟩ := by simpa using h
    exact ⟨blocks, rfl, rfl⟩
  | declare d _ ih =>
    obtain ⟨_, _, _, hmore, -⟩ := flattenBody_declare.mp h
    exact ih hblocks hmore
  | assign name value _ ih =>
    obtain ⟨given, -, hmore⟩ := flattenBody_assign.mp h
    obtain ⟨blocks', hassign, hlength⟩ := Scope.assign_append hblocks name given
    have hblocks' : blocks' ≠ [] := by
      rwa [← List.length_pos_iff, hlength, List.length_pos_iff]
    obtain ⟨blocks'', hafter, hlength'⟩ := ih hblocks' (hassign ▸ hmore)
    exact ⟨blocks'', hafter, hlength'.trans hlength⟩
  | rule _ _ _ _ ihbody ih =>
    obtain ⟨_, _, _, within, _, -, hbody, hmore, -⟩ := flattenBody_rule.mp h
    obtain ⟨inside, hwithin, hinside⟩ := ihbody (List.cons_ne_nil [] blocks) hbody
    obtain ⟨block, outer, rfl⟩ := List.exists_cons_of_length_eq_add_one hinside
    obtain rfl : within = block :: (outer ++ [sheet]) := hwithin
    have hlength : outer.length = blocks.length := by simpa using hinside
    have houter : outer ≠ [] := by
      rwa [← List.length_pos_iff, hlength, List.length_pos_iff]
    obtain ⟨blocks', hafter, hlength'⟩ := ih houter hmore
    exact ⟨blocks', hafter, hlength'.trans hlength⟩

end IceCube.Stylesheet

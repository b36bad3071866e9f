import IceCube.Proofs.Stylesheet.Flattening

/-!
# Variables in the scope of a component

The variables of a sheet are local to the scope of the component once the sheet stands in it, so an
assignment inside a rule, which would make a variable of its own, changes those of the sheet instead.
That changes values, but never whether a name has one: wherever a name can be used in the sheet, it
can be used in the scope.
-/

namespace IceCube.Stylesheet

variable {parents parents' : List Selector} {scope scope' after after' : Scope}
variable {name m : List Char} {ss : List Statement}
variable {own own' : List Declaration} {rules rules' : List FlatRule}

/-! ## Names with a value -/

/-- A name has a value in a scope. -/
def Scope.Has (scope : Scope) (m : List Char) : Prop := (scope.get? m).isSome

theorem Scope.has_cons {block : Table (List Char) (List Char)} :
    Scope.Has (block :: scope) m ↔ Table.contains block m ∨ Scope.Has scope m := by
  unfold Scope.Has Scope.get? Table.contains
  rw [List.findSome?_cons]
  cases Table.get? block m <;> simp

theorem Scope.has_of_hasLocal (h : Scope.hasLocal scope m) : scope.Has m := by
  obtain ⟨block, hblock, hm⟩ := List.any_eq_true.mp h
  rw [Scope.Has, Scope.get?, List.isSome_findSome?]
  exact List.any_eq_true.mpr ⟨block, List.dropLast_subset _ hblock, hm⟩

theorem contains_insert {block : Table (List Char) (List Char)} {value : List Char} :
    Table.contains (Table.insert block name value) m ↔ Table.contains block m ∨ m = name := by
  unfold Table.contains
  rw [Table.get?_insert]
  split
  · simp_all
  · rename_i hne
    simp [Ne.symm hne]

/-- An assignment gives its name a value where it stands, and no name a value further out. -/
theorem Scope.has_assign (scope : Scope) (name value : List Char) (k : ℕ) (m : List Char) :
    Scope.Has ((scope.assign name value).drop k) m ↔
      Scope.Has (scope.drop k) m ∨ k = 0 ∧ m = name := by
  induction scope generalizing k with
  | nil =>
    have hassign : Scope.assign name value [] = [Table.insert [] name value] := rfl
    rw [hassign]
    cases k with
    | zero =>
      simp only [List.drop_zero, Scope.has_cons, contains_insert, true_and]
      simp [Scope.Has, Scope.get?, Table.contains]
    | succ k => simp [Scope.Has, Scope.get?]
  | cons block outer ih =>
    rw [Scope.assign]
    split
    · cases k with
      | zero => simp only [List.drop_zero, Scope.has_cons, contains_insert]; grind
      | succ k => simp
    · rename_i hlocal
      have hname : Scope.Has outer name := by
        refine Scope.has_of_hasLocal ?_
        simp_all
      cases k with
      | zero =>
        have := ih 0
        simp only [List.drop_zero, true_and] at this
        simp only [List.drop_zero, Scope.has_cons, this, true_and, or_assoc]
      | succ k =>
        rw [List.drop_succ_cons, List.drop_succ_cons, ih k]
        constructor
        · rintro (hm | ⟨rfl, rfl⟩)
          · exact .inl hm
          · exact .inl hname
        · rintro (hm | ⟨hk, -⟩)
          · exact .inl hm
          · cases hk

/-- The same names have values in two scopes, and in the scopes around them. -/
def Alike (scope scope' : Scope) : Prop :=
  ∀ k m, Scope.Has (scope.drop k) m ↔ Scope.Has (scope'.drop k) m

theorem Alike.assign (h : Alike scope scope') (name value value' : List Char) :
    Alike (scope.assign name value) (scope'.assign name value') := by
  intro k m
  rw [Scope.has_assign, Scope.has_assign, h k m]

theorem Alike.enter (h : Alike scope scope') : Alike ([] :: scope) ([] :: scope') := by
  intro k m
  cases k with
  | zero => exact Scope.has_cons.trans (.trans (or_congr .rfl (h 0 m)) Scope.has_cons.symm)
  | succ k => exact h k m

theorem Alike.leave (h : Alike scope scope') : Alike (scope.drop 1) (scope'.drop 1) := by
  intro k m
  rw [List.drop_drop, List.drop_drop]
  exact h (1 + k) m

/-- Before anything is assigned no name has a value, be the sheet in a block or not. -/
theorem alike_sheet : Alike [[]] [[], []] := by
  intro k m
  obtain _ | _ | _ | k := k <;> simp [Scope.Has, Scope.get?, Table.get?]

/-! ## Values -/

/-- A text in which all variables have values is a text with values for them, and with the same
values it is the same text. -/
theorem exists_substitute (same : Prop)
    (h : ∀ m v, scope.get? m = some v → ∃ v', scope'.get? m = some v' ∧ (same → v' = v))
    {fuel : ℕ} {quote : Option Char} {cs ds : List Char}
    (hds : substitute scope fuel quote cs = some ds) :
    ∃ ds', substitute scope' fuel quote cs = some ds' ∧ (same → ds' = ds) := by
  fun_induction substitute scope fuel quote cs generalizing ds with
  | case1 => exact ⟨_, by rw [substitute], fun _ ↦ Option.some.inj hds⟩
  | case2 => exact ⟨_, by rw [substitute], fun _ ↦ Option.some.inj hds⟩
  | case3 fuel cs name =>
    rename_i ih
    simp only [Option.bind_eq_bind, Option.bind_eq_some_iff, Option.pure_def] at hds
    obtain ⟨value, hvalue, rest, hrest, hds⟩ := hds
    obtain ⟨value', hvalue', hsame⟩ := h name value hvalue
    obtain ⟨rest', hrest', hsame'⟩ := ih hrest
    refine ⟨value' ++ rest', ?_, fun e ↦ ?_⟩
    · rw [substitute]
      exact Option.bind_eq_some_iff.mpr
        ⟨value', hvalue', Option.bind_eq_some_iff.mpr ⟨rest', hrest', rfl⟩⟩
    · rw [hsame e, hsame' e]
      exact Option.some.inj hds
  | case4 fuel quote c cs ih =>
    simp only [Option.bind_eq_bind, Option.bind_eq_some_iff, Option.pure_def] at hds
    obtain ⟨rest, hrest, hds⟩ := hds
    obtain ⟨rest', hrest', hsame⟩ := ih hrest
    refine ⟨'\\' :: c :: rest', ?_, fun e ↦ ?_⟩
    · rw [substitute]
      exact Option.bind_eq_some_iff.mpr ⟨rest', hrest', rfl⟩
    · rw [hsame e]
      exact Option.some.inj hds
  | case5 fuel quote c cs hdollar hback ih =>
    simp only [Option.bind_eq_bind, Option.bind_eq_some_iff, Option.pure_def] at hds
    obtain ⟨rest, hrest, hds⟩ := hds
    obtain ⟨rest', hrest', hsame⟩ := ih hrest
    refine ⟨c :: rest', ?_, fun e ↦ ?_⟩
    · rw [substitute]
      · exact Option.bind_eq_some_iff.mpr ⟨rest', hrest', rfl⟩
      · exact hback
      · exact hdollar
    · rw [hsame e]
      exact Option.some.inj hds

theorem exists_evaluate (same : Prop)
    (h : ∀ m v, scope.get? m = some v → ∃ v', scope'.get? m = some v' ∧ (same → v' = v))
    {value given : List Char} (hgiven : evaluate scope value = some given) :
    ∃ given', evaluate scope' value = some given' ∧ (same → given' = given) := by
  obtain ⟨ds, hds, rfl⟩ := Option.map_eq_some_iff.mp hgiven
  obtain ⟨ds', hds', hsame⟩ := exists_substitute same h hds
  exact ⟨joinLines ds', by rw [evaluate, hds']; rfl, fun e ↦ by rw [hsame e]⟩

theorem Alike.exists_evaluate (h : Alike scope scope') {value given : List Char}
    (hgiven : evaluate scope value = some given) :
    ∃ given', evaluate scope' value = some given' := by
  obtain ⟨given', hgiven', -⟩ := Stylesheet.exists_evaluate False (fun m v hv ↦ by
    have hm : Scope.Has scope m := by simp [Scope.Has, hv]
    obtain ⟨v', hv'⟩ := Option.isSome_iff_exists.mp ((h 0 m).mp hm)
    exact ⟨v', hv', False.elim⟩) hgiven
  exact ⟨given', hgiven'⟩

/-- A block without variables further out plays no part. -/
theorem evaluate_append_nil {value given : List Char} (hgiven : evaluate scope value = some given) :
    evaluate (scope ++ [[]]) value = some given := by
  have hget (m v : List Char) (hv : scope.get? m = some v) :
      ∃ v', Scope.get? (scope ++ [[]]) m = some v' ∧ (True → v' = v) :=
    ⟨v, by simp [Scope.get?, List.findSome?_append, ← hv, Table.get?], fun _ ↦ rfl⟩
  obtain ⟨given', hgiven', hsame⟩ := exists_evaluate True hget hgiven
  rw [hgiven', hsame trivial]

/-! ## Undisturbed variables -/

mutual

/-- The names that a statement gives values to. -/
def Statement.assigned : Statement → List (List Char)
  | .declare _ => []
  | .assign name _ => [name]
  | .rule _ body => assigned body

/-- The names that are given values in a body, in the blocks inside it too. -/
def assigned : List Statement → List (List Char)
  | [] => []
  | s :: ss => s.assigned ++ assigned ss

end

/-- No rule of a sheet gives a value to a name that the sheet itself has given one before. -/
def Undisturbed : (known : List (List Char)) → List Statement → Prop
  | _, [] => True
  | known, .declare _ :: ss => Undisturbed known ss
  | known, .assign name _ :: ss => Undisturbed (name :: known) ss
  | known, .rule _ body :: ss => (∀ name ∈ assigned body, name ∉ known) ∧ Undisturbed known ss

variable {blocks : Scope} {sheet : Table (List Char) (List Char)}

theorem Scope.hasLocal_append : Scope.hasLocal (blocks ++ [sheet]) m =
    blocks.any (Table.contains · m) := by
  rw [Scope.hasLocal, List.dropLast_concat]

/-- An assignment is not changed by one more block outside the sheet, if it does not give a value to a
variable of the sheet from within a block. -/
theorem Scope.assign_append_nil (h : blocks = [] ∨ Table.contains sheet name = false)
    (value : List Char) : Scope.assign name value (blocks ++ [sheet] ++ [[]]) =
      Scope.assign name value (blocks ++ [sheet]) ++ [[]] := by
  induction blocks with
  | nil => simp [Scope.assign, Scope.hasLocal]
  | cons block outer ih =>
    have hsheet : Table.contains sheet name = false := h.resolve_left (List.cons_ne_nil _ _)
    have hlocal : Scope.hasLocal (outer ++ [sheet] ++ [[]]) name =
        Scope.hasLocal (outer ++ [sheet]) name := by
      rw [Scope.hasLocal_append, Scope.hasLocal_append, List.any_append]
      simp [hsheet]
    rw [List.cons_append, List.cons_append, Scope.assign, Scope.assign, hlocal]
    split
    · rfl
    · rw [ih (.inr hsheet)]
      rfl

/-- The same values are declared in two lists of flat rules. -/
def SameValues (rules rules' : List FlatRule) : Prop :=
  List.Forall₂ (fun r r' ↦ r'.declarations = r.declarations) rules rules'

/-- Inside a block that leaves the variables of the sheet alone it makes no difference whether these
are local to a block themselves. -/
theorem flattenBody_inside (hss : Reader.Proper ss) (hblocks : blocks ≠ [])
    (hfree : ∀ m ∈ assigned ss, Table.contains sheet m = false)
    (h : flattenBody parents (blocks ++ [sheet]) ss = some (own, rules, after))
    (h' : flattenBody parents' (blocks ++ [sheet] ++ [[]]) ss = some (own', rules', after')) :
    own' = own ∧ SameValues rules rules' ∧ after' = after ++ [[]] := by
  induction hss generalizing parents parents' blocks own rules after own' rules' after' with
  | nil =>
    obtain ⟨rfl, rfl, rfl⟩ := by simpa using h
    obtain ⟨rfl, rfl, rfl⟩ := by simpa using h'
    exact ⟨rfl, .nil, by simp⟩
  | declare d _ ih =>
    obtain ⟨value, more, hvalue, hmore, rfl⟩ := flattenBody_declare.mp h
    obtain ⟨value', more', hvalue', hmore', rfl⟩ := flattenBody_declare.mp h'
    obtain rfl := Option.some.inj ((evaluate_append_nil hvalue).symm.trans hvalue')
    obtain ⟨rfl, hrules, hafter⟩ := ih hblocks hfree hmore hmore'
    exact ⟨rfl, hrules, hafter⟩
  | assign name value _ ih =>
    obtain ⟨given, hgiven, hmore⟩ := flattenBody_assign.mp h
    obtain ⟨given', hgiven', hmore'⟩ := flattenBody_assign.mp h'
    obtain rfl := Option.some.inj ((evaluate_append_nil hgiven).symm.trans hgiven')
    obtain ⟨blocks', hassign, hlength⟩ := Scope.assign_append hblocks name given
    rw [Scope.assign_append_nil (.inr (hfree name (.head _))), hassign] at hmore'
    have hblocks' : blocks' ≠ [] :=
      List.ne_nil_of_length_pos (hlength ▸ List.length_pos_of_ne_nil hblocks)
    exact ih hblocks' (fun m hm ↦ hfree m (.tail _ hm)) (hassign ▸ hmore) hmore'
  | rule _ _ hbody _ ihbody ih =>
    obtain ⟨under, inside, inner, within, others, -, hinner, hmore, rfl⟩ := flattenBody_rule.mp h
    obtain ⟨under', inside', inner', within', others', -, hinner', hmore', rfl⟩ :=
      flattenBody_rule.mp h'
    obtain ⟨rfl, hinside, rfl⟩ := ihbody (List.cons_ne_nil [] blocks)
      (fun m hm ↦ hfree m (List.mem_append_left _ hm)) hinner hinner'
    obtain ⟨blocks', rfl, hlength⟩ :=
      flattenBody_keeps_sheet hbody (List.cons_ne_nil [] blocks) hinner
    obtain ⟨block, outer, rfl⟩ := List.exists_cons_of_length_eq_add_one hlength
    have houter : outer ≠ [] :=
      List.ne_nil_of_length_pos (Nat.succ.inj hlength ▸ List.length_pos_of_ne_nil hblocks)
    obtain ⟨rfl, hothers, hafter⟩ :=
      ih houter (fun m hm ↦ hfree m (List.mem_append_right _ hm)) hmore hmore'
    exact ⟨rfl, .cons rfl (List.rel_append hinside hothers), hafter⟩

/-- A sheet whose rules leave its variables alone declares the same values when these are local to a
block. -/
theorem flattenBody_undisturbed (hss : Reader.Proper ss) {known : List (List Char)}
    (hundisturbed : Undisturbed known ss)
    (hknown : ∀ m, Table.contains sheet m = true → m ∈ known)
    (h : flattenBody parents [sheet] ss = some (own, rules, after))
    (h' : flattenBody parents' [sheet, []] ss = some (own', rules', after')) :
    own' = own ∧ SameValues rules rules' := by
  induction hss generalizing parents parents' sheet known own rules after own' rules' after' with
  | nil =>
    obtain ⟨rfl, rfl, -⟩ := by simpa using h
    obtain ⟨rfl, rfl, -⟩ := by simpa using h'
    exact ⟨rfl, .nil⟩
  | declare d _ ih =>
    obtain ⟨value, more, hvalue, hmore, rfl⟩ := flattenBody_declare.mp h
    obtain ⟨value', more', hvalue', hmore', rfl⟩ := flattenBody_declare.mp h'
    obtain rfl := Option.some.inj ((evaluate_append_nil hvalue).symm.trans hvalue')
    obtain ⟨rfl, hrules⟩ := ih hundisturbed hknown hmore hmore'
    exact ⟨rfl, hrules⟩
  | assign name value _ ih =>
    obtain ⟨given, hgiven, hmore⟩ := flattenBody_assign.mp h
    obtain ⟨given', hgiven', hmore'⟩ := flattenBody_assign.mp h'
    obtain rfl := Option.some.inj ((evaluate_append_nil hgiven).symm.trans hgiven')
    have hknown' (m : List Char) (hm : Table.contains (Table.insert sheet name given) m = true) :
        m ∈ name :: known := by
      obtain hm | rfl := contains_insert.mp hm
      · exact .tail _ (hknown m hm)
      · exact .head _
    exact ih hundisturbed hknown' (by simpa [Scope.assign, Scope.hasLocal] using hmore)
      (by simpa [Scope.assign, Scope.hasLocal] using hmore')
  | rule _ _ hbody _ ihbody ih =>
    obtain ⟨under, inside, inner, within, others, -, hinner, hmore, rfl⟩ := flattenBody_rule.mp h
    obtain ⟨under', inside', inner', within', others', -, hinner', hmore', rfl⟩ :=
      flattenBody_rule.mp h'
    have hfree : ∀ m ∈ assigned _, Table.contains sheet m = false := fun m hm ↦
      eq_false_of_ne_true fun hcontains ↦ hundisturbed.1 m hm (hknown m hcontains)
    obtain ⟨rfl, hinside, rfl⟩ := flattenBody_inside hbody (List.cons_ne_nil [] []) hfree hinner
      hinner'
    obtain ⟨blocks', rfl, hlength⟩ :=
      flattenBody_keeps_sheet hbody (List.cons_ne_nil [] []) hinner
    obtain ⟨block, rfl⟩ := List.length_eq_one_iff.mp hlength
    obtain ⟨rfl, hothers⟩ := ih hundisturbed.2 hknown hmore hmore'
    exact ⟨rfl, .cons rfl (List.rel_append hinside hothers)⟩

end IceCube.Stylesheet

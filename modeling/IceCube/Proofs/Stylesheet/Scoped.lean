import IceCube.Proofs.Stylesheet.Flattening
import IceCube.Text.Word

/-!
# Sheets inside the selector of a component

The scope of a component is put around a sheet before anything is read.  What the sheet reads as from
there is a rule for the scope, whose body ends with the first brace that closes more than was opened,
and whatever stands behind that brace.
-/

namespace IceCube.Stylesheet

open Reader

variable {name text : String} {found : List Statement}

/-- What stands before the name in the attribute selector of a component. -/
def scopeStart : List Char := '[' :: (scopeAttribute.toList ++ ['=', '"'])

/-- The attribute selector of a component. -/
def scopeText (name : String) : List Char := scopeStart ++ (name.toList ++ ['"', ']'])

/-- The selector of a component. -/
def scopeSelector (name : String) : Selector := [⟨.descendant, scopeText name⟩]

/-- A name is made of letters, numbers and underscores. -/
def IsName (name : String) : Prop := ∀ c ∈ name.toList, Text.isWord c = true

instance : Decidable (IsName name) := List.decidableBAll _ _

theorem toList_scopedTo (name text : String) : (scopedTo name "\"" text).toList =
    (scopeText name ++ [' ', '\x7b', ' ']) ++ (text.toList ++ [' ', '\x7d']) := by
  simp [scopedTo, scopeText, scopeStart]

theorem IsName.ne (h : IsName name) {c d : Char} (hc : c ∈ name.toList)
    (hd : Text.isWord d = false) : c ≠ d := by
  rintro rfl
  simp [h c hc] at hd

/-! ## Reading the scope -/

theorem IsName.passed {p : Char → Bool} (h : IsName name)
    (hp : scopeStart.any p = false) (hend : p ']' = false) :
    Passed p none (scopeText name) := by
  have hback : '\\' ∉ scopeStart := by decide
  have hopen : openQuote none scopeStart = some '"' := by decide
  refine .append_free (fun c hc ↦ ⟨ne_of_mem_of_not_mem hc hback,
    eq_false_of_ne_true (List.any_eq_false.mp hp c hc)⟩) ?_
  rw [hopen]
  refine .append_quoted (fun c hc ↦ ⟨h.ne hc (by decide), h.ne hc (by decide)⟩) ?_
  exact .char (by decide) nofun (.char (by decide) (fun _ ↦ hend) .nil)

theorem IsName.scan_scopedTo (h : IsName name) (text : String) :
    scan (.text none) (scopedTo name "\"" text).toList =
      ahead (scopeText name ++ [' ', '\x7b', ' '])
        (scan (.text none) (text.toList ++ [' ', '\x7d'])) := by
  have hopen : openQuote none (scopeText name ++ [' ', '\x7b', ' ']) = none :=
    (h.passed (p := fun _ ↦ false) rfl rfl).openQuote_append _
  have hslash : '/' ∉ scopeStart := by decide
  have hback : '\\' ∉ scopeStart := by decide
  rw [toList_scopedTo, scan_append_free, hopen]
  intro c hc
  simp only [scopeText, List.mem_append] at hc
  obtain (hc | hc | hc) | hc := hc
  · exact ⟨ne_of_mem_of_not_mem hc hslash, ne_of_mem_of_not_mem hc hback⟩
  · exact ⟨h.ne hc (by decide), h.ne hc (by decide)⟩
  · constructor <;> rintro rfl <;> revert hc <;> decide
  · constructor <;> rintro rfl <;> revert hc <;> decide

theorem trim_scopeText (name : String) : Text.trim (scopeText name) = scopeText name := by
  have hfirst : (scopeText name).dropWhile Text.isBlank = scopeText name :=
    List.dropWhile_cons_of_neg (by decide)
  have hlast : scopeText name = (scopeStart ++ (name.toList ++ ['"'])) ++ [']'] := by
    simp [scopeText]
  rw [Text.trim, hfirst, hlast, Text.dropEndWhile, List.reverse_append, List.reverse_singleton,
    List.singleton_append, List.dropWhile_cons_of_neg (by decide), List.reverse_cons,
    List.reverse_reverse]

theorem IsName.selector?_scopeText (h : IsName name) :
    selector? (scopeText name) = some (scopeSelector name) := by
  have hbreak : breakOutside endsCompound none (scopeText name) = (scopeText name, []) :=
    (h.passed (by decide) (by decide)).breakOutside_eq
  obtain ⟨tail, htail⟩ : ∃ tail, scopeText name = '[' :: tail := ⟨_, rfl⟩
  have hfirst : ('[' :: tail).dropWhile Text.isBlank = '[' :: tail :=
    List.dropWhile_cons_of_neg (by decide)
  have hcompounds : compounds ((scopeText name).length + 1) .descendant (scopeText name) =
      some (scopeSelector name) := by
    rw [htail] at hbreak
    rw [compounds, htail, hfirst]
    simp [combinator?, hbreak, compounds, scopeSelector, htail]
  rw [selector?, hcompounds]
  rfl

theorem IsName.selectors?_scopeText (h : IsName name) :
    selectors? (Text.trim (scopeText name ++ [' '])) = some [scopeSelector name] := by
  have hcomma : breakOutside (· == ',') none (scopeText name) = (scopeText name, []) :=
    (h.passed (by decide) rfl).breakOutside_eq
  have hpieces : ∀ n, commaPieces n (scopeText name) = [scopeText name] := by
    intro n
    cases n with
    | zero => rfl
    | succ n => simp only [commaPieces, hcomma]
  rw [trim_append_blank (by decide), trim_scopeText, selectors?, hpieces]
  simp [h.selector?_scopeText]

/-- The sheet of a component is a rule for the scope, and what stands behind its block. -/
theorem IsName.sheet?_scopedTo (h : IsName name) :
    sheet? (scopedTo name "\"" text).toList = some found ↔
      ∃ body rest more, (scan (.text none) (text.toList ++ [' ', '\x7d'])).2.Ended ∧
        Reads true (' ' :: (scan (.text none) (text.toList ++ [' ', '\x7d'])).1) body rest ∧
        Reads false rest more [] ∧ found = .rule [scopeSelector name] body :: more := by
  have hpassed : Passed endsStatement none (scopeText name ++ [' ']) :=
    .of_unbroken (by decide) rfl quotable_none
      (by rw [(h.passed (by decide) rfl).breakOutside_eq])
      (h.passed (p := endsStatement) (by decide) rfl).openQuote_eq
  rw [sheet?_eq_some_iff, h.scan_scopedTo, ahead_snd, ahead_fst]
  generalize (scan (.text none) (text.toList ++ [' ', '\x7d'])).1 = inside
  have hsplit : scopeText name ++ [' ', '\x7b', ' '] ++ inside =
      (scopeText name ++ [' ']) ++ '\x7b' :: ' ' :: inside := by simp
  rw [hsplit]
  constructor
  · rintro ⟨hended, hreads⟩
    obtain ⟨selectors, body, rest, more, hselectors, hbody, hmore, rfl⟩ := hreads.block_inv hpassed
    obtain rfl := Option.some.inj (hselectors.symm.trans h.selectors?_scopeText)
    exact ⟨body, rest, more, hended, hbody, hmore, rfl⟩
  · rintro ⟨body, rest, more, hended, hbody, hmore, rfl⟩
    exact ⟨hended, .block hpassed h.selectors?_scopeText hbody hmore⟩

theorem IsName.selectorsWithin_scope (h : IsName name) :
    selectorsWithin [] [scopeSelector name] = some [scopeSelector name] := by
  have hwithin : Selector.within [] (scopeSelector name) = some (scopeSelector name) := by
    refine Selector.within_of_not_mem fun c hc ↦ ?_
    obtain rfl := List.mem_singleton.mp hc
    have hstart : '&' ∉ scopeStart := by decide
    simp only [scopeText, List.mem_append, not_or]
    exact ⟨hstart, fun hmem ↦ h.ne hmem (by decide) rfl, by decide⟩
  simp [selectorsWithin, hwithin]

/-! ## Compiling a block -/

theorem rules?_empty : rules? "" = some [] := rfl

theorem IsName.rules?_scopedTo_empty (h : IsName name) :
    rules? (scopedTo name "\"" "") = some [] := by
  have hpassed : Passed endsStatement none [' ', ' '] :=
    .char (by decide) (fun _ ↦ rfl) (.char (by decide) (fun _ ↦ rfl) .nil)
  have hbody : Reads true [' ', ' ', '\x7d'] [] [] := .closing hpassed rfl
  have hsheet : sheet? (scopedTo name "\"" "").toList = some [.rule [scopeSelector name] []] :=
    h.sheet?_scopedTo.mpr ⟨[], [], [], .inl rfl, hbody, .ending rfl rfl, rfl⟩
  rw [rules?, hsheet]
  refine flatten_eq_some_iff.mpr ⟨_, _, flattenBody_rule.mpr
    ⟨_, [], [], _, [], h.selectorsWithin_scope, rfl, rfl, rfl⟩, rfl⟩

/-- A block compiles to the rules of its text, or of its text in the scope of the component, if there
are any; an empty block is no exception. -/
theorem IsName.compile_eq_some_iff (h : IsName name) {output : Output} {isGlobal : Bool}
    {css : String} :
    (StyleStrategy.preprocessor output).compile name ⟨text, isGlobal⟩ = some css ↔
      ∃ rules, rules? (if isGlobal then text else scopedTo name "\"" text) = some rules ∧
        print output rules = css := by
  simp only [StyleStrategy.compile]
  split
  · rename_i hempty
    obtain rfl := String.isEmpty_iff.mp hempty
    have hrules : rules? (if isGlobal then "" else scopedTo name "\"" "") = some [] := by
      cases isGlobal with
      | true => exact rules?_empty
      | false => exact h.rules?_scopedTo_empty
    cases output <;> simp [hrules, print]
  · rw [preprocess_eq, Option.map_eq_some_iff]

end IceCube.Stylesheet

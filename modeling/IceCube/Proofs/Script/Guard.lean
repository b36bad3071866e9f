import IceCube.Proofs.Compiler.Artifacts
import IceCube.Proofs.Registry.Inlined
import IceCube.Proofs.Script.Template

/-!
# The element that a script looks for

A script leaves its stylesheet out where the page has the style element of its component already.
It asks for that element by an id in a template literal, and the name of the component is in there
as it is.  A literal has what is written in it as its value exactly if nothing in it means something
there: what is escaped is longer than what it stands for.  So a script asks for the id that pages
give to the element exactly for names without such signs.
-/

namespace IceCube.Script

open Text

variable {c : Char} {cs behind rest : List Char} {fuel : ℕ} {units : List ℕ}

/-! ## Texts that are their own values -/

/-- Nothing in a text means something else inside a template literal. -/
structure Verbatim (cs : List Char) : Prop where
  marks : ∀ c ∈ cs, isMark c = false
  returns : '\r' ∉ cs
  substitutions : ¬ ['$', '\x7b'] <:+: cs

/-- A sign in front of a text is read as itself. -/
def Plain (c : Char) (cs : List Char) : Prop :=
  isMark c = false ∧ c ≠ '\r' ∧ (c = '$' → cs.head? ≠ some '\x7b')

theorem verbatim_nil : Verbatim [] := ⟨nofun, nofun, by simp⟩

theorem verbatim_cons_iff : Verbatim (c :: cs) ↔ Plain c cs ∧ Verbatim cs := by
  have hprefix : ['$', '\x7b'] <+: c :: cs ↔ c = '$' ∧ cs.head? = some '\x7b' := by
    rw [List.cons_prefix_cons, eq_comm, List.head?_eq_some_iff]
    exact and_congr_right fun _ ↦ ⟨fun ⟨ds, h⟩ ↦ ⟨ds, h.symm⟩, fun ⟨ds, h⟩ ↦ ⟨ds, h.symm⟩⟩
  constructor
  · rintro ⟨hmarks, hreturns, hsubstitutions⟩
    rw [List.infix_cons_iff, hprefix, not_or] at hsubstitutions
    rw [List.mem_cons, not_or] at hreturns
    obtain ⟨hmark, hmarks⟩ := List.forall_mem_cons.mp hmarks
    exact ⟨⟨hmark, Ne.symm hreturns.1, fun hc hbrace ↦ hsubstitutions.1 ⟨hc, hbrace⟩⟩,
      hmarks, hreturns.2, hsubstitutions.2⟩
  · rintro ⟨⟨hmark, hreturn, hdollar⟩, hmarks, hreturns, hsubstitutions⟩
    refine ⟨List.forall_mem_cons.mpr ⟨hmark, hmarks⟩, ?_, ?_⟩
    · rw [List.mem_cons, not_or]
      exact ⟨Ne.symm hreturn, hreturns⟩
    · rw [List.infix_cons_iff, hprefix, not_or]
      exact ⟨fun h ↦ hdollar h.1 h.2, hsubstitutions⟩

/-- Signs that mean nothing else whatever follows them. -/
def isOrdinary (c : Char) : Bool := !isMark c && c != '\r' && c != '$'

/-- Words of such signs in front of a text do not matter. -/
theorem verbatim_append_iff {word : List Char} (h : word.all isOrdinary = true) :
    Verbatim (word ++ cs) ↔ Verbatim cs := by
  induction word with
  | nil => rfl
  | cons c word ih =>
    rw [List.all_cons, Bool.and_eq_true] at h
    obtain ⟨⟨hmark, hreturn⟩, hdollar⟩ : (isMark c = false ∧ c ≠ '\r') ∧ c ≠ '$' := by
      simpa [isOrdinary] using h.1
    rw [List.cons_append, verbatim_cons_iff, ih h.2]
    exact and_iff_right ⟨hmark, hreturn, fun hc ↦ absurd hc hdollar⟩

theorem Verbatim.escapeTemplate_eq_self (h : Verbatim cs) : escapeTemplate cs = cs := by
  induction cs with
  | nil => rfl
  | cons c cs ih =>
    obtain ⟨⟨hmark, -, hdollar⟩, hcs⟩ := verbatim_cons_iff.mp h
    rw [escapeTemplate_of_not_mark hmark hdollar, ih hcs]

theorem Verbatim.unifyNewlines_eq_self (h : Verbatim cs) : unifyNewlines cs = cs := by
  induction cs with
  | nil => rfl
  | cons c cs ih =>
    obtain ⟨⟨-, hreturn, -⟩, hcs⟩ := verbatim_cons_iff.mp h
    rw [unifyNewlines_cons hreturn, ih hcs]

theorem Verbatim.template?_append (h : Verbatim cs) (hfuel : cs.length < fuel) (rest : List Char) :
    template? fuel (cs ++ '\x60' :: rest) = some (value cs, rest) := by
  rw [← h.escapeTemplate_eq_self] at hfuel
  have hread := template?_escapeTemplate cs rest hfuel
  rwa [h.escapeTemplate_eq_self, h.unifyNewlines_eq_self] at hread

/-! ## How long values are -/

theorem value_cons (c : Char) (cs : List Char) : value (c :: cs) = codeUnits c.toNat ++ value cs :=
  List.flatMap_cons

theorem value_append (cs ds : List Char) : value (cs ++ ds) = value cs ++ value ds :=
  List.flatMap_append

theorem length_codeUnits (n : ℕ) : 1 ≤ (codeUnits n).length ∧ (codeUnits n).length ≤ 2 := by
  unfold codeUnits
  split <;> simp

theorem length_le_length_value (cs : List Char) : cs.length ≤ (value cs).length := by
  induction cs with
  | nil => exact Nat.zero_le _
  | cons c cs ih =>
    have hc := (length_codeUnits c.toNat).1
    rw [value_cons, List.length_append, List.length_cons]
    omega

/-- A letter behind a backslash stands for no more code units than it has itself. -/
theorem length_codeUnits_single (c : Char) :
    (codeUnits (single c).toNat).length ≤ (codeUnits c.toNat).length := by
  unfold single
  split <;> exact le_rfl

theorem hexValue?_tick : hexValue? '\x60' = none := by decide

/-- Digits are no backticks. -/
theorem tick_not_mem_of_hexNumber? {digits : List Char} {n : ℕ} (h : hexNumber? digits = some n) :
    '\x60' ∉ digits := by
  have hfold (digits : List Char) (m : ℕ)
      (h : (digits.foldlM (fun n c ↦ (hexValue? c).map (16 * n + ·)) m).isSome) :
      '\x60' ∉ digits := by
    induction digits generalizing m with
    | nil => exact List.not_mem_nil
    | cons c digits ih =>
      rw [List.foldlM_cons] at h
      cases hc : hexValue? c with
      | none => simp [hc] at h
      | some d =>
        have hrest := ih (16 * m + d) (by simpa [hc] using h)
        rw [List.mem_cons, not_or]
        refine ⟨?_, hrest⟩
        rintro rfl
        rw [hexValue?_tick] at hc
        cases hc
  unfold hexNumber? at h
  split at h
  · cases h
  · exact hfold digits 0 (by rw [h]; rfl)

/-- An escape stands for no more than what is written behind its backslash, and a backtick in there
is all that is written. -/
theorem exists_of_escape? (h : escape? cs = some (units, rest)) :
    ∃ taken, cs = taken ++ rest ∧ units.length ≤ (value taken).length ∧
      ('\x60' ∉ taken ∨ taken = ['\x60']) := by
  unfold escape? at h
  split at h
  · cases h
  · cases h
    exact ⟨['\r', '\n'], rfl, Nat.zero_le _, .inl (by decide)⟩
  · split at h
    · cases h
    · cases h
      exact ⟨['0'], rfl, le_rfl, .inl (by decide)⟩
  · rename_i a b cs
    obtain ⟨n, hn, heq⟩ := Option.map_eq_some_iff.mp h
    cases heq
    refine ⟨['x', a, b], rfl, ?_, .inl ?_⟩
    · exact le_trans (by simp) (length_le_length_value _)
    · have htick := tick_not_mem_of_hexNumber? hn
      rw [List.mem_cons, not_or]
      exact ⟨by decide, htick⟩
  · rename_i cs
    split at h
    · rename_i n tail hn hdrop
      split at h
      · cases h
        have hdigits : cs.takeWhile (fun c ↦ (hexValue? c).isSome) ++
            cs.dropWhile (fun c ↦ (hexValue? c).isSome) = cs := List.takeWhile_append_dropWhile
        refine ⟨'u' :: '\x7b' :: cs.takeWhile (fun c ↦ (hexValue? c).isSome) ++ ['\x7d'], ?_, ?_,
          .inl ?_⟩
        · rw [List.append_assoc, List.singleton_append, ← hdrop, List.cons_append, List.cons_append,
            hdigits]
        · refine le_trans (length_codeUnits n).2 (le_trans ?_ (length_le_length_value _))
          simp
        · have htick := tick_not_mem_of_hexNumber? hn
          simp only [List.cons_append, List.mem_cons, List.mem_append, not_or]
          exact ⟨by decide, by decide, htick, by decide, List.not_mem_nil⟩
      · cases h
    · cases h
  · rename_i a b c d cs _
    obtain ⟨n, hn, heq⟩ := Option.map_eq_some_iff.mp h
    cases heq
    refine ⟨['u', a, b, c, d], rfl, ?_, .inl ?_⟩
    · exact le_trans (by simp) (length_le_length_value _)
    · have htick := tick_not_mem_of_hexNumber? hn
      rw [List.mem_cons, not_or]
      exact ⟨by decide, htick⟩
  · rename_i c cs _ _ _ _ _
    have htick : '\x60' ∉ [c] ∨ [c] = ['\x60'] := by
      by_cases hc : c = '\x60'
      · exact .inr (by rw [hc])
      · exact .inl (by simpa using Ne.symm hc)
    split at h
    · cases h
      exact ⟨[c], rfl, Nat.zero_le _, htick⟩
    · split at h
      · cases h
      · cases h
        refine ⟨[c], rfl, ?_, htick⟩
        rw [value_cons, List.length_append]
        exact le_trans (length_codeUnits_single c) (Nat.le_add_right _ _)

/-! ## Literals that are read -/

/-- What was read of a literal with a text in it and more behind its backtick.  Either the reader
has gone no further than the backtick, and then the value is no longer than that of the text, and
only a text without any escapes is its own value; or the text ends in a backslash, and the reader
has gone on behind the backtick. -/
def Within (cs behind rest : List Char) (units : List ℕ) : Prop :=
  (units.length ≤ (value cs).length ∧ (units = value cs → Verbatim cs)) ∨
    (cs.getLast? = some '\\' ∧ ∃ fuel before after,
      template? fuel behind = some (after, rest) ∧ units = before ++ after)

/-- What stands for less than is written cannot be made up for. -/
theorem Within.shorter {taken : List Char} {more : List ℕ} (h : Within cs behind rest more)
    (hlength : units.length < (value taken).length) :
    Within (taken ++ cs) behind rest (units ++ more) := by
  rcases h with ⟨hmore, -⟩ | ⟨hlast, fuel, before, after, hread, rfl⟩
  · have hlt : (units ++ more).length < (value (taken ++ cs)).length := by
      rw [value_append, List.length_append, List.length_append]
      omega
    exact .inl ⟨hlt.le, fun heq ↦ absurd (congrArg List.length heq) hlt.ne⟩
  · refine .inr ⟨?_, fuel, units ++ before, after, hread, (List.append_assoc ..).symm⟩
    rw [List.getLast?_append, hlast]
    rfl

/-- A sign that is read as itself is in its place in the value. -/
theorem Within.plain (h : Within cs behind rest units) (hc : Plain c cs) :
    Within (c :: cs) behind rest (codeUnits c.toNat ++ units) := by
  rcases h with ⟨hlength, hself⟩ | ⟨hlast, fuel, before, after, hread, rfl⟩
  · refine .inl ⟨?_, fun heq ↦ ?_⟩
    · rw [value_cons, List.length_append, List.length_append]
      omega
    · rw [value_cons, List.append_cancel_left_eq] at heq
      exact verbatim_cons_iff.mpr ⟨hc, hself heq⟩
  · refine .inr ⟨?_, fuel, codeUnits c.toNat ++ before, after, hread,
      (List.append_assoc ..).symm⟩
    rw [List.getLast?_cons, hlast]
    rfl

/-- A carriage return is read as a line feed. -/
theorem Within.return (h : Within cs behind rest units) :
    Within ('\r' :: cs) behind rest (codeUnits 0xA ++ units) := by
  rcases h with ⟨hlength, -⟩ | ⟨hlast, fuel, before, after, hread, rfl⟩
  · refine .inl ⟨Nat.succ_le_succ hlength, fun heq ↦ ?_⟩
    -- the first code units differ
    exact absurd (List.cons.inj heq).1 (by decide)
  · refine .inr ⟨?_, fuel, codeUnits 0xA ++ before, after, hread, (List.append_assoc ..).symm⟩
    rw [List.getLast?_cons, hlast]
    rfl

/-- A sign other than a backtick is first in a literal only if it is first in the text in it. -/
theorem head?_of_head?_append (hc : c ≠ '\x60') (h : (cs ++ '\x60' :: behind).head? = some c) :
    cs.head? = some c := by
  cases cs with
  | nil => exact absurd (Option.some.inj h).symm hc
  | cons d cs => exact h

/-- An escape is in the text, or it is that of the backtick behind it. -/
theorem within_of_escape? {tail : List Char} {more : List ℕ}
    (hescape : escape? (cs ++ '\x60' :: behind) = some (units, tail))
    (hmore : template? fuel tail = some (more, rest))
    (hrest : ∀ {ds}, template? fuel (ds ++ '\x60' :: behind) = some (more, rest) →
      Within ds behind rest more) : Within ('\\' :: cs) behind rest (units ++ more) := by
  obtain ⟨taken, htaken, hlength, htick⟩ := exists_of_escape? hescape
  have hshort : units.length < (value ('\\' :: taken)).length := by
    rw [value_cons, List.length_append]
    exact lt_of_le_of_lt hlength (Nat.lt_add_of_pos_left (by decide))
  rcases List.append_eq_append_iff.mp htaken with ⟨k, rfl, hk⟩ | ⟨k, rfl, rfl⟩
  · cases k with
    | nil =>
      rw [List.nil_append] at hk
      subst hk
      have hnil : Within [] behind rest more := hrest hmore
      simpa using hnil.shorter hshort
    | cons d k =>
      rw [List.cons_append, List.cons.injEq] at hk
      obtain ⟨rfl, rfl⟩ := hk
      obtain hne | hone := htick
      · exact absurd (by simp) hne
      · obtain ⟨rfl, rfl⟩ : cs = [] ∧ k = [] := by
          have hlist := congrArg List.length hone
          simp only [List.length_append, List.length_cons, List.length_nil] at hlist
          exact ⟨List.eq_nil_of_length_eq_zero (by omega),
            List.eq_nil_of_length_eq_zero (by omega)⟩
        exact .inr ⟨rfl, fuel, units, more, hmore, rfl⟩
  · exact (hrest hmore).shorter hshort

/-- A literal is no longer than the text in it unless the text ends in a backslash. -/
theorem within_of_template? (h : template? fuel (cs ++ '\x60' :: behind) = some (units, rest)) :
    Within cs behind rest units := by
  induction fuel generalizing cs units with
  | zero => cases h
  | succ fuel ih =>
    cases cs with
    | nil =>
      cases h
      exact .inl ⟨le_rfl, fun _ ↦ verbatim_nil⟩
    | cons c cs =>
      rw [List.cons_append] at h
      by_cases htick : c = '\x60'
      · subst htick
        cases h
        exact .inl ⟨Nat.zero_le _, nofun⟩
      by_cases hback : c = '\\'
      · subst hback
        obtain ⟨⟨us, tail⟩, hescape, hread⟩ := Option.bind_eq_some_iff.mp h
        obtain ⟨⟨more, _⟩, hmore, heq⟩ := Option.map_eq_some_iff.mp hread
        cases heq
        exact within_of_escape? hescape hmore fun h ↦ ih h
      by_cases hreturn : c = '\r'
      · subst hreturn
        by_cases hnewline : cs.head? = some '\n'
        · obtain ⟨cs, rfl⟩ := List.head?_eq_some_iff.mp hnewline
          rw [List.cons_append, template?_return_newline,
            template?_plain rfl (show '\n' ≠ '\r' by decide) (by simp)] at h
          obtain ⟨⟨more, _⟩, hmore, heq⟩ := Option.map_eq_some_iff.mp h
          cases heq
          have hshort : (codeUnits 0xA).length < (value ['\r', '\n']).length := by decide
          exact (ih hmore).shorter hshort
        · rw [template?_return fun hd ↦ hnewline (head?_of_head?_append (by decide) hd)] at h
          obtain ⟨⟨more, _⟩, hmore, heq⟩ := Option.map_eq_some_iff.mp h
          cases heq
          exact (ih hmore).return
      by_cases hdollar : c = '$' ∧ cs.head? = some '\x7b'
      · obtain ⟨rfl, hbrace⟩ := hdollar
        obtain ⟨cs, rfl⟩ := List.head?_eq_some_iff.mp hbrace
        cases h
      · have hplain : Plain c cs := by
          refine ⟨?_, hreturn, fun hc hbrace ↦ hdollar ⟨hc, hbrace⟩⟩
          simp [isMark, hback, htick]
        rw [template?_plain hplain.1 hplain.2.1 fun hc hd ↦
          hplain.2.2 hc (head?_of_head?_append (by decide) hd)] at h
        obtain ⟨⟨more, _⟩, hmore, heq⟩ := Option.map_eq_some_iff.mp h
        cases heq
        exact (ih hmore).plain hplain

/-- A text that means nothing else has one value, whatever is left to the reader. -/
theorem Verbatim.units_eq (h : Verbatim cs)
    (hread : template? fuel (cs ++ '\x60' :: behind) = some (units, rest)) : units = value cs := by
  induction cs generalizing fuel units with
  | nil =>
    cases fuel with
    | zero => cases hread
    | succ fuel =>
      cases hread
      rfl
  | cons c cs ih =>
    obtain ⟨⟨hmark, hreturn, hdollar⟩, hcs⟩ := verbatim_cons_iff.mp h
    cases fuel with
    | zero => cases hread
    | succ fuel =>
      rw [List.cons_append, template?_plain hmark hreturn fun hc hd ↦
        hdollar hc (head?_of_head?_append (by decide) hd)] at hread
      obtain ⟨⟨more, _⟩, hmore, heq⟩ := Option.map_eq_some_iff.mp hread
      cases heq
      rw [value_cons, ← ih hcs hmore]

/-- A literal has the text in it as its value exactly if nothing in the text means something else,
as long as what comes behind it up to the next backtick is plain and ends in a space. -/
theorem literal?_eq_value_iff {next : List Char} (hnext : Verbatim (next ++ [' '])) :
    (∃ rest, literal? ('\x60' :: cs ++ '\x60' :: (next ++ [' '] ++ '\x60' :: behind)) =
      some (value cs, rest)) ↔ Verbatim cs := by
  constructor
  · rintro ⟨rest, h⟩
    rcases within_of_template? h with ⟨-, hself⟩ | ⟨hlast, fuel, before, after, hread, heq⟩
    · exact hself rfl
    · -- the value would end in that space, and the text ends in a backslash
      obtain ⟨init, rfl⟩ := List.getLast?_eq_some_iff.mp hlast
      rw [hnext.units_eq hread, value_append, value_append, ← List.append_assoc] at heq
      have hunits := congrArg List.getLast? heq
      rw [show value [' '] = [0x20] from rfl, show value ['\\'] = [0x5C] from rfl,
        List.getLast?_concat, List.getLast?_concat] at hunits
      cases hunits
  · intro h
    exact ⟨_, h.template?_append (by simp) _⟩

/-! ## The literal of the id -/

/-- What a script has before the literal of the id. -/
def beforeId (script : String) : String :=
  script ++ "\n\n// Embedded CSS\n(() => \x7b\n" ++ "    const styleId = "

/-- What a script has between the literals of the id and of its stylesheet. -/
def betweenLiterals : String :=
  ";\n" ++ "    if (document.getElementById(styleId)) return;\n"
    ++ "    const style = document.createElement('style');\n"
    ++ "    style.id = styleId;\n"
    ++ "    style.textContent ="

theorem all_toList_ofList {p : Char → Bool} (h : cs.all p = true) :
    (String.ofList cs).toList.all p = true := by
  rwa [String.toList_ofList]

theorem verbatim_betweenLiterals : Verbatim (betweenLiterals.toList ++ [' ']) := by
  have hordinary : betweenLiterals.toList.all isOrdinary = true := by
    simp only [betweenLiterals, String.toList_append, List.all_append, Bool.and_eq_true]
    and_intros <;> exact all_toList_ofList (by decide)
  have hspace : Verbatim [' '] := verbatim_cons_iff.mpr ⟨⟨rfl, by decide, nofun⟩, verbatim_nil⟩
  exact (verbatim_append_iff hordinary).mpr hspace

/-- What a script has behind the literal of the id. -/
def behindId (style : String) : List Char :=
  betweenLiterals.toList ++ [' '] ++ '\x60' :: (escapeTemplate style.toList ++
    '\x60' :: behindStyle.toList)

theorem toList_embed (component script style : String) :
    (embed component script style).toList =
      (beforeId script).toList ++ '\x60' :: (styleElementId component).toList ++
        '\x60' :: behindId style := by
  have hopening : beforeStyle component script =
      beforeId script ++ "`" ++ styleElementId component ++ "`" ++ betweenLiterals ++ " " := by
    have hbefore : "    const styleId = `" = "    const styleId = " ++ "`" := rfl
    have hbehind : "`;\n" = "`" ++ ";\n" := rfl
    have hlast : "    style.textContent = " = "    style.textContent =" ++ " " := rfl
    simp only [beforeStyle, beforeId, betweenLiterals, hbefore, hbehind, hlast, String.append_assoc]
  have htick : "`".toList = ['\x60'] := rfl
  have hspace : " ".toList = [' '] := rfl
  simp only [embed_eq, hopening, templateLiteral, behindId, String.toList_append,
    String.toList_ofList, htick, hspace, List.append_assoc, List.cons_append, List.nil_append]

theorem verbatim_styleElementId_iff (component : String) :
    Verbatim (styleElementId component).toList ↔ Verbatim component.toList := by
  rw [styleElementId, String.toList_append]
  exact verbatim_append_iff (all_toList_ofList (by decide))

/-- A page gives the style element of a component its id. -/
theorem exists_mem_stylesheetsOf {r : Registry} {record : Record} (h : record ∈ r.records.values)
    (hstyle : record.compiledStyle.getD "" ≠ "") :
    ∃ text, (styleElementId record.componentName, text) ∈ Registry.stylesheetsOf r.allStyles := by
  rw [Registry.stylesheetsOf_allStyles]
  exact ⟨_, List.mem_map.mpr
    ⟨_, List.mem_filterMap.mpr ⟨record, h, Registry.styled?_of_ne hstyle⟩, rfl⟩⟩

/-- A script asks for the id of the style element of its component exactly if the name of the
component has no backslash, backtick or carriage return and starts no substitution.  Pages give the
element that id whatever the name. -/
theorem guard_asks_for_id_iff (component script style : String) :
    (embed component script style).toList =
      (beforeId script).toList ++ '\x60' :: (styleElementId component).toList ++
        '\x60' :: behindId style ∧
    ((∃ rest, literal? ('\x60' :: (styleElementId component).toList ++ '\x60' :: behindId style) =
      some (value (styleElementId component).toList, rest)) ↔ Verbatim component.toList) ∧
    ∀ (r : Registry) (record : Record), record ∈ r.records.values →
      record.componentName = component → record.compiledStyle.getD "" ≠ "" →
      ∃ text, (styleElementId component, text) ∈ Registry.stylesheetsOf r.allStyles := by
  refine ⟨toList_embed component script style, ?_, ?_⟩
  · rw [← verbatim_styleElementId_iff]
    exact literal?_eq_value_iff verbatim_betweenLiterals
  · rintro r record h rfl hstyle
    exact exists_mem_stylesheetsOf h hstyle

/-- A source whose name has a backtick in it, and nothing else. -/
def tickedFiles : FileTree :=
  ((FileTree.empty []).set ["src"] (.directory FileTree.parentMode)).set ["src", "a`b.ice.py"]
    (.file (Utf8.encode "<style>p</style>") FileTree.fileMode 0)

/-- The source is compiled. -/
def tickedCard : World :=
  (Step.outcome (Request.scan Compiler.cardCompiler).run (.start tickedFiles ⟨none, none⟩)).2

/-- The stylesheet that it compiles to. -/
def tickedStyle : String := "[data-icecube=app_a`b] \x7b p \x7d"

/-- Behind a backtick in its name a script asks for another id than the page has. -/
theorem ticked_name_is_cut_short :
    (tickedCard.files.read ⟨.relative, ["out", "app_a`b.js"]⟩).toOption =
      some (Utf8.encode (embed "app_a`b" "" tickedStyle)) ∧
    Registry.stylesheetsOf (tickedCard.registry "main").allStyles =
      [(styleElementId "app_a`b", tickedStyle)] ∧
    literal? ('\x60' :: (styleElementId "app_a`b").toList ++ '\x60' :: behindId tickedStyle) =
      some (value (styleElementId "app_a").toList, 'b' :: '\x60' :: behindId tickedStyle) ∧
    value (styleElementId "app_a").toList ≠ value (styleElementId "app_a`b").toList := by
  refine ⟨?_, ?_, ?_, ?_⟩
  · decide +kernel
  · decide +kernel
  · decide +kernel
  · decide +kernel

end IceCube.Script

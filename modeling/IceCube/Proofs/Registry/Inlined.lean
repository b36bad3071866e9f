import IceCube.Proofs.Markup.StartTag
import IceCube.Proofs.Registry.Stored
import IceCube.Proofs.Source.Decomposition
import IceCube.Registry.Page

/-!
# Stylesheets read back from a page

A page takes what is between the start tag of a style element and the next closing tag as it stands,
so a stylesheet in which each closing tag is broken up ends where it was meant to end.  Reading the
style elements of a registry gives the stylesheets of its components, one for each component that has
one, under ids that tell them apart.
-/

namespace IceCube.Registry

open Text

variable {r : Registry} {cs rest : List Char}

/-! ## Pages -/

/-- How the start tag of a style element begins. -/
def styleStart : List Char := "<style id=\"".toList

/-- The text up to the next closing tag of a style element, and what follows.  A page reads the
letters of tags in both cases. -/
def rawText : List Char → List Char × List Char
  | [] => ([], [])
  | c :: cs =>
    if ((c :: cs).take closingTag.length).map Char.toLower = closingTag then ([], c :: cs)
    else (c :: (rawText cs).1, (rawText cs).2)

/-- The style elements of a page, by their ids, with the texts in them. -/
def stylesheets : (fuel : Nat) → List Char → List (String × String)
  | 0, _ => []
  | _ + 1, [] => []
  | fuel + 1, c :: cs =>
    if styleStart.isPrefixOf (c :: cs) then
      let tag := (c :: cs).drop styleStart.length
      match tag.dropWhile (· != '"') with
      | '"' :: '>' :: body =>
        (.ofList (Markup.unescape (tag.takeWhile (· != '"'))), .ofList (rawText body).1) ::
          stylesheets fuel (rawText body).2
      | _ => stylesheets fuel cs
    else stylesheets fuel cs

/-- All style elements of a page. -/
def stylesheetsOf (page : String) : List (String × String) := stylesheets page.length page.toList

/-! ## Closing tags -/

/-- A closing tag that is broken up is none, and no other one comes about. -/
theorem isSome_afterFolded?_protectTags {ws : List Char} (hws : '<' ∉ ws)
    (h : (afterFolded? ws (protectTags cs)).isSome) : (afterFolded? ws cs).isSome := by
  induction ws generalizing cs with
  | nil => rfl
  | cons w ws ih =>
    rw [List.mem_cons, not_or] at hws
    cases cs with
    | nil => exact h
    | cons c cs =>
      rw [protectTags] at h
      split at h
      · rw [afterFolded?, Source.sameFolded_angle (Ne.symm hws.1)] at h
        cases h
      · rw [afterFolded?] at h ⊢
        split at h
        · rename_i hc
          rw [if_pos hc]
          exact ih hws.2 h
        · cases h

theorem not_occurs_protectTags (cs : List Char) : ¬ Occurs closingTag (protectTags cs) := by
  induction cs with
  | nil => decide
  | cons c cs ih =>
    rw [protectTags]
    split
    · -- the backslash is neither the second sign of a closing tag nor the first one
      have hfirst : (afterFolded? closingTag ('<' :: '\\' :: protectTags cs)).isSome = false := rfl
      have hsecond : (afterFolded? closingTag ('\\' :: protectTags cs)).isSome = false := rfl
      rw [occurs_cons_iff, occurs_cons_iff, hfirst, hsecond]
      simpa using ih
    · rename_i hnone
      rw [occurs_cons_iff, not_or]
      refine ⟨?_, ih⟩
      intro hsome
      have hstart : (afterFolded? closingTag (c :: cs)).isSome := by
        rw [show closingTag = '<' :: "/style".toList from rfl, afterFolded?] at hsome ⊢
        split at hsome
        · rename_i hc
          rw [if_pos hc]
          exact isSome_afterFolded?_protectTags (by decide) hsome
        · cases hsome
      rw [hnone] at hstart
      cases hstart

theorem led_closingTag : Led closingTag :=
  Source.led_of_not_mem (show '<' ∉ "/style".toList by decide)

/-- A text without closing tags is read up to the one that follows it. -/
theorem rawText_append (h : ¬ Occurs closingTag cs) (rest : List Char) :
    rawText (cs ++ closingTag ++ rest) = (cs, closingTag ++ rest) := by
  induction cs with
  | nil =>
    have hlower : ((closingTag ++ rest).take closingTag.length).map Char.toLower = closingTag := by
      rw [List.take_left]
      decide
    rw [List.nil_append, show closingTag ++ rest = '<' :: ("/style".toList ++ rest) from rfl] at *
    rw [rawText, if_pos hlower]
  | cons c cs ih =>
    rw [occurs_cons_iff, not_or] at h
    have hstart : ¬ ((c :: (cs ++ closingTag ++ rest)).take closingTag.length).map Char.toLower =
        closingTag := by
      intro hlower
      have hoccurs := led_closingTag.occurs_of_overlap (spells_of_toLower (by decide))
        (spells_of_toLower hlower) (List.take_append_drop _ _).symm
      rw [occurs_cons_iff] at hoccurs
      exact hoccurs.elim h.1 h.2
    rw [List.cons_append, List.cons_append, rawText, if_neg hstart, ih h.2]

/-! ## Style elements -/

theorem toList_styleElement (name style : String) :
    (styleElement name style).toList = styleStart ++ ((Markup.escape (Script.styleElementId name)).toList
      ++ '"' :: '>' :: (protectTags style.toList ++ closingTag ++ ['>'])) := by
  have hstart : "<style id=\"".toList = styleStart := rfl
  have hquote : "\">".toList = ['"', '>'] := by decide
  have hclosing : "</style>".toList = closingTag ++ ['>'] := by decide
  rw [styleElement, String.toList_append, String.toList_append, String.toList_append,
    String.toList_append, hclosing, hquote, hstart]
  simp only [String.toList_ofList, List.append_assoc, List.cons_append, List.nil_append]

theorem toList_styleElement_append (name style : String) (rest : List Char) :
    (styleElement name style).toList ++ rest = styleStart ++
      ((Markup.escape (Script.styleElementId name)).toList ++ '"' :: '>' ::
        (protectTags style.toList ++ closingTag ++ '>' :: rest)) := by
  rw [toList_styleElement]
  simp only [List.append_assoc, List.cons_append, List.nil_append]

/-- A style element is read with its id and the text that was put into it. -/
theorem stylesheets_styleElement (name style : String) (rest : List Char) (fuel : Nat) :
    stylesheets (fuel + 1) ((styleElement name style).toList ++ rest) =
      (Script.styleElementId name, .ofList (protectTags style.toList)) ::
        stylesheets fuel (closingTag ++ '>' :: rest) := by
  have htext := toList_styleElement_append name style rest
  obtain ⟨c, cs, hcs⟩ : ∃ c cs, (styleElement name style).toList ++ rest = c :: cs :=
    ⟨_, _, htext⟩
  rw [hcs] at htext
  have hprefix : styleStart.isPrefixOf (c :: cs) = true := by
    rw [htext, List.isPrefixOf_iff_prefix]
    exact List.prefix_append _ _
  have htag := congrArg (List.drop styleStart.length) htext
  rw [List.drop_left] at htag
  rw [hcs, stylesheets, if_pos hprefix, htag]
  simp only [Markup.dropWhile_escape, Markup.takeWhile_escape, Markup.unescape_escape,
    String.ofList_toList, rawText_append (not_occurs_protectTags style.toList)]

theorem stylesheets_cons {c : Char} {cs : List Char} (h : styleStart.isPrefixOf (c :: cs) = false)
    (fuel : Nat) : stylesheets (fuel + 1) (c :: cs) = stylesheets fuel cs := by
  rw [stylesheets, if_neg (by simp [h])]

/-- Where no tag begins there is nothing to read. -/
theorem stylesheets_append {plain : List Char} (h : '<' ∉ plain) (rest : List Char) (fuel : Nat) :
    stylesheets (fuel + plain.length) (plain ++ rest) = stylesheets fuel rest := by
  induction plain with
  | nil => rfl
  | cons c plain ih =>
    rw [List.mem_cons, not_or] at h
    have hstart : styleStart.isPrefixOf (c :: (plain ++ rest)) = false := by
      rw [show styleStart = '<' :: "style id=\"".toList from rfl, List.isPrefixOf]
      simp [h.1]
    rw [List.length_cons, ← Nat.add_assoc, List.cons_append, stylesheets_cons hstart]
    exact ih h.2

/-- There is nothing to read in a closing tag. -/
theorem stylesheets_closingTag (rest : List Char) (fuel : Nat) :
    stylesheets (fuel + 8) (closingTag ++ '>' :: rest) = stylesheets fuel rest := by
  have hplain := stylesheets_append (show '<' ∉ "/style>".toList by decide) rest fuel
  rw [show "/style>".toList.length = 7 from rfl] at hplain
  rw [← hplain]
  exact stylesheets_cons (show styleStart.isPrefixOf ('<' :: ("/style>".toList ++ rest)) = false
    from rfl) (fuel + 7)

theorem stylesheets_newline (rest : List Char) (fuel : Nat) :
    stylesheets (fuel + 1) ('\n' :: rest) = stylesheets fuel rest :=
  stylesheets_cons rfl fuel

/-- A style element has a closing tag at its end. -/
theorem le_length_styleElement (name style : String) : 9 ≤ (styleElement name style).length := by
  rw [← String.length_toList, toList_styleElement]
  simp only [List.length_append, List.length_cons, show styleStart.length = 11 from rfl]
  omega

/-- Style elements stand in lines of their own. -/
theorem toList_styleElements_cons_cons (e e' : String × String) (es : List (String × String)) :
    ("\n".intercalate ((e :: e' :: es).map fun e ↦ styleElement e.1 e.2)).toList =
      (styleElement e.1 e.2).toList ++
        '\n' :: ("\n".intercalate ((e' :: es).map fun e ↦ styleElement e.1 e.2)).toList := by
  rw [List.map_cons, List.map_cons, String.intercalate_cons_cons, String.toList_append,
    String.toList_append, List.append_assoc]
  rfl

theorem length_styleElements_cons_cons (e e' : String × String) (es : List (String × String)) :
    ("\n".intercalate ((e :: e' :: es).map fun e ↦ styleElement e.1 e.2)).length =
      (styleElement e.1 e.2).length +
        (("\n".intercalate ((e' :: es).map fun e ↦ styleElement e.1 e.2)).length + 1) := by
  rw [← String.length_toList, toList_styleElements_cons_cons, List.length_append, List.length_cons,
    String.length_toList, String.length_toList]

/-- Style elements that stand in lines of their own are read one after the other. -/
theorem stylesheets_intercalate (es : List (String × String)) {fuel : Nat}
    (hfuel : ("\n".intercalate (es.map fun e ↦ styleElement e.1 e.2)).length ≤ fuel) :
    stylesheets fuel ("\n".intercalate (es.map fun e ↦ styleElement e.1 e.2)).toList =
      es.map fun e ↦ (Script.styleElementId e.1, .ofList (protectTags e.2.toList)) := by
  induction es generalizing fuel with
  | nil => cases fuel <;> rfl
  | cons e es ih =>
    have he := le_length_styleElement e.1 e.2
    cases es with
    | nil =>
      rw [List.map_singleton, String.intercalate_singleton] at hfuel ⊢
      obtain ⟨fuel, rfl⟩ := Nat.exists_eq_add_of_le' (he.trans hfuel)
      have hread := stylesheets_styleElement e.1 e.2 [] (fuel + 8)
      rw [List.append_nil, stylesheets_closingTag] at hread
      rw [hread]
      cases fuel <;> rfl
    | cons e' es =>
      rw [length_styleElements_cons_cons] at hfuel
      obtain ⟨fuel, rfl⟩ : ∃ k, fuel = k + 1 + 8 + 1 := ⟨fuel - 10, by omega⟩
      rw [toList_styleElements_cons_cons, stylesheets_styleElement, stylesheets_closingTag,
        stylesheets_newline, ih (by omega)]
      rfl

/-! ## The style elements of a registry -/

/-- The name and the stylesheet of a record that has one. -/
def styled? (record : Record) : Option (String × String) :=
  match record.compiledStyle with
  | none | some "" => none
  | some style => some (record.componentName, style)

theorem styled?_eq_some_iff {record : Record} {name style : String} :
    styled? record = some (name, style) ↔
      record.componentName = name ∧ record.compiledStyle = some style ∧ style ≠ "" := by
  unfold styled?
  split
  · simp_all
  · simp_all
  · rename_i other hempty hsome
    rw [hsome]
    constructor
    · rintro h
      cases h
      exact ⟨rfl, rfl, hempty⟩
    · rintro ⟨rfl, hstyle, -⟩
      cases hstyle
      rfl

theorem styled?_of_ne {record : Record} (h : record.compiledStyle.getD "" ≠ "") :
    styled? record = some (record.componentName, record.compiledStyle.getD "") := by
  unfold styled?
  split <;> simp_all

theorem allStyles_eq (r : Registry) : r.allStyles =
    "\n".intercalate ((r.records.values.filterMap styled?).map fun e ↦ styleElement e.1 e.2) := by
  rw [allStyles, List.map_filterMap]
  congr 2
  funext record
  unfold styled?
  split <;> simp_all

/-- A page has the stylesheets of the records that have one, in the order of the records. -/
theorem stylesheetsOf_allStyles (r : Registry) : stylesheetsOf r.allStyles =
    (r.records.values.filterMap styled?).map fun e ↦
      (Script.styleElementId e.1, .ofList (protectTags e.2.toList)) := by
  rw [stylesheetsOf, allStyles_eq]
  exact stylesheets_intercalate _ le_rfl

/-- How many style elements of a page have the id of a component. -/
def inlined (r : Registry) (name : String) : Nat :=
  ((stylesheetsOf r.allStyles).map Prod.fst).count (Script.styleElementId name)

theorem styleElementId_injective : Function.Injective Script.styleElementId := by
  intro a b h
  exact String.append_right_inj _ |>.mp h

/-- What is listed for some records has their names. -/
theorem sublist_names {f : Record → Option (String × String)}
    (hf : ∀ {record e}, f record = some e → e.1 = record.componentName) (records : List Record) :
    ((records.filterMap f).map Prod.fst).Sublist (records.map Record.componentName) := by
  induction records with
  | nil => exact .slnil
  | cons record records ih =>
    cases h : f record with
    | none =>
      rw [List.filterMap_cons_none h]
      exact ih.cons _
    | some e =>
      rw [List.filterMap_cons_some h, List.map_cons, hf h]
      exact ih.cons_cons _

theorem fst_of_styled? {record : Record} {e : String × String} (h : styled? record = some e) :
    e.1 = record.componentName := (styled?_eq_some_iff.mp h).1.symm

/-- The component of a record has one style element in a page if it has a stylesheet, and none if it
has not. -/
theorem Coherent.inlined_eq (h : Coherent r) {i : String} {record : Record}
    (hi : r.get? i = some record) :
    r.inlined record.componentName = if record.compiledStyle.getD "" = "" then 0 else 1 := by
  have hids : ((stylesheetsOf r.allStyles).map Prod.fst) =
      ((r.records.values.filterMap styled?).map Prod.fst).map Script.styleElementId := by
    rw [stylesheetsOf_allStyles, List.map_map, List.map_map]
    rfl
  have hnames := h.nodup_names_values
  have hvalue : record ∈ r.records.values :=
    List.mem_map.mpr ⟨(i, record), Table.mem_of_get? hi, rfl⟩
  rw [inlined, hids, List.count_map_of_injective _ _ styleElementId_injective]
  split
  · rename_i hempty
    rw [List.count_eq_zero]
    intro hmem
    obtain ⟨⟨name, style⟩, he, hname⟩ := List.mem_map.mp hmem
    obtain ⟨other, hother, hstyled⟩ := List.mem_filterMap.mp he
    obtain ⟨rfl, hstyle, hne⟩ := styled?_eq_some_iff.mp hstyled
    -- a name has one record
    obtain rfl := List.inj_on_of_nodup_map hnames hother hvalue hname
    rw [hstyle] at hempty
    exact hne hempty
  · rename_i hstyle
    refine List.count_eq_one_of_mem (hnames.sublist (sublist_names fst_of_styled? _)) ?_
    exact List.mem_map.mpr
      ⟨_, List.mem_filterMap.mpr ⟨record, hvalue, styled?_of_ne hstyle⟩, rfl⟩

end IceCube.Registry

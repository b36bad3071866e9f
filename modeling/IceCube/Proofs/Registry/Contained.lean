import IceCube.Proofs.Registry.Inlined

/-!
# Stylesheets that stay in their elements

The style elements of a registry are read by a reader that takes nothing else: line feeds may stand
between them, and anything more is turned down.  What such a reader finds are the components that
have a stylesheet, one element for each, and the text of an element is the stylesheet with a
backslash in every closing tag.  So neither a stylesheet nor a name can put anything else into the
page.
-/

namespace IceCube

open Step

namespace Registry

open Text

variable {c : Char} {cs ds before : List Char} {fuel : Nat}

/-! ## Closing tags that are broken up -/

/-- A text and what becomes of it when a backslash is put into every closing tag, in whatever case
its letters are, from left to right. -/
inductive Defused : List Char → List Char → Prop where
  | free {cs : List Char} (h : ¬ Occurs closingTag cs) : Defused cs cs
  | tag {before letters after after' : List Char} (h : ¬ Occurs closingTag before)
      (hletters : Spells "style".toList letters) (hafter : Defused after after') :
      Defused (before ++ '<' :: '/' :: letters ++ after)
        (before ++ '<' :: '\\' :: '/' :: letters ++ after')

theorem protectTags_cons (h : afterFolded? closingTag (c :: cs) = none) :
    protectTags (c :: cs) = c :: protectTags cs := by
  rw [protectTags, h]

/-- A text without closing tags stays as it is. -/
theorem protectTags_eq_self (h : ¬ Occurs closingTag cs) : protectTags cs = cs := by
  induction cs with
  | nil => rfl
  | cons c cs ih =>
    rw [occurs_cons_iff, not_or] at h
    rw [protectTags_cons (by simpa using h.1), ih h.2]

/-- What comes before the first closing tag stays as it is. -/
theorem protectTags_append {m : List Char} (hm : Spells closingTag m)
    (h : ¬ Occurs closingTag before) (after : List Char) :
    protectTags (before ++ m ++ after) = before ++ protectTags (m ++ after) := by
  induction before with
  | nil => rfl
  | cons c before ih =>
    have hbefore : ¬ Occurs closingTag before := by
      intro hoccurs
      exact h (by simpa using hoccurs.mono [c] [])
    have hstart : afterFolded? closingTag (c :: (before ++ m ++ after)) = none := by
      rw [Option.eq_none_iff_forall_ne_some]
      intro rest hrest
      obtain ⟨m', hm', heq⟩ := afterFolded?_eq_some_iff.mp hrest
      exact h (led_closingTag.occurs_of_overlap hm hm' heq)
    rw [List.cons_append, List.cons_append, protectTags_cons hstart, ih hbefore, List.cons_append]

/-- No closing tag starts where there is no angle bracket. -/
theorem protectTags_append_of_not_mem {letters : List Char} (h : '<' ∉ letters)
    (after : List Char) : protectTags (letters ++ after) = letters ++ protectTags after := by
  induction letters with
  | nil => rfl
  | cons c letters ih =>
    rw [List.mem_cons, not_or] at h
    have hstart : afterFolded? closingTag (c :: (letters ++ after)) = none := by
      have hangle : sameFolded '<' c = false := by
        rw [← Bool.not_eq_true, sameFolded_iff_of_lt (by decide) (by decide)]
        exact Ne.symm h.1
      rw [show closingTag = '<' :: "/style".toList from rfl, afterFolded?, hangle]
      rfl
    rw [List.cons_append, protectTags_cons hstart, ih h.2, List.cons_append]

/-- A closing tag starts with its two signs and goes on with its name. -/
theorem spells_closing_iff {name m : List Char} : Spells ('<' :: '/' :: name) m ↔
    ∃ letters, m = '<' :: '/' :: letters ∧ Spells name letters := by
  rw [Spells, List.forall₂_cons_left_iff]
  constructor
  · rintro ⟨c, m, hc, hm, rfl⟩
    obtain ⟨d, letters, hd, hletters, rfl⟩ := List.forall₂_cons_left_iff.mp hm
    rw [sameFolded_iff_of_lt (by decide) (by decide)] at hc hd
    exact ⟨letters, by rw [hc, hd], hletters⟩
  · rintro ⟨letters, rfl, hletters⟩
    exact ⟨'<', _, by decide, .cons (by decide) hletters, rfl⟩

/-- The letters of a tag are no angle brackets. -/
theorem angle_not_mem_of_spells {word letters : List Char} (hword : '<' ∉ word)
    (h : Spells word letters) : '<' ∉ letters := by
  induction h with
  | nil => exact List.not_mem_nil
  | cons hc _ ih =>
    rw [List.mem_cons, not_or] at hword ⊢
    refine ⟨?_, ih hword.2⟩
    rintro rfl
    rw [Source.sameFolded_angle (Ne.symm hword.1)] at hc
    cases hc

/-- A backslash is put into the first closing tag, and what follows it is gone on with. -/
theorem protectTags_tag {letters : List Char} (h : ¬ Occurs closingTag before)
    (hletters : Spells "style".toList letters) (after : List Char) :
    protectTags (before ++ '<' :: '/' :: letters ++ after) =
      before ++ '<' :: '\\' :: '/' :: letters ++ protectTags after := by
  have hm : Spells closingTag ('<' :: '/' :: letters) :=
    spells_closing_iff.mpr ⟨letters, rfl, hletters⟩
  have hangle : '<' ∉ '/' :: letters := by
    rw [List.mem_cons, not_or]
    exact ⟨by decide, angle_not_mem_of_spells (by decide) hletters⟩
  have htag : protectTags ('<' :: '/' :: letters ++ after) =
      '<' :: '\\' :: protectTags ('/' :: letters ++ after) := by
    have hfound := afterFolded?_append hm after
    rw [List.cons_append] at hfound ⊢
    rw [protectTags, hfound]
  rw [protectTags_append hm h, htag, protectTags_append_of_not_mem hangle]
  simp

/-- A text is protected by breaking up its closing tags from left to right. -/
theorem defused_iff : Defused cs ds ↔ ds = protectTags cs := by
  constructor
  · intro h
    induction h with
    | free h => exact (protectTags_eq_self h).symm
    | tag h hletters _ ih => rw [protectTags_tag h hletters, ih]
  · rintro rfl
    induction hlength : cs.length using Nat.strong_induction_on generalizing cs with
    | _ n ih =>
      subst hlength
      by_cases hoccurs : Occurs closingTag cs
      · obtain ⟨⟨before, after⟩, hsplit⟩ := Option.isSome_iff_exists.mp (occurs_iff.mp hoccurs)
        have hfree := not_occurs_of_splitAtFolded? hsplit (by decide)
        obtain ⟨m, hm, rfl⟩ := exists_of_splitAtFolded? hsplit
        obtain ⟨letters, rfl, hletters⟩ := spells_closing_iff.mp hm
        rw [protectTags_tag hfree hletters]
        refine .tag hfree hletters (ih after.length ?_ rfl)
        simp only [List.length_append, List.length_cons]
        omega
      · rw [protectTags_eq_self hoccurs]
        exact .free hoccurs

/-! ## Pages of style elements -/

/-- The style elements of a page that has nothing else but line feeds, by their ids, with the texts
in them. -/
def sheets? : (fuel : Nat) → List Char → Option (List (String × String))
  | _, [] => some []
  | 0, _ => none
  | fuel + 1, '\n' :: cs => sheets? fuel cs
  | fuel + 1, cs =>
    if styleStart.isPrefixOf cs then
      let tag := cs.drop styleStart.length
      match tag.dropWhile (· != '"') with
      | '"' :: '>' :: body =>
        match (rawText body).2.drop closingTag.length with
        | '>' :: rest => (sheets? fuel rest).map
            ((.ofList (Markup.unescape (tag.takeWhile (· != '"'))), .ofList (rawText body).1) :: ·)
        | _ => none
      | _ => none
    else none

/-- The style elements of a page that has nothing else. -/
def sheetsOf? (page : String) : Option (List (String × String)) := sheets? page.length page.toList

/-- A style element is read with its id and the text that was put into it. -/
theorem sheets?_styleElement (name style : String) (rest : List Char) (fuel : Nat) :
    sheets? (fuel + 1) ((styleElement name style).toList ++ rest) = (sheets? fuel rest).map
      ((Script.styleElementId name, .ofList (protectTags style.toList)) :: ·) := by
  have htext := toList_styleElement_append name style rest
  have hprefix : styleStart.isPrefixOf ((styleElement name style).toList ++ rest) = true := by
    rw [htext, List.isPrefixOf_iff_prefix]
    exact List.prefix_append _ _
  have htag := congrArg (List.drop styleStart.length) htext
  rw [List.drop_left] at htag
  obtain ⟨tail, htail⟩ : ∃ tail, (styleElement name style).toList ++ rest = '<' :: tail :=
    ⟨_, htext⟩
  rw [htail] at hprefix htag ⊢
  rw [sheets?, if_pos hprefix, htag]
  · simp only [Markup.dropWhile_escape, Markup.takeWhile_escape, Markup.unescape_escape,
      String.ofList_toList, rawText_append (not_occurs_protectTags style.toList), List.drop_left]
  · simp
  · simp

theorem sheets?_newline (cs : List Char) (fuel : Nat) :
    sheets? (fuel + 1) ('\n' :: cs) = sheets? fuel cs := by rw [sheets?]

/-- Style elements in lines of their own are all that is read. -/
theorem sheets?_intercalate (es : List (String × String))
    (hfuel : ("\n".intercalate (es.map fun e ↦ styleElement e.1 e.2)).length ≤ fuel) :
    sheets? fuel ("\n".intercalate (es.map fun e ↦ styleElement e.1 e.2)).toList =
      some (es.map fun e ↦ (Script.styleElementId e.1, .ofList (protectTags e.2.toList))) := by
  induction es generalizing fuel with
  | nil => cases fuel <;> rfl
  | cons e es ih =>
    have he := le_length_styleElement e.1 e.2
    cases es with
    | nil =>
      rw [List.map_singleton, String.intercalate_singleton] at hfuel ⊢
      obtain ⟨fuel, rfl⟩ := Nat.exists_eq_add_of_le' (Nat.one_le_of_lt (he.trans hfuel))
      have hread := sheets?_styleElement e.1 e.2 [] fuel
      rw [List.append_nil] at hread
      rw [hread]
      cases fuel <;> rfl
    | cons e' es =>
      rw [length_styleElements_cons_cons] at hfuel
      obtain ⟨fuel, rfl⟩ : ∃ k, fuel = k + 1 + 1 := ⟨fuel - 2, by omega⟩
      rw [toList_styleElements_cons_cons, sheets?_styleElement, sheets?_newline, ih (by omega)]
      rfl

/-! ## The style elements of a registry -/

/-- The records that have a stylesheet, in the order in which they were registered. -/
def styledRecords (r : Registry) : List Record :=
  r.records.values.filter fun record ↦ record.compiledStyle.getD "" != ""

theorem filterMap_styled? (r : Registry) : r.records.values.filterMap styled? =
    r.styledRecords.map fun record ↦ (record.componentName, record.compiledStyle.getD "") := by
  rw [styledRecords, ← List.filterMap_eq_map, List.filterMap_filter]
  refine List.filterMap_congr fun record _ ↦ ?_
  unfold styled?
  split <;> simp_all

/-- A page that is made of the style elements of a registry has these and nothing else. -/
theorem sheetsOf?_allStyles (r : Registry) : sheetsOf? r.allStyles =
    some (r.styledRecords.map fun record ↦ (Script.styleElementId record.componentName,
      .ofList (protectTags (record.compiledStyle.getD "").toList))) := by
  rw [sheetsOf?, allStyles_eq, sheets?_intercalate _ le_rfl, filterMap_styled?, List.map_map]
  rfl

theorem Coherent.nodup_styleElementIds {r : Registry} (h : Coherent r) :
    (r.styledRecords.map fun record ↦ Script.styleElementId record.componentName).Nodup := by
  have hsublist : r.styledRecords.Sublist r.records.values := List.filter_sublist
  have hids := (h.nodup_names_values.sublist (hsublist.map Record.componentName)).map styleElementId_injective
  rwa [List.map_map] at hids

end Registry

/-- Inlined stylesheets cannot break out.  A page has one style element for each component that has
a stylesheet, in the order in which they were registered, and nothing else.  Their ids are those of
the components and tell them apart, and their texts are the stylesheets with a backslash in every
closing tag. -/
theorem inlined_styles_stay_inside {w : World} (hw : Reachable w) (home : RegistryId) :
    ∃ sheets, Registry.sheetsOf? (w.registry home).allStyles = some sheets ∧
      List.Forall₂ (fun record sheet ↦
          sheet.1 = Script.styleElementId record.componentName ∧
          Registry.Defused (record.compiledStyle.getD "").toList sheet.2.toList)
        (w.registry home).styledRecords sheets ∧
      (sheets.map Prod.fst).Nodup := by
  refine ⟨_, Registry.sheetsOf?_allStyles _, ?_, ?_⟩
  · rw [List.forall₂_map_right_iff, List.forall₂_same]
    intro record _
    exact ⟨rfl, Registry.defused_iff.mpr String.toList_ofList⟩
  · rw [List.map_map]
    exact (Registry.Coherent.of_reachable hw home).nodup_styleElementIds

/-- A world in which a card is registered whose stylesheet has a closing tag with a long s. -/
def closingCard : World :=
  let card : Record := .cached ⟨"app.Card", "app_Card", "out/card.py", "out/card",
    some "a</\u017fTYLE><script>", none, "0123abcd"⟩
  (outcome (Request.register "main" "app.Card" card).run (.start (.empty []) ⟨none, none⟩)).2

/-- The closing tag is broken up, and the script stays text. -/
theorem closing_card_stays_inside : Reachable closingCard ∧
    ∃ text, Registry.sheetsOf? (closingCard.registry "main").allStyles =
        some [("icecube-style-app_Card", text)] ∧
      Registry.Defused "a</\u017fTYLE><script>".toList text.toList := by
  have hw : Reachable closingCard := .request (.start _ _) _
  obtain ⟨sheets, hread, hall, -⟩ := inlined_styles_stay_inside hw "main"
  obtain ⟨⟨id, text⟩, _, ⟨hid, htext⟩, hnil, rfl⟩ := List.forall₂_cons_left_iff.mp hall
  cases hnil
  obtain rfl : id = "icecube-style-app_Card" := hid
  exact ⟨hw, text, hread, htext⟩

end IceCube

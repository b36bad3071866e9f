import IceCube.Proofs.Markup.Reader

/-!
# Trees read back from their pages

A page does not tell where one text ends and the next one begins, what was left out and what the
elements without content were given.  Everything else of a tree is read back, so two trees have one
page only if they differ in this alone, and the elements that are read do not depend on the texts.
The induction is on the parts from left to right, with the text that was met since the last tag.
-/

namespace IceCube

namespace Markup

open Reader

/-! ## What a page tells of a tree -/

/-- The nodes with a text in front of them, joined to a text that they begin with. -/
def prependText (s : String) : List Node → List Node
  | .text t :: ns => .text (s ++ t) :: ns
  | ns => textNodes s ++ ns

mutual

/-- The nodes with a part of a tree in front of them.  Of a part that is markup already nothing is
claimed; it is taken for a text. -/
def prepend : Html → List Node → List Node
  | .absent, ns => ns
  | .text s, ns => prependText s ns
  | .raw s, ns => prependText s ns
  | .element tag as children, ns =>
    .element tag (kept as) (if tag ∈ voidNames then [] else contents children) :: ns

/-- The parts of a tree without what is absent or empty and without the children of elements that
have no content, with texts that meet joined. -/
def contents : List Html → List Node
  | [] => []
  | h :: hs => prepend h (contents hs)

end

/-- Parts of a tree whose tags are plain and belong to elements that have elements in them, and
which are no markup already. -/
inductive Clean : List Html → Prop where
  | nil : Clean []
  | absent {hs : List Html} (h : Clean hs) : Clean (.absent :: hs)
  | text (s : String) {hs : List Html} (h : Clean hs) : Clean (.text s :: hs)
  | element {tag : String} {as : List (String × AttributeValue)} {children hs : List Html}
      (htag : PlainTag tag as) (hkind : tag ∉ rawNames ++ escapableNames)
      (hchildren : Clean children) (h : Clean hs) : Clean (.element tag as children :: hs)

variable {hs : List Html}

theorem contents_element (tag : String) (as : List (String × AttributeValue))
    (children hs : List Html) : contents (.element tag as children :: hs) =
      .element tag (kept as) (if tag ∈ voidNames then [] else contents children) :: contents hs :=
  rfl

theorem prependText_empty (ns : List Node) : prependText "" ns = ns := by
  unfold prependText
  split
  · rw [String.empty_append]
  · rfl

theorem prependText_of_ne {s : String} {ns : List Node} (h : ∀ u more, ns ≠ .text u :: more) :
    prependText s ns = textNodes s ++ ns := by
  unfold prependText
  split
  · exact absurd rfl (h _ _)
  · rfl

theorem prependText_append (s t : String) (ns : List Node) :
    prependText (s ++ t) ns = prependText s (prependText t ns) := by
  have hnew {ns : List Node} (hns : ∀ u more, ns ≠ .text u :: more) :
      prependText (s ++ t) ns = prependText s (prependText t ns) := by
    rw [prependText_of_ne hns, prependText_of_ne hns, textNodes, textNodes]
    obtain rfl | ht := eq_or_ne t ""
    · rw [if_pos rfl, List.nil_append, String.append_empty, prependText_of_ne hns, textNodes]
    · rw [if_neg ht, if_neg (by simp [ht]), List.singleton_append, List.singleton_append,
        prependText]
  match ns with
  | [] => exact hnew nofun
  | .text u :: more => rw [prependText, prependText, prependText, String.append_assoc]
  | .element _ _ _ :: _ => exact hnew nofun

/-! ## Reading what was written -/

theorem escape_append (s t : String) : escape (s ++ t) = escape s ++ escape t := by
  rw [escape, escape, escape, String.toList_append, List.flatMap_append, String.ofList_append]

theorem isVoid_iff {tag : String} : Html.isVoid tag = true ↔ tag ∈ voidNames :=
  List.contains_iff_mem

theorem toList_render_void {tag : String} (h : tag ∈ voidNames)
    (as : List (String × AttributeValue)) (children : List Html) (cs : List Char) :
    (Html.element tag as children).render.toList ++ cs =
      '<' :: (tag.toList ++ ((Html.renderAttributes as).toList ++ '>' :: cs)) := by
  rw [Html.render, if_pos (isVoid_iff.mpr h)]
  simp

theorem toList_render_element {tag : String} (h : tag ∉ voidNames)
    (as : List (String × AttributeValue)) (children : List Html) (cs : List Char) :
    (Html.element tag as children).render.toList ++ cs =
      '<' :: (tag.toList ++ ((Html.renderAttributes as).toList ++ '>' ::
        ((Html.renderAll children).toList ++ '<' :: '/' :: (tag.toList ++ '>' :: cs)))) := by
  rw [Html.render, if_neg (by rwa [isVoid_iff])]
  simp

theorem toList_renderAll_cons (h : Html) (hs : List Html) (cs : List Char) :
    (Html.renderAll (h :: hs)).toList ++ cs =
      h.render.toList ++ ((Html.renderAll hs).toList ++ cs) := by
  rw [Html.renderAll, String.toList_append, List.append_assoc]

/-- Parts are read up to the next end tag, with any text in front of them. -/
def Reads (hs : List Html) : Prop :=
  ∀ (s : String) (rest : List Char) (fuel : Nat), Ends rest →
    ((escape s).toList ++ ((Html.renderAll hs).toList ++ rest)).length < fuel →
    nodes? fuel ((escape s).toList ++ ((Html.renderAll hs).toList ++ rest)) =
      some (prependText s (contents hs), rest)

theorem Reads.nodes?_eq (h : Reads hs) {rest : List Char} (hrest : Ends rest) {fuel : Nat}
    (hfuel : ((Html.renderAll hs).toList ++ rest).length < fuel) :
    nodes? fuel ((Html.renderAll hs).toList ++ rest) = some (contents hs, rest) := by
  have hread := h "" rest fuel hrest hfuel
  rwa [prependText_empty] at hread

/-- A text is read in front of what is read by itself. -/
theorem nodes?_textNodes {cs rest : List Char} {ns : List Node}
    (hcs : cs = [] ∨ ∃ after, cs = '<' :: after)
    (hread : ∀ fuel, cs.length < fuel → nodes? fuel cs = some (ns, rest)) (s : String) {fuel : Nat}
    (hfuel : ((escape s).toList ++ cs).length < fuel) :
    nodes? fuel ((escape s).toList ++ cs) = some (textNodes s ++ ns, rest) := by
  obtain rfl | hs := eq_or_ne s ""
  · exact hread fuel hfuel
  · obtain ⟨c, cs', hc⟩ := exists_cons_escape hs
    rw [List.length_append, hc, List.length_cons] at hfuel
    obtain ⟨fuel, rfl⟩ := Nat.exists_eq_add_one_of_ne_zero (Nat.ne_of_gt (Nat.zero_lt_of_lt hfuel))
    rw [nodes?_text hs hcs (hread fuel (by omega)), textNodes, if_neg hs, List.singleton_append]

theorem reads_nil : Reads [] := by
  intro s rest fuel hrest hfuel
  refine nodes?_textNodes (hrest.imp_right fun ⟨cs, hcs⟩ ↦ ⟨_, hcs⟩) (fun fuel hfuel ↦ ?_) s hfuel
  obtain ⟨fuel, rfl⟩ := Nat.exists_eq_add_one_of_ne_zero (Nat.ne_of_gt (Nat.zero_lt_of_lt hfuel))
  exact nodes?_of_ends hrest

theorem Reads.absent (h : Reads hs) : Reads (.absent :: hs) := by
  have hsame : Html.renderAll (.absent :: hs) = Html.renderAll hs := by
    rw [Html.renderAll, Html.render, String.empty_append]
  intro s rest fuel hrest hfuel
  rw [hsame] at hfuel ⊢
  exact h s rest fuel hrest hfuel

/-- A text joins the one that is in front of it. -/
theorem Reads.text (h : Reads hs) (t : String) : Reads (.text t :: hs) := by
  intro s rest fuel hrest hfuel
  have hjoin : (escape s).toList ++ ((Html.renderAll (.text t :: hs)).toList ++ rest) =
      (escape (s ++ t)).toList ++ ((Html.renderAll hs).toList ++ rest) := by
    rw [toList_renderAll_cons, Html.render, escape_append, String.toList_append, List.append_assoc]
  rw [hjoin] at hfuel ⊢
  rw [h (s ++ t) rest fuel hrest hfuel, prependText_append]
  rfl

/-- An element ends where its own end tag is, or with its start tag. -/
theorem Reads.element {tag : String} {as : List (String × AttributeValue)} {children : List Html}
    (htag : PlainTag tag as) (hkind : tag ∉ rawNames ++ escapableNames)
    (hchildren : Reads children) (h : Reads hs) : Reads (.element tag as children :: hs) := by
  intro s rest fuel hrest hfuel
  refine nodes?_textNodes (.inr ?_) (fun fuel hfuel ↦ ?_) s hfuel
  · rw [toList_renderAll_cons]
    by_cases hvoid : tag ∈ voidNames
    · exact ⟨_, toList_render_void hvoid as children _⟩
    · exact ⟨_, toList_render_element hvoid as children _⟩
  · obtain ⟨fuel, rfl⟩ := Nat.exists_eq_add_one_of_ne_zero (Nat.ne_of_gt (Nat.zero_lt_of_lt hfuel))
    rw [toList_renderAll_cons] at hfuel ⊢
    by_cases hvoid : tag ∈ voidNames
    · rw [toList_render_void hvoid] at hfuel ⊢
      simp only [List.length_cons, List.length_append] at hfuel
      have hmore := h.nodes?_eq hrest (show _ < fuel by rw [List.length_append]; omega)
      rw [nodes?_element htag (content?_of_void _ hvoid _) hmore, if_pos hvoid]
    · rw [toList_render_element hvoid] at hfuel ⊢
      simp only [List.length_cons, List.length_append] at hfuel
      have hmore := h.nodes?_eq hrest (show _ < fuel by rw [List.length_append]; omega)
      have hends : Ends ('<' :: '/' ::
          (tag.toList ++ '>' :: ((Html.renderAll hs).toList ++ rest))) := .inr ⟨_, rfl⟩
      have hinner := hchildren.nodes?_eq hends
        (show _ < fuel by simp only [List.length_append, List.length_cons]; omega)
      have hcontent := content?_of_inner hvoid hkind hinner (endTag?_tag htag.name _)
      rw [nodes?_element htag hcontent hmore, if_neg hvoid]

theorem Clean.reads (h : Clean hs) : Reads hs := by
  induction h with
  | nil => exact reads_nil
  | absent _ ih => exact ih.absent
  | text s _ ih => exact ih.text s
  | element htag hkind _ _ ihchildren ih => exact ihchildren.element htag hkind ih

/-- A written page is read as what it tells of its parts. -/
theorem Clean.read_renderAll (h : Clean hs) : read (Html.renderAll hs) = some (contents hs) := by
  have hread := h.reads.nodes?_eq (.inl rfl : Ends [])
    (show _ < (Html.renderAll hs).length + 1 by simp [String.length_toList])
  rw [List.append_nil] at hread
  rw [read, hread]

-- A page takes the content of a stylesheet as it stands, so the escapes stay in it.
example : read (Html.element "style" [] [.text "a>b"]).render =
    some [.element "style" [] [.text "a&gt;b"]] := by rfl

/-! ## Writing what was read -/

/-- The attributes of a start tag as they are written. -/
def written (as : List (String × Option String)) : List (String × AttributeValue) :=
  as.map fun a ↦ (a.1, a.2.elim .flag .text)

mutual

/-- A part of a page as a part of a tree. -/
def Node.toHtml : Node → Html
  | .text s => .text s
  | .element tag as children => .element tag (written as) (toHtmls children)

/-- Parts of a page as parts of a tree. -/
def toHtmls : List Node → List Html
  | [] => []
  | n :: ns => n.toHtml :: toHtmls ns

end

theorem renderAttributes_written {as : List (String × AttributeValue)}
    (h : ∀ a ∈ as, ∀ s, a.2 ≠ .raw s) :
    Html.renderAttributes (written (kept as)) = Html.renderAttributes as := by
  induction as with
  | nil => rfl
  | cons a as ih =>
    obtain ⟨hvalue, hmore⟩ := List.forall_mem_cons.mp h
    obtain ⟨name, value⟩ := a
    rw [renderAttributes_cons, ← ih hmore]
    cases value with
    | absent => exact String.empty_append.symm
    | flag => exact renderAttributes_cons name .flag _
    | text s => exact renderAttributes_cons name (.text s) _
    | raw s => exact absurd rfl (hvalue s)

theorem renderAll_prependText (s : String) (ns : List Node) :
    Html.renderAll (toHtmls (prependText s ns)) = escape s ++ Html.renderAll (toHtmls ns) := by
  unfold prependText
  split
  · rw [toHtmls, toHtmls, Node.toHtml, Node.toHtml, Html.renderAll, Html.renderAll, Html.render,
      Html.render, escape_append, String.append_assoc]
  · unfold textNodes
    split_ifs with hs
    · subst hs
      exact String.empty_append.symm
    · rfl

/-- What a page tells of parts of a tree is written as the page. -/
theorem Clean.renderAll_contents (h : Clean hs) :
    Html.renderAll (toHtmls (contents hs)) = Html.renderAll hs := by
  induction h with
  | nil => rfl
  | absent _ ih =>
    rw [Html.renderAll, Html.render, String.empty_append, ← ih]
    rfl
  | text s _ ih =>
    rw [Html.renderAll, Html.render, ← ih]
    exact renderAll_prependText s _
  | @element tag as children hs htag _ _ _ ihchildren ih =>
    have hattributes := renderAttributes_written htag.values
    rw [contents_element, toHtmls, Node.toHtml, Html.renderAll, Html.renderAll, ih, Html.render,
      Html.render, hattributes]
    by_cases hvoid : tag ∈ voidNames
    · have hisVoid : Html.isVoid tag = true := isVoid_iff.mpr hvoid
      simp only [if_pos hisVoid]
    · have hisVoid : ¬ Html.isVoid tag = true := fun h ↦ hvoid (isVoid_iff.mp h)
      simp only [if_neg hisVoid, if_neg hvoid, ihchildren]

/-! ## Elements without their texts -/

mutual

/-- The elements of a part of a page, with the names of their attributes alone. -/
def Node.outline : Node → List Node
  | .text _ => []
  | .element tag as children =>
    [.element tag (as.map fun a ↦ (a.1, a.2.map fun _ ↦ "")) (outlines children)]

/-- The elements of parts of a page. -/
def outlines : List Node → List Node
  | [] => []
  | n :: ns => n.outline ++ outlines ns

end

/-- A value without its text. -/
def blankValue : AttributeValue → AttributeValue
  | .text _ => .text ""
  | v => v

mutual

/-- A part of a tree without the texts in it. -/
def blank : Html → Html
  | .element tag as children =>
    .element tag (as.map fun a ↦ (a.1, blankValue a.2)) (blankAll children)
  | .text _ => .text ""
  | h => h

/-- Parts of a tree without the texts in them. -/
def blankAll : List Html → List Html
  | [] => []
  | h :: hs => blank h :: blankAll hs

end

theorem outlines_prependText (s : String) (ns : List Node) :
    outlines (prependText s ns) = outlines ns := by
  unfold prependText
  split
  · rfl
  · unfold textNodes
    split_ifs <;> rfl

theorem kept_blank {as : List (String × AttributeValue)} (h : ∀ a ∈ as, ∀ s, a.2 ≠ .raw s) :
    kept (as.map fun a ↦ (a.1, blankValue a.2)) =
      (kept as).map fun a ↦ (a.1, a.2.map fun _ ↦ "") := by
  induction as with
  | nil => rfl
  | cons a as ih =>
    obtain ⟨hvalue, hmore⟩ := List.forall_mem_cons.mp h
    obtain ⟨name, value⟩ := a
    cases value with
    | absent => exact ih hmore
    | flag => exact congrArg ((name, none) :: ·) (ih hmore)
    | text s => exact congrArg ((name, some "") :: ·) (ih hmore)
    | raw s => exact absurd rfl (hvalue s)

theorem plainTag_blank {tag : String} {as : List (String × AttributeValue)} (h : PlainTag tag as) :
    PlainTag tag (as.map fun a ↦ (a.1, blankValue a.2)) where
  name := h.name
  names := List.forall_mem_map.mpr h.names
  distinct := by
    rw [List.map_map]
    exact h.distinct
  values := by
    refine List.forall_mem_map.mpr fun a ha s ↦ ?_
    have hvalue := h.values a ha
    cases hcase : a.2 with
    | raw t => exact absurd hcase (hvalue t)
    | _ => nofun

theorem Clean.blankAll (h : Clean hs) : Clean (blankAll hs) := by
  induction h with
  | nil => exact .nil
  | absent _ ih => exact .absent ih
  | text s _ ih => exact .text "" ih
  | element htag hkind _ _ ihchildren ih => exact .element (plainTag_blank htag) hkind ihchildren ih

/-- Without its texts a tree has the elements that it has with them. -/
theorem Clean.contents_blankAll (h : Clean hs) :
    contents (Markup.blankAll hs) = outlines (contents hs) := by
  induction h with
  | nil => rfl
  | absent _ ih => exact ih
  | @text s hs _ ih =>
    have htext := outlines_prependText s (contents hs)
    rw [← ih] at htext
    exact (prependText_empty _).trans htext.symm
  | @element tag as children hs htag _ _ _ ihchildren ih =>
    rw [Markup.blankAll, blank, contents_element, contents_element, outlines, Node.outline,
      kept_blank htag.values, ih, List.singleton_append]
    split_ifs with hvoid
    · rfl
    · rw [ihchildren]

end Markup

/-- A tree of plain elements is read back from its page, but for what a page does not tell: what is
absent, the children of elements that have no content, and where one text ends and the next one
begins.  Two trees have one page only if they are the same but for this, and the elements that are
read are those that are read where all texts are empty. -/
theorem rendering_reads_back {g h : Html} (hg : Markup.Clean [g]) (hh : Markup.Clean [h]) :
    Markup.read h.render = some (Markup.contents [h]) ∧
      (g.render = h.render ↔ Markup.contents [g] = Markup.contents [h]) ∧
      (Markup.read h.render).map Markup.outlines = Markup.read (Markup.blank h).render := by
  have hall (h : Html) : Html.renderAll [h] = h.render := by
    rw [Html.renderAll, Html.renderAll, String.append_empty]
  have hread {h : Html} (hh : Markup.Clean [h]) :
      Markup.read h.render = some (Markup.contents [h]) := by
    rw [← hall, hh.read_renderAll]
  refine ⟨hread hh, ⟨fun hpages ↦ ?_, fun hcontents ↦ ?_⟩, ?_⟩
  · rw [← Option.some.injEq, ← hread hg, ← hread hh, hpages]
  · rw [← hall, ← hall, ← hg.renderAll_contents, ← hh.renderAll_contents, hcontents]
  · have hblank : Markup.contents [Markup.blank h] = Markup.outlines (Markup.contents [h]) :=
      hh.contents_blankAll
    rw [hread hh, hread hh.blankAll, hblank]
    rfl

/-- A card with signs that mean something in a page, two texts that meet and things that no page
tells. -/
def quotingCard : Html :=
  .element "div" [("title", .text "\"><b>"), ("hidden", .flag), ("id", .absent)]
    [.text "1 ", .text "< 2", .absent, .element "br" [] [.text "a"],
      .element "2-p" [] [.text "</div>&lt;"]]

/-- The card without all that. -/
def quotedCard : Html :=
  .element "div" [("title", .text "\"><b>"), ("hidden", .flag)]
    [.text "1 < 2", .element "br" [] [], .element "2-p" [] [.text "</div>&lt;"]]

theorem quoting_card_reads_back : Markup.Clean [quotedCard] ∧ Markup.Clean [quotingCard] ∧
    Markup.read quotingCard.render =
      some [.element "div" [("title", some "\"><b>"), ("hidden", none)]
        [.text "1 < 2", .element "br" [] [], .element "2-p" [] [.text "</div>&lt;"]]] ∧
    quotedCard.render = quotingCard.render := by
  have hbr (hs : List Html) (h : Markup.Clean hs) :
      Markup.Clean [.element "br" [] hs, .element "2-p" [] [.text "</div>&lt;"]] :=
    .element ⟨by decide, nofun, .nil, nofun⟩ (by decide) h
      (.element ⟨by decide, nofun, .nil, nofun⟩ (by decide) (.text _ .nil) .nil)
  have hquoted : Markup.Clean [quotedCard] :=
    .element ⟨by decide, by decide, by decide, by simp⟩ (by decide) (.text _ (hbr _ .nil)) .nil
  have hquoting : Markup.Clean [quotingCard] :=
    .element ⟨by decide, by decide, by decide, by simp⟩ (by decide)
      (.text _ (.text _ (.absent (hbr _ (.text _ .nil))))) .nil
  obtain ⟨hread, hpages, -⟩ := rendering_reads_back hquoted hquoting
  exact ⟨hquoted, hquoting, hread, hpages.mpr rfl⟩

end IceCube

import IceCube.Proofs.Source.Decomposition

/-!
# What a source is parsed into

The sections of a source are read off how its text is made up: the styles and the script off its
blocks, the code off the last place of the marker that closes it.
-/

namespace IceCube.Source

open Text

variable {word cs : List Char}

/-! ## Code -/

/-- A text holds a word for the last time between two others. -/
structure LastPlace (word cs before after : List Char) : Prop where
  split : cs = before ++ word ++ after
  last : ∀ before' after', cs = before' ++ word ++ after' → before'.length ≤ before.length

/-- The last place stays the last one if a sign is put before the text, also if the word then starts
with that sign. -/
theorem LastPlace.cons {before after : List Char} (h : LastPlace word cs before after) (c : Char) :
    LastPlace word (c :: cs) (c :: before) after where
  split := by
    rw [h.split]
    rfl
  last := by
    intro before' after' heq
    cases before' with
    | nil => exact Nat.zero_le _
    | cons d before' =>
      rw [List.cons_append, List.cons_append, List.cons.injEq] at heq
      exact Nat.succ_le_succ (h.last before' after' heq.2)

theorem LastPlace.unique {before after before' after' : List Char}
    (h : LastPlace word cs before after) (h' : LastPlace word cs before' after') :
    before = before' ∧ after = after' := by
  have hlength := Nat.le_antisymm (h'.last _ _ h.split) (h.last _ _ h'.split)
  have heq := h.split.symm.trans h'.split
  rw [List.append_assoc, List.append_assoc] at heq
  obtain ⟨hbefore, hafter⟩ := List.append_inj heq hlength
  exact ⟨hbefore, List.append_cancel_left hafter⟩

theorem throughLast?_eq_none_iff (hword : word ≠ []) :
    throughLast? word cs = none ↔ ¬ word <:+: cs := by
  induction cs with
  | nil => simp [throughLast?, hword]
  | cons c cs ih =>
    rw [List.infix_cons_iff, not_or, ← ih, throughLast?, ← List.isPrefixOf_iff_prefix]
    cases throughLast? word cs with
    | some through => simp
    | none => simp

/-- The text through the last place of a word is found. -/
theorem exists_lastPlace (hword : word ≠ []) {through : List Char}
    (h : throughLast? word cs = some through) :
    ∃ before after, LastPlace word cs before after ∧ through = before ++ word := by
  induction cs generalizing through with
  | nil => cases h
  | cons c cs ih =>
    rw [throughLast?] at h
    cases hrest : throughLast? word cs with
    | some through' =>
      obtain ⟨before, after, hlast, rfl⟩ := ih hrest
      rw [hrest] at h
      cases h
      exact ⟨c :: before, after, hlast.cons c, rfl⟩
    | none =>
      rw [hrest] at h
      dsimp only at h
      split at h
      · rename_i hprefix
        cases h
        obtain ⟨after, hafter⟩ := List.isPrefixOf_iff_prefix.mp hprefix
        refine ⟨[], after, ⟨hafter.symm, ?_⟩, rfl⟩
        intro before' after' heq
        cases before' with
        | nil => exact le_rfl
        | cons d before' =>
          -- then the word would be in the rest of the text
          rw [List.cons_append, List.cons_append, List.cons.injEq] at heq
          exact absurd ⟨before', after', heq.2.symm⟩ ((throughLast?_eq_none_iff hword).mp hrest)
      · cases h

/-! ## All sections -/

/-- The sections of a source whose blocks are known. -/
structure Reading (styles : Decomposition "style".toList) (scripts : Decomposition "script".toList)
    (source : String) (script : Option String) (p : ParsedComponent) : Prop where
  styleBlocks : List.Forall₂ (fun (b : TaggedBlock "style".toList) (block : StyleBlock) ↦
    block.content = strip (.ofList b.content) ∧
      (block.isGlobal = true ↔ HasToken globalWord b.attributes)) styles.blocks p.styleBlocks
  givenScript : ∀ text, script = some text → text ≠ "" → p.scriptSection = some text
  inlineScript : script = none ∨ script = some "" →
    p.scriptSection = scripts.blocks.head?.map fun b ↦ strip (.ofList b.content)
  unmarkedCode : ¬ codeEnd <:+: source.toList → p.codeSection = source
  markedCode : codeEnd <:+: source.toList → ∃ before after,
    LastPlace codeEnd source.toList before after ∧
      p.codeSection = strip (.ofList (before ++ codeEnd))

variable {source : String}

theorem codeSection_of_not_infix (h : ¬ codeEnd <:+: source.toList) :
    codeSection source = source := by
  rw [codeSection, (throughLast?_eq_none_iff (by decide)).mpr h]

theorem codeSection_of_infix (h : codeEnd <:+: source.toList) :
    ∃ before after, LastPlace codeEnd source.toList before after ∧
      codeSection source = strip (.ofList (before ++ codeEnd)) := by
  obtain ⟨through, hthrough⟩ : ∃ through, throughLast? codeEnd source.toList = some through := by
    rw [← Option.ne_none_iff_exists', ne_eq, throughLast?_eq_none_iff (by decide), not_not]
    exact h
  obtain ⟨before, after, hlast, rfl⟩ := exists_lastPlace (by decide) hthrough
  refine ⟨before, after, hlast, ?_⟩
  rw [codeSection, hthrough, strip, String.toList_ofList]

theorem styleBlocks_eq {styles : Decomposition "style".toList} (h : styles.text = source.toList) :
    List.Forall₂ (fun (b : TaggedBlock "style".toList) (block : StyleBlock) ↦
      block.content = strip (.ofList b.content) ∧
        (block.isGlobal = true ↔ HasToken globalWord b.attributes))
      styles.blocks (styleBlocks source) := by
  have hblocks := styles.blocks_text (by decide)
  rw [h, String.length_toList] at hblocks
  rw [styleBlocks, List.forall₂_map_right_iff]
  refine hblocks.imp ?_
  rintro b x ⟨hattributes, hcontent⟩
  constructor
  · rw [strip, String.toList_ofList, hcontent]
  · rw [hattributes]
    exact hasWord_iff_hasToken (by decide)

theorem inlineScript?_eq {scripts : Decomposition "script".toList}
    (h : scripts.text = source.toList) :
    inlineScript? source = scripts.blocks.head?.map fun b ↦ strip (.ofList b.content) := by
  have hnext := congrArg (Option.map fun content ↦ strip (.ofList content))
    (scripts.nextBlock?_text (by decide))
  rw [h, Option.map_map, Option.map_map] at hnext
  simpa [inlineScript?, strip, Function.comp_def] using hnext

theorem reading_sections {styles : Decomposition "style".toList}
    {scripts : Decomposition "script".toList} (hstyles : styles.text = source.toList)
    (hscripts : scripts.text = source.toList) (identifier : String) (script : Option String) :
    Reading styles scripts source script (sections identifier source script) where
  styleBlocks := styleBlocks_eq hstyles
  givenScript := by
    rintro text rfl htext
    show scriptSection source (some text) = some text
    rw [scriptSection, if_neg (by simpa using htext)]
  inlineScript := by
    intro h
    rw [← inlineScript?_eq hscripts]
    rcases h with rfl | rfl <;> rfl
  unmarkedCode := codeSection_of_not_infix
  markedCode := codeSection_of_infix

/-- A source can be read in one way as style blocks and in one way as script blocks, with other texts
around them, and parsing it under an identifier gives the sections of these readings. -/
theorem parse_reads_source {identifier : String} (hidentifier : identifier ≠ "") (source : String)
    (script : Option String) :
    ∃ styles : Decomposition "style".toList, ∃ scripts : Decomposition "script".toList,
      (∀ d : Decomposition "style".toList, d.text = source.toList ↔ d = styles) ∧
      (∀ d : Decomposition "script".toList, d.text = source.toList ↔ d = scripts) ∧
      ∃ p, parse identifier source script = .ok p ∧ Reading styles scripts source script p := by
  have hunique {tag : List Char} (htag : '<' ∉ tag) {d : Decomposition tag}
      (hd : d.text = source.toList) (d' : Decomposition tag) :
      d'.text = source.toList ↔ d' = d := by
    constructor
    · intro hd'
      exact Decomposition.eq_of_text_eq htag (hd'.trans hd.symm)
    · rintro rfl
      exact hd
  obtain ⟨styles, hstyles⟩ := Decomposition.exists_text_eq
    (show '<' ∉ "style".toList by decide) source.toList
  obtain ⟨scripts, hscripts⟩ := Decomposition.exists_text_eq
    (show '<' ∉ "script".toList by decide) source.toList
  refine ⟨styles, scripts, hunique (by decide) hstyles, hunique (by decide) hscripts,
    sections identifier source script, ?_, reading_sections hstyles hscripts identifier script⟩
  rw [parse, nameIssues, if_neg (by simpa using hidentifier)]

/-- A source in which an opening tag is inside of another one and a closing tag has a long s. -/
def crowdedSource : String := "a<style <STYLE global> b </ſtyle>#</py>c<style>"

/-- Its reading as style blocks. -/
def crowdedStyles : Decomposition "style".toList where
  pieces := [("a".toList, {
    opening := "<style".toList
    attributes := " <STYLE global".toList
    content := " b ".toList
    closing := "</ſtyle>".toList
    opens := by decide
    unbracketed := by decide
    unclosed := by decide
    closes := by decide })]
  rest := "#</py>c<style>".toList
  plain := by
    rintro e he
    rw [List.mem_singleton.mp he]
    show ¬ Occurs (openingTag "style".toList) "a".toList
    decide
  ended := (nextBlock?_eq_none_iff (by decide)).mp rfl

theorem crowded_source_has_one_style : ∃ p, parse "app.Card" crowdedSource none = .ok p ∧
    p.styleBlocks = [⟨"b", true⟩] ∧ p.codeSection = "a<style <STYLE global> b </ſtyle>#</py>" := by
  obtain ⟨styles, scripts, hstyles, -, p, hp, hreading⟩ :=
    parse_reads_source (show "app.Card" ≠ "" by decide) crowdedSource none
  obtain rfl := (hstyles crowdedStyles).mp (by decide)
  refine ⟨p, hp, ?_, ?_⟩
  · obtain ⟨block, blocks, ⟨hcontent, hglobal⟩, hrest, hblocks⟩ :=
      List.forall₂_cons_left_iff.mp hreading.styleBlocks
    rw [hblocks, List.forall₂_nil_left_iff.mp hrest]
    have hisGlobal := hglobal.mpr ((hasWord_iff_hasToken (by decide)).mp (by decide))
    rw [show block = ⟨block.content, block.isGlobal⟩ from rfl, hcontent, hisGlobal]
    rfl
  · have hinfix : codeEnd <:+: crowdedSource.toList := by decide
    obtain ⟨before, after, hlast, hcode⟩ := hreading.markedCode hinfix
    have hfound : throughLast? codeEnd crowdedSource.toList =
        some "a<style <STYLE global> b </ſtyle>#</py>".toList := by decide
    obtain ⟨before', after', hlast', hthrough⟩ := exists_lastPlace (by decide) hfound
    rw [hcode, (hlast.unique hlast').1, ← hthrough]
    decide

end IceCube.Source

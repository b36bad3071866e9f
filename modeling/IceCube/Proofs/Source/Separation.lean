import IceCube.Proofs.Source.Parsing

/-!
# Code that looks like client sections

The script and the styles of a source are looked for in all of it, so what keeps the code apart from
them is not the marker: it is that no opening tag starts in the code.  The marker has two signs that
no opening tag has, so a tag starts before the marker or behind it.  A block that starts in the code
can end behind the marker, whose last sign then ends the opening tag.
-/

namespace IceCube.Source

open Text

variable {tag word cs before after : List Char}

/-! ## Signs that are not in a word -/

/-- A sign is read as no part of a word. -/
def Foreign (word : List Char) (c : Char) : Prop := ∀ w ∈ word, sameFolded w c = false

instance (word : List Char) (c : Char) : Decidable (Foreign word c) :=
  List.decidableBAll _ word

namespace Foreign

variable {c : Char}

theorem not_mem (hc : Foreign word c) {m : List Char} (hm : Spells word m) : c ∉ m := by
  induction hm with
  | nil => nofun
  | cons hmatch _ ih =>
    obtain ⟨hfirst, hlater⟩ := List.forall_mem_cons.mp hc
    rw [List.mem_cons, not_or]
    refine ⟨?_, ih hlater⟩
    rintro rfl
    rw [hfirst] at hmatch
    cases hmatch

/-- A word is on one side of a sign that is not in it. -/
theorem occurs_iff (hc : Foreign word c) :
    Occurs word (before ++ c :: after) ↔ Occurs word before ∨ Occurs word after := by
  constructor
  · rintro ⟨x, m, y, heq, hm⟩
    rw [List.append_assoc, List.append_eq_append_iff] at heq
    rcases heq with ⟨k, rfl, hk⟩ | ⟨k, rfl, hk⟩
    · rcases List.cons_eq_append_iff.mp hk with ⟨rfl, hstart⟩ | ⟨k, rfl, rfl⟩
      · rcases List.append_eq_cons_iff.mp hstart with ⟨rfl, -⟩ | ⟨m, rfl, -⟩
        · exact .inl ⟨before, [], [], by simp, hm⟩
        · exact absurd List.mem_cons_self (hc.not_mem hm)
      · exact .inr ⟨k, m, y, by simp, hm⟩
    · rcases List.append_eq_append_iff.mp hk with ⟨k, rfl, -⟩ | ⟨k', rfl, hstart⟩
      · exact .inl ⟨x, m, k, by simp, hm⟩
      · rcases List.cons_eq_append_iff.mp hstart with ⟨rfl, -⟩ | ⟨k', rfl, -⟩
        · exact .inl ⟨x, k, [], by simp, by simpa using hm⟩
        · exact absurd (by simp) (hc.not_mem hm)
  · rintro (h | h)
    · simpa using h.mono [] (c :: after)
    · simpa using h.mono (before ++ [c]) []

/-- A word is looked for behind a sign that is not in it if it is not before the sign. -/
theorem splitAtFolded?_append (hc : Foreign word c) (hword : Led word)
    (hbefore : ¬ Occurs word before) (after : List Char) :
    (splitAtFolded? word (before ++ c :: after)).map Prod.snd =
      (splitAtFolded? word after).map Prod.snd := by
  cases h : splitAtFolded? word after with
  | none =>
    have hafter : ¬ Occurs word after := by
      rw [Text.occurs_iff, h]
      nofun
    have hnone : ¬ Occurs word (before ++ c :: after) := by
      rw [hc.occurs_iff]
      exact not_or.mpr ⟨hbefore, hafter⟩
    rw [Text.occurs_iff, Option.not_isSome_iff_eq_none] at hnone
    rw [hnone]
  | some found =>
    obtain ⟨between, rest⟩ := found
    obtain ⟨m, rfl, hm, hbetween⟩ := (splitAtFolded?_eq_some_iff hword).mp h
    have hplain : ¬ Occurs word (before ++ c :: between) := by
      rw [hc.occurs_iff]
      exact not_or.mpr ⟨hbefore, hbetween⟩
    have hfound := Text.splitAtFolded?_append hword hm hplain rest
    rw [show before ++ c :: (between ++ m ++ rest) = before ++ c :: between ++ m ++ rest by simp,
      hfound]
    rfl

end Foreign

/-! ## Blocks behind the marker -/

/-- The tags whose blocks reach the client. -/
def clientTags : List (List Char) := ["script".toList, "style".toList]

/-- No opening tag of a client section starts in a code. -/
def Quiet (code : List Char) : Prop := ∀ tag ∈ clientTags, ¬ Occurs (openingTag tag) code

instance (code : List Char) : Decidable (Quiet code) :=
  inferInstanceAs (Decidable (∀ tag ∈ clientTags, ¬ Occurs (openingTag tag) code))

/-- The two signs of the marker that no opening tag has. -/
theorem append_codeEnd (code after : List Char) :
    code ++ codeEnd ++ after = code ++ '#' :: ("</py".toList ++ '>' :: after) :=
  List.append_assoc code codeEnd after

/-- What is found does not depend on the text before the opening tag. -/
theorem nextBlock?_congr {cs cs' : List Char}
    (h : (splitAtFolded? (openingTag tag) cs).map Prod.snd =
      (splitAtFolded? (openingTag tag) cs').map Prod.snd) :
    nextBlock? tag cs = nextBlock? tag cs' := by
  unfold openingTag at h
  unfold nextBlock?
  cases hcs : splitAtFolded? ('<' :: tag) cs <;> cases hcs' : splitAtFolded? ('<' :: tag) cs' <;>
    simp_all

/-- Blocks are looked for behind the marker if no opening tag starts in the code. -/
theorem nextBlock?_behind (htag : tag ∈ clientTags) {code : List Char}
    (hcode : ¬ Occurs (openingTag tag) code) (after : List Char) :
    nextBlock? tag (code ++ codeEnd ++ after) = nextBlock? tag after := by
  have hsigns : ∀ tag ∈ clientTags, '<' ∉ tag ∧ Foreign (openingTag tag) '#' ∧
      Foreign (openingTag tag) '>' ∧ ¬ Occurs (openingTag tag) "</py".toList := by decide
  obtain ⟨hangle, hhash, hbracket, hwithin⟩ := hsigns tag htag
  have hled := led_openingTag hangle
  rw [append_codeEnd]
  exact nextBlock?_congr ((hhash.splitAtFolded?_append hled hcode _).trans
    (hbracket.splitAtFolded?_append hled hwithin after))

/-! ## All blocks -/

theorem blocks_eq_nil {fuel : ℕ} (h : nextBlock? tag cs = none) : blocks tag fuel cs = [] := by
  cases fuel with
  | zero => rfl
  | succ fuel => rw [blocks, h]

theorem exists_blocks_eq_cons (htag : '<' ∉ tag) {fuel : ℕ} {x : Block}
    (h : nextBlock? tag cs = some x) (hfuel : cs.length ≤ fuel) :
    ∃ n < fuel, x.rest.length ≤ n ∧ blocks tag fuel cs = x :: blocks tag n x.rest := by
  have hshorter := length_lt_of_nextBlock? htag h
  cases fuel with
  | zero => omega
  | succ n => exact ⟨n, n.lt_succ_self, by omega, by rw [blocks, h]⟩

/-- The first block settles all blocks, with any fuel that is enough. -/
theorem blocks_congr (htag : '<' ∉ tag) {fuel fuel' : ℕ} {cs' : List Char}
    (hnext : nextBlock? tag cs = nextBlock? tag cs') (hfuel : cs.length ≤ fuel)
    (hfuel' : cs'.length ≤ fuel') : blocks tag fuel cs = blocks tag fuel' cs' := by
  induction fuel using Nat.strong_induction_on generalizing fuel' cs cs' with
  | _ fuel ih =>
    cases h : nextBlock? tag cs with
    | none => rw [blocks_eq_nil h, blocks_eq_nil (hnext.symm.trans h)]
    | some x =>
      obtain ⟨n, hn, hrest, hblocks⟩ := exists_blocks_eq_cons htag h hfuel
      obtain ⟨n', -, hrest', hblocks'⟩ := exists_blocks_eq_cons htag (hnext.symm.trans h) hfuel'
      rw [hblocks, hblocks', ih n hn rfl hrest hrest']

/-! ## What reaches the client -/

/-- The sections that reach the client. -/
def clientSections (p : ParsedComponent) : Option String × List StyleBlock :=
  (p.scriptSection, p.styleBlocks)

variable {source source' identifier : String}

/-- Two sources have the same client sections exactly if they have the same script and the same
styles, or neither has any for want of an identifier. -/
theorem map_clientSections_eq_iff {script : Option String} :
    (parse identifier source script).map clientSections =
        (parse identifier source' script).map clientSections ↔
      identifier = "" ∨ (scriptSection source script = scriptSection source' script ∧
        styleBlocks source = styleBlocks source') := by
  by_cases hidentifier : identifier = ""
  · simp [parse, nameIssues, hidentifier, Except.map]
  · simp [parse, nameIssues, hidentifier, Except.map, clientSections, sections]

/-- The client sections of a source with a quiet code are those of the text behind its marker. -/
theorem client_sections_behind {code : List Char} (hcode : Quiet code)
    (hsource : source.toList = code ++ codeEnd ++ after) (identifier : String)
    (script : Option String) :
    (parse identifier source script).map clientSections =
      (parse identifier (.ofList after) script).map clientSections := by
  have hnext (tag) (htag : tag ∈ clientTags) :
      nextBlock? tag source.toList = nextBlock? tag (String.ofList after).toList := by
    rw [hsource, String.toList_ofList]
    exact nextBlock?_behind htag (hcode tag htag) after
  have hscript : inlineScript? source = inlineScript? (.ofList after) := by
    rw [inlineScript?, inlineScript?, hnext _ (by decide)]
  refine map_clientSections_eq_iff.mpr (.inr ⟨?_, ?_⟩)
  · unfold scriptSection
    rw [hscript]
  · rw [styleBlocks, styleBlocks, blocks_congr (by decide) (hnext _ (by decide))
      (String.length_toList).le (String.length_toList).le]

theorem inlineScript?_eq_none_iff :
    inlineScript? source = none ↔ nextBlock? "script".toList source.toList = none := by
  rw [inlineScript?, Option.map_eq_none_iff]

theorem styleBlocks_eq_nil_iff :
    styleBlocks source = [] ↔ nextBlock? "style".toList source.toList = none := by
  rw [styleBlocks, List.map_eq_nil_iff]
  constructor
  · intro h
    rw [Option.eq_none_iff_forall_ne_some]
    intro x hx
    obtain ⟨n, -, -, hblocks⟩ := exists_blocks_eq_cons (by decide) hx String.length_toList.le
    rw [h] at hblocks
    cases hblocks
  · exact blocks_eq_nil

/-- Sources with the same client sections have blocks of the same tags. -/
theorem nextBlock?_eq_none_congr (hidentifier : identifier ≠ "")
    (h : (parse identifier source none).map clientSections =
      (parse identifier source' none).map clientSections) (htag : tag ∈ clientTags) :
    nextBlock? tag source.toList = none ↔ nextBlock? tag source'.toList = none := by
  obtain ⟨hscript, hstyles⟩ := (map_clientSections_eq_iff.mp h).resolve_left hidentifier
  simp only [clientTags, List.mem_cons, List.not_mem_nil, or_false] at htag
  rcases htag with rfl | rfl
  · rw [← inlineScript?_eq_none_iff, ← inlineScript?_eq_none_iff]
    rw [show inlineScript? source = inlineScript? source' from hscript]
  · rw [← styleBlocks_eq_nil_iff, ← styleBlocks_eq_nil_iff, hstyles]

/-! ## Codes that can be replaced -/

/-- A place of a word is the last one if its first sign is nowhere behind. -/
theorem lastPlace_of_not_mem {c : Char} {ws : List Char} (h : c ∉ ws ++ after)
    (hcs : cs = before ++ c :: ws ++ after) : LastPlace (c :: ws) cs before after where
  split := hcs
  last := by
    intro before' after' heq
    rw [hcs, List.append_assoc, List.append_assoc, List.append_eq_append_iff] at heq
    rcases heq with ⟨k, rfl, hk⟩ | ⟨k, rfl, -⟩
    · rcases List.cons_eq_append_iff.mp hk with ⟨rfl, -⟩ | ⟨k, rfl, hlater⟩
      · simp
      · refine absurd ?_ h
        rw [show ws ++ after = k ++ (c :: ws ++ after') from hlater]
        simp
    · simp

/-- An opening tag that starts in the code has its bracket in the marker at the latest, so a closing
tag behind the marker makes it a block. -/
theorem hasBlock_of_occurs {code : List Char} (htag : tag ∈ clientTags)
    (h : Occurs (openingTag tag) code) : HasBlock tag (code ++ codeEnd ++ closingTag tag) := by
  have hclosing : ∀ tag ∈ clientTags, Spells (closingTag tag) (closingTag tag) := by decide
  obtain ⟨x, m, y, rfl, hm⟩ := h
  refine ⟨x, m, y ++ '#' :: "</py".toList, [], closingTag tag, [], ?_, hm, hclosing tag htag⟩
  rw [append_codeEnd]
  simp only [List.append_assoc, List.cons_append, List.nil_append, List.append_nil]

/-- The code of a source can be replaced without any change to the script and the styles exactly by
codes in which no opening tag starts, whatever is behind the marker. -/
theorem client_sections_separate_iff (code : List Char) : Quiet code ↔
    ∀ code' after source source' identifier script, Quiet code' →
      LastPlace codeEnd source.toList code after → LastPlace codeEnd source'.toList code' after →
      (parse identifier source script).map clientSections =
        (parse identifier source' script).map clientSections := by
  constructor
  · intro hcode code' after source source' identifier script hcode' hplace hplace'
    rw [client_sections_behind hcode hplace.split, client_sections_behind hcode' hplace'.split]
  · intro h tag htag hoccurs
    have hquiet : Quiet [] := by decide
    have hmarks : ∀ tag ∈ clientTags, '<' ∉ tag ∧ '#' ∉ "</py>".toList ++ closingTag tag ∧
        nextBlock? tag (codeEnd ++ closingTag tag) = none := by decide
    obtain ⟨hangle, hhash, hnone⟩ := hmarks tag htag
    have hsame := h [] (closingTag tag) (.ofList (code ++ codeEnd ++ closingTag tag))
      (.ofList ([] ++ codeEnd ++ closingTag tag)) "app" none hquiet
      (lastPlace_of_not_mem hhash String.toList_ofList)
      (lastPlace_of_not_mem hhash String.toList_ofList)
    have hblocks := nextBlock?_eq_none_congr (by decide) hsame htag
    rw [String.toList_ofList, String.toList_ofList, nextBlock?_eq_none_iff hangle] at hblocks
    exact hblocks.mpr hnone (hasBlock_of_occurs htag hoccurs)

/-- A source with a script in a comment of its code. -/
def commentedSource : String := "# <script>a</script>\n#</py>\n<script>b</script>"

/-- The same source with another comment. -/
def uncommentedSource : String := "#\n#</py>\n<script>b</script>"

theorem commented_script_reaches_client :
    (∃ code code' after, LastPlace codeEnd commentedSource.toList code after ∧
      LastPlace codeEnd uncommentedSource.toList code' after) ∧
    (parse "app.Card" commentedSource none).map clientSections = .ok (some "a", []) ∧
    (parse "app.Card" uncommentedSource none).map clientSections = .ok (some "b", []) := by
  have hhash : '#' ∉ "</py>".toList ++ "\n<script>b</script>".toList := by decide
  refine ⟨⟨"# <script>a</script>\n".toList, "#\n".toList, "\n<script>b</script>".toList,
    lastPlace_of_not_mem hhash rfl, lastPlace_of_not_mem hhash rfl⟩, ?_, ?_⟩
  · rfl
  · rfl

end IceCube.Source

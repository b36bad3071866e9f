import IceCube.Proofs.Text.Search
import IceCube.Source

/-!
# Sources as tagged blocks and what is between them

For each tag there is one way to read a source as blocks with other texts before, between and after
them.  An opening tag ends at its first bracket, whatever else is in it, and a content ends at the
first closing tag, so a block can hold what looks like another opening tag.  The blocks that are
found in a source, one after the other, are those of this reading.
-/

namespace IceCube.Source

open Text

variable {tag cs : List Char}

/-! ## Blocks -/

/-- How an opening tag starts. -/
def openingTag (tag : List Char) : List Char := '<' :: tag

/-- A closing tag. -/
def closingTag (tag : List Char) : List Char := '<' :: '/' :: tag ++ ['>']

/-- A block of a tag as it is written. -/
@[ext] structure TaggedBlock (tag : List Char) where
  opening : List Char
  attributes : List Char
  content : List Char
  closing : List Char
  opens : Spells (openingTag tag) opening
  unbracketed : '>' ∉ attributes
  unclosed : ¬ Occurs (closingTag tag) content
  closes : Spells (closingTag tag) closing

namespace TaggedBlock

/-- The text of a block. -/
def text (b : TaggedBlock tag) : List Char :=
  b.opening ++ b.attributes ++ '>' :: b.content ++ b.closing

end TaggedBlock

/-- An opening tag comes first somewhere in a text, then its bracket, and then a closing tag. -/
def HasBlock (tag cs : List Char) : Prop :=
  ∃ before opening between content closing after,
    cs = before ++ opening ++ (between ++ '>' :: (content ++ closing ++ after)) ∧
      Spells (openingTag tag) opening ∧ Spells (closingTag tag) closing

/-! ## Tags do not overlap themselves -/

theorem sameFolded_angle {w : Char} (hw : w ≠ '<') : sameFolded w '<' = false := by
  have hlower : '<'.toLower = '<' := rfl
  simp [sameFolded, hlower, Ne.symm hw]

theorem led_of_not_mem {ws : List Char} (h : '<' ∉ ws) : Led ('<' :: ws) := by
  refine ⟨'<', ws, rfl, ?_⟩
  intro c hc w hw
  obtain rfl := (sameFolded_iff_of_lt (by decide) rfl).mp hc
  refine sameFolded_angle ?_
  rintro rfl
  exact h hw

theorem led_openingTag (htag : '<' ∉ tag) : Led (openingTag tag) := led_of_not_mem htag

theorem led_closingTag (htag : '<' ∉ tag) : Led (closingTag tag) := by
  refine led_of_not_mem ?_
  simp [htag]

theorem led_bracket : Led ['>'] := ⟨'>', [], rfl, nofun⟩

theorem spells_bracket_iff : Spells ['>'] cs ↔ cs = ['>'] := by
  rw [Spells, List.forall₂_cons_left_iff]
  constructor
  · rintro ⟨c, m, hc, hm, rfl⟩
    cases hm
    rw [(sameFolded_iff_of_lt (by decide) rfl).mp hc]
  · rintro rfl
    exact ⟨'>', [], by decide, .nil, rfl⟩

theorem occurs_bracket_iff : Occurs ['>'] cs ↔ '>' ∈ cs := by
  rw [List.mem_iff_append]
  constructor
  · rintro ⟨before, m, after, rfl, hm⟩
    exact ⟨before, after, by simp [spells_bracket_iff.mp hm]⟩
  · rintro ⟨before, after, rfl⟩
    exact ⟨before, ['>'], after, by simp, spells_bracket_iff.mpr rfl⟩

/-! ## The first block of a text -/

/-- What looking for a block takes apart. -/
theorem nextBlock?_eq_some_iff {x : Block} : nextBlock? tag cs = some x ↔
    ∃ before inside within, splitAtFolded? (openingTag tag) cs = some (before, inside) ∧
      splitAtFolded? ['>'] inside = some (x.attributes, within) ∧
      splitAtFolded? (closingTag tag) within = some (x.content, x.rest) := by
  obtain ⟨attributes, content, rest⟩ := x
  simp only [nextBlock?, openingTag, closingTag, Option.bind_eq_bind, Option.bind_eq_some_iff,
    Option.pure_def, Option.some.injEq, Prod.exists, Block.mk.injEq]
  constructor
  · rintro ⟨before, inside, hopen, _, within, hbracket, _, _, hclose, rfl, rfl, rfl⟩
    exact ⟨before, inside, within, hopen, hbracket, hclose⟩
  · rintro ⟨before, inside, within, hopen, hbracket, hclose⟩
    exact ⟨before, inside, hopen, attributes, within, hbracket, content, rest, hclose, rfl, rfl, rfl⟩

/-- The first block is found if no opening tag starts before it. -/
theorem nextBlock?_append (htag : '<' ∉ tag) {before : List Char}
    (hbefore : ¬ Occurs (openingTag tag) before) (b : TaggedBlock tag) (rest : List Char) :
    nextBlock? tag (before ++ (b.text ++ rest)) = some ⟨b.attributes, b.content, rest⟩ := by
  refine nextBlock?_eq_some_iff.mpr ⟨before, b.attributes ++ ['>'] ++ (b.content ++ b.closing ++ rest),
    b.content ++ b.closing ++ rest, ?_, ?_, ?_⟩
  · rw [splitAtFolded?_eq_some_iff (led_openingTag htag)]
    exact ⟨b.opening, by simp [TaggedBlock.text], b.opens, hbefore⟩
  · rw [splitAtFolded?_eq_some_iff led_bracket]
    exact ⟨['>'], rfl, spells_bracket_iff.mpr rfl, mt occurs_bracket_iff.mp b.unbracketed⟩
  · rw [splitAtFolded?_eq_some_iff (led_closingTag htag)]
    exact ⟨b.closing, rfl, b.closes, b.unclosed⟩

theorem exists_of_nextBlock? (htag : '<' ∉ tag) {x : Block} (h : nextBlock? tag cs = some x) :
    ∃ before, ∃ b : TaggedBlock tag, cs = before ++ (b.text ++ x.rest) ∧
      ¬ Occurs (openingTag tag) before := by
  obtain ⟨before, inside, within, hopen, hbracket, hclose⟩ := nextBlock?_eq_some_iff.mp h
  rw [splitAtFolded?_eq_some_iff (led_openingTag htag)] at hopen
  rw [splitAtFolded?_eq_some_iff led_bracket] at hbracket
  rw [splitAtFolded?_eq_some_iff (led_closingTag htag)] at hclose
  obtain ⟨opening, rfl, hopens, hbefore⟩ := hopen
  obtain ⟨bracket, rfl, hm, hattributes⟩ := hbracket
  obtain ⟨closing, rfl, hcloses, hcontent⟩ := hclose
  obtain rfl := spells_bracket_iff.mp hm
  exact ⟨before, ⟨opening, x.attributes, x.content, closing, hopens,
    mt occurs_bracket_iff.mpr hattributes, hcontent, hcloses⟩, by simp [TaggedBlock.text], hbefore⟩

theorem TaggedBlock.hasBlock (b : TaggedBlock tag) (before after : List Char) :
    HasBlock tag (before ++ (b.text ++ after)) :=
  ⟨before, b.opening, b.attributes, b.content, b.closing, after, by simp [text], b.opens, b.closes⟩

/-- Where there is an opening tag with a bracket and a closing tag behind it, a block is found, if
not that one. -/
theorem nextBlock?_eq_none_iff (htag : '<' ∉ tag) : nextBlock? tag cs = none ↔ ¬ HasBlock tag cs := by
  constructor
  · rintro h ⟨before, opening, between, content, closing, after, rfl, hopens, hcloses⟩
    obtain ⟨before', inside, hopen, x, hinside⟩ := exists_splitAtFolded? hopens before
      (between ++ '>' :: (content ++ closing ++ after))
    obtain ⟨attributes, within, hbracket, y, hwithin⟩ := exists_splitAtFolded?
      (spells_bracket_iff.mpr rfl) (x ++ between) (content ++ closing ++ after)
    obtain ⟨content', rest, hclose, -⟩ := exists_splitAtFolded? hcloses (y ++ content) after
    have hfound : nextBlock? tag (before ++ opening ++ (between ++ '>' ::
        (content ++ closing ++ after))) = some ⟨attributes, content', rest⟩ := by
      refine nextBlock?_eq_some_iff.mpr ⟨before', inside, within, hopen, ?_, ?_⟩
      · rw [← hinside, ← hbracket]
        simp
      · rw [← hwithin, ← hclose]
        simp
    rw [h] at hfound
    cases hfound
  · intro h
    rw [Option.eq_none_iff_forall_ne_some]
    intro x hx
    obtain ⟨before, b, rfl, -⟩ := exists_of_nextBlock? htag hx
    exact h (b.hasBlock before x.rest)

/-! ## Readings of a text -/

/-- Texts, each with a block behind it, and the text behind the last block. -/
def joined (pieces : List (List Char × TaggedBlock tag)) (rest : List Char) : List Char :=
  pieces.foldr (fun e cs ↦ e.1 ++ (e.2.text ++ cs)) rest

/-- A reading of a text as blocks of a tag: before each block no opening tag starts, and behind the
last one there is none that could be completed to a block. -/
structure Decomposition (tag : List Char) where
  pieces : List (List Char × TaggedBlock tag)
  rest : List Char
  plain : ∀ e ∈ pieces, ¬ Occurs (openingTag tag) e.1
  ended : ¬ HasBlock tag rest

namespace Decomposition

/-- The text that is read. -/
def text (d : Decomposition tag) : List Char := joined d.pieces d.rest

/-- The blocks in their order. -/
def blocks (d : Decomposition tag) : List (TaggedBlock tag) := d.pieces.map Prod.snd

end Decomposition

/-- There is one way to cut a text behind its first block. -/
theorem cut_unique (htag : '<' ∉ tag) {before before' rest rest' : List Char}
    {b b' : TaggedBlock tag} (h : ¬ Occurs (openingTag tag) before)
    (h' : ¬ Occurs (openingTag tag) before')
    (heq : before ++ (b.text ++ rest) = before' ++ (b'.text ++ rest')) :
    before = before' ∧ b = b' ∧ rest = rest' := by
  have hopening : before ++ b.opening ++ (b.attributes ++ ['>'] ++ (b.content ++ b.closing ++ rest)) =
      before' ++ b'.opening ++ (b'.attributes ++ ['>'] ++ (b'.content ++ b'.closing ++ rest')) := by
    simpa [TaggedBlock.text] using heq
  obtain ⟨rfl, hopens, hinside⟩ := (led_openingTag htag).cut_unique b.opens b'.opens h h' hopening
  obtain ⟨hattributes, -, hwithin⟩ := led_bracket.cut_unique (spells_bracket_iff.mpr rfl)
    (spells_bracket_iff.mpr rfl) (mt occurs_bracket_iff.mp b.unbracketed)
    (mt occurs_bracket_iff.mp b'.unbracketed) hinside
  obtain ⟨hcontent, hcloses, hrest⟩ := (led_closingTag htag).cut_unique b.closes b'.closes
    b.unclosed b'.unclosed hwithin
  exact ⟨rfl, TaggedBlock.ext hopens hattributes hcontent hcloses, hrest⟩

theorem joined_inj (htag : '<' ∉ tag) {ps ps' : List (List Char × TaggedBlock tag)}
    {rest rest' : List Char} (hps : ∀ e ∈ ps, ¬ Occurs (openingTag tag) e.1)
    (hps' : ∀ e ∈ ps', ¬ Occurs (openingTag tag) e.1) (hrest : ¬ HasBlock tag rest)
    (hrest' : ¬ HasBlock tag rest') (h : joined ps rest = joined ps' rest') :
    ps = ps' ∧ rest = rest' := by
  induction ps generalizing ps' with
  | nil =>
    cases ps' with
    | nil => exact ⟨rfl, h⟩
    | cons e' ps' =>
      refine absurd ?_ hrest
      rw [show rest = e'.1 ++ (e'.2.text ++ joined ps' rest') from h]
      exact e'.2.hasBlock e'.1 _
  | cons e ps ih =>
    cases ps' with
    | nil =>
      refine absurd ?_ hrest'
      rw [show rest' = e.1 ++ (e.2.text ++ joined ps rest) from h.symm]
      exact e.2.hasBlock e.1 _
    | cons e' ps' =>
      obtain ⟨he, hps⟩ := List.forall_mem_cons.mp hps
      obtain ⟨he', hps'⟩ := List.forall_mem_cons.mp hps'
      obtain ⟨hbefore, hblock, hbehind⟩ := cut_unique htag he he' h
      obtain ⟨rfl, rfl⟩ := ih hps hps' hbehind
      exact ⟨by rw [Prod.ext hbefore hblock], rfl⟩

/-- A text is read in one way. -/
theorem Decomposition.eq_of_text_eq (htag : '<' ∉ tag) {d d' : Decomposition tag}
    (h : d.text = d'.text) : d = d' := by
  obtain ⟨pieces, rest, hplain, hended⟩ := d
  obtain ⟨pieces', rest', hplain', hended'⟩ := d'
  obtain ⟨rfl, rfl⟩ := joined_inj htag hplain hplain' hended hended' h
  rfl

theorem length_lt_of_nextBlock? (htag : '<' ∉ tag) {x : Block} (h : nextBlock? tag cs = some x) :
    x.rest.length < cs.length := by
  obtain ⟨before, b, rfl, -⟩ := exists_of_nextBlock? htag h
  simp only [TaggedBlock.text, List.length_append, List.length_cons]
  omega

/-- Every text can be read. -/
theorem Decomposition.exists_text_eq (htag : '<' ∉ tag) (cs : List Char) :
    ∃ d : Decomposition tag, d.text = cs := by
  induction hn : cs.length using Nat.strong_induction_on generalizing cs with
  | _ n ih =>
    subst hn
    cases h : nextBlock? tag cs with
    | none => exact ⟨⟨[], cs, nofun, (nextBlock?_eq_none_iff htag).mp h⟩, rfl⟩
    | some x =>
      obtain ⟨d, hd⟩ := ih _ (length_lt_of_nextBlock? htag h) x.rest rfl
      obtain ⟨before, b, hcs, hbefore⟩ := exists_of_nextBlock? htag h
      refine ⟨⟨(before, b) :: d.pieces, d.rest, ?_, d.ended⟩, ?_⟩
      · exact List.forall_mem_cons.mpr ⟨hbefore, d.plain⟩
      · rw [hcs, ← hd]
        rfl

/-! ## The blocks that are found -/

/-- What is found of a block. -/
def TaggedBlock.Found (b : TaggedBlock tag) (x : Block) : Prop :=
  x.attributes = b.attributes ∧ x.content = b.content

/-- With enough fuel, all blocks are found, in their order. -/
theorem blocks_joined (htag : '<' ∉ tag) {ps : List (List Char × TaggedBlock tag)}
    {rest : List Char} (hps : ∀ e ∈ ps, ¬ Occurs (openingTag tag) e.1)
    (hrest : ¬ HasBlock tag rest) {fuel : Nat} (hfuel : (joined ps rest).length ≤ fuel) :
    List.Forall₂ TaggedBlock.Found (ps.map Prod.snd) (blocks tag fuel (joined ps rest)) := by
  induction ps generalizing fuel with
  | nil =>
    have hnone := (nextBlock?_eq_none_iff htag).mpr hrest
    cases fuel with
    | zero => exact .nil
    | succ fuel =>
      rw [show joined [] rest = rest from rfl, blocks, hnone]
      exact .nil
  | cons e ps ih =>
    obtain ⟨he, hps⟩ := List.forall_mem_cons.mp hps
    have hnext : nextBlock? tag (joined (e :: ps) rest) =
        some ⟨e.2.attributes, e.2.content, joined ps rest⟩ :=
      nextBlock?_append htag he e.2 (joined ps rest)
    have hshorter : (joined ps rest).length < (joined (e :: ps) rest).length :=
      length_lt_of_nextBlock? htag hnext
    cases fuel with
    | zero => omega
    | succ fuel =>
      rw [blocks, hnext]
      exact .cons ⟨rfl, rfl⟩ (ih hps (by omega))

theorem Decomposition.blocks_text (htag : '<' ∉ tag) (d : Decomposition tag) :
    List.Forall₂ TaggedBlock.Found d.blocks (Source.blocks tag d.text.length d.text) :=
  blocks_joined htag d.plain d.ended le_rfl

/-- The first block alone is found as the first of all. -/
theorem Decomposition.nextBlock?_text (htag : '<' ∉ tag) (d : Decomposition tag) :
    (nextBlock? tag d.text).map Block.content = d.blocks.head?.map TaggedBlock.content := by
  obtain ⟨pieces, rest, hplain, hended⟩ := d
  cases pieces with
  | nil =>
    have hnone := (nextBlock?_eq_none_iff htag).mpr hended
    rw [show text ⟨[], rest, hplain, hended⟩ = rest from rfl, hnone]
    rfl
  | cons e ps =>
    have hnext := nextBlock?_append htag (hplain e List.mem_cons_self) e.2 (joined ps rest)
    rw [show text ⟨e :: ps, rest, hplain, hended⟩ = e.1 ++ (e.2.text ++ joined ps rest) from rfl,
      hnext]
    rfl

end IceCube.Source

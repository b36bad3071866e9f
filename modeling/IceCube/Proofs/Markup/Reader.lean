import Mathlib.Data.List.TakeWhile
import IceCube.Proofs.Markup.StartTag
import IceCube.Text.Hex

/-!
# Reading a page

A page is read as texts and elements.  The reader knows the three ways to write a value of an
attribute, references by name and by number, elements without content and elements whose content is
taken as it stands.  It forgives nothing: an element that is not closed, an ampersand that begins no
reference or an attribute that is there twice is turned down and not repaired.  Whether an element
may stand where it does is not asked.
-/

namespace IceCube.Markup

/-- A part of a page as it is read.  An attribute can stand without a value. -/
inductive Node where
  | text (s : String)
  | element (tag : String) (attributes : List (String × Option String)) (children : List Node)
deriving Repr, BEq

namespace Reader

/-! ## References -/

/-- The characters that have a name everywhere. -/
def named? : List Char → Option Char
  | ['a', 'm', 'p'] => some '&'
  | ['l', 't'] => some '<'
  | ['g', 't'] => some '>'
  | ['q', 'u', 'o', 't'] => some '"'
  | ['a', 'p', 'o', 's'] => some '\''
  | _ => none

/-- The character whose number the digits write. -/
def numbered? (base : Nat) (ds : List Char) : Option Char := do
  let n ← ds.foldlM (fun n d ↦ do
    let value ← Text.hexValue? d
    if value < base then some (base * n + value) else none) 0
  if ds ≠ [] ∧ n.isValidChar then some (Char.ofNat n) else none

/-- The character of a reference, from after the ampersand up to the semicolon. -/
def reference? : List Char → Option Char
  | '#' :: 'x' :: ds => numbered? 16 ds
  | '#' :: 'X' :: ds => numbered? 16 ds
  | '#' :: ds => numbered? 10 ds
  | name => named? name

/-- A text with its references replaced.  Inside a reference there are the signs that were read of
it. -/
def decode? : (inside : Option (List Char)) → List Char → Option (List Char)
  | none, [] => some []
  | none, '&' :: cs => decode? (some []) cs
  | none, c :: cs => (decode? none cs).map (c :: ·)
  | some _, [] => none
  | some name, ';' :: cs => do
    let c ← reference? name
    (decode? none cs).map (c :: ·)
  | some name, c :: cs => decode? (some (name ++ [c])) cs

/-! ## Tags -/

def isSpace (c : Char) : Bool := c == ' ' || c == '\t' || c == '\n' || c == '\x0c' || c == '\r'

/-- The signs in the name of a tag. -/
def inTag (c : Char) : Bool := !(isSpace c || c == '/' || c == '>')

/-- The signs in the name of an attribute. -/
def inAttribute (c : Char) : Bool := inTag c && c != '='

/-- The signs in a value that has no quotes. -/
def inValue (c : Char) : Bool := !(isSpace c || c == '>')

/-- A name, which is the same in capitals. -/
def nameOf (cs : List Char) : String := String.ofList (cs.map Char.toLower)

/-- A value up to its closing quote. -/
def quoted? (quote : Char) (cs : List Char) : Option (List Char × List Char) :=
  match cs.dropWhile (· != quote) with
  | _ :: rest => some (cs.takeWhile (· != quote), rest)
  | [] => none

/-- The value of an attribute as it is written. -/
def value? : List Char → Option (List Char × List Char)
  | '"' :: cs => quoted? '"' cs
  | '\'' :: cs => quoted? '\'' cs
  | cs =>
    match cs.takeWhile inValue with
    | [] => none
    | value => some (value, cs.dropWhile inValue)

/-- An attribute, and what is behind it. -/
def attribute? (cs : List Char) : Option ((String × Option String) × List Char) :=
  match cs.takeWhile inAttribute, cs.dropWhile inAttribute with
  | [], _ => none
  | name, '=' :: cs => do
    let (written, rest) ← value? cs
    let value ← decode? none written
    return ((nameOf name, some (String.ofList value)), rest)
  | name, rest => some ((nameOf name, none), rest)

/-- The attributes of a start tag, and what is behind it. -/
def attributes? : (fuel : Nat) → List Char → Option (List (String × Option String) × List Char)
  | 0, _ => none
  | fuel + 1, cs =>
    match cs.dropWhile isSpace with
    | '>' :: rest => some ([], rest)
    | cs => do
      let (a, rest) ← attribute? cs
      let (more, rest) ← attributes? fuel rest
      return (a :: more, rest)

/-- The name and the attributes of a start tag from after its bracket, and what is behind it. -/
def startTag? (cs : List Char) :
    Option (String × List (String × Option String) × List Char) :=
  match cs.takeWhile inTag with
  | [] => none
  | '!' :: _ => none
  | '?' :: _ => none
  | name => do
    let (attributes, rest) ← attributes? cs.length (cs.dropWhile inTag)
    if (attributes.map Prod.fst).Nodup then some (nameOf name, attributes, rest) else none

/-- What is behind the end tag of an element. -/
def endTag? (tag : String) : List Char → Option (List Char)
  | '<' :: '/' :: cs =>
    if nameOf (cs.takeWhile inTag) = tag then
      match (cs.dropWhile inTag).dropWhile isSpace with
      | '>' :: rest => some rest
      | _ => none
    else none
  | _ => none

/-! ## Elements -/

/-- The elements that have no content and no end tag. -/
def voidNames : List String :=
  ["area", "base", "br", "col", "embed", "hr", "img", "input", "link", "meta", "source", "track",
   "wbr"]

/-- The elements whose content is text without references. -/
def rawNames : List String := ["script", "style"]

/-- The elements whose content is text with references. -/
def escapableNames : List String := ["textarea", "title"]

/-- The text up to the end tag of an element, and what follows. -/
def rawText (tag : String) : List Char → List Char × List Char
  | [] => ([], [])
  | c :: cs =>
    if (endTag? tag (c :: cs)).isSome then ([], c :: cs)
    else (c :: (rawText tag cs).1, (rawText tag cs).2)

/-- A text as a part of a page, where there is one. -/
def textNodes (s : String) : List Node := if s = "" then [] else [.text s]

/-- The content of an element, and what is behind its end tag.  `inner` reads the content of an
element that has no content of a particular kind. -/
def content? (inner : List Char → Option (List Node × List Char)) (tag : String) (cs : List Char) :
    Option (List Node × List Char) :=
  if tag ∈ voidNames then some ([], cs)
  else do
    let (children, rest) ←
      if tag ∈ rawNames then
        some (textNodes (String.ofList (rawText tag cs).1), (rawText tag cs).2)
      else if tag ∈ escapableNames then
        (decode? none (rawText tag cs).1).map fun s ↦
          (textNodes (String.ofList s), (rawText tag cs).2)
      else inner cs
    let rest ← endTag? tag rest
    return (children, rest)

/-- An element from after its first bracket, and what is behind it. -/
def element? (inner : List Char → Option (List Node × List Char)) (cs : List Char) :
    Option (Node × List Char) := do
  let (tag, attributes, rest) ← startTag? cs
  let (children, rest) ← content? inner tag rest
  return (.element tag attributes children, rest)

/-- Texts and elements up to an end tag or the end of the page. -/
def nodes? : (fuel : Nat) → List Char → Option (List Node × List Char)
  | 0, _ => none
  | _ + 1, [] => some ([], [])
  | _ + 1, '<' :: '/' :: cs => some ([], '<' :: '/' :: cs)
  | fuel + 1, '<' :: cs => do
    let (node, rest) ← element? (nodes? fuel) cs
    let (more, rest) ← nodes? fuel rest
    return (node :: more, rest)
  | fuel + 1, cs => do
    let s ← decode? none (cs.takeWhile (· != '<'))
    let (more, rest) ← nodes? fuel (cs.dropWhile (· != '<'))
    return (.text (String.ofList s) :: more, rest)

end Reader

/-- The texts and elements of a whole page. -/
def read (page : String) : Option (List Node) :=
  match Reader.nodes? (page.length + 1) page.toList with
  | some (nodes, []) => some nodes
  | _ => none

namespace Reader

variable {fuel : Nat} {cs rest : List Char}

/-! ## Written texts -/

theorem decode?_entity {e : Char × List Char} (he : e ∈ entities) (cs : List Char) :
    decode? none (e.2 ++ cs) = (decode? none cs).map (e.1 :: ·) := by
  simp only [entities, List.mem_cons, List.not_mem_nil, or_false] at he
  rcases he with rfl | rfl | rfl | rfl | rfl <;> rfl

/-- A written text is read as the text. -/
theorem decode?_escape (s : String) : decode? none (escape s).toList = some s.toList := by
  refine escape_induction (motive := fun cs ds ↦ decode? none ds = some cs) rfl ?_ ?_ s
  · intro e he cs ds ih
    rw [decode?_entity he, ih]
    rfl
  · intro c cs ds hc ih
    rw [decode?, ih]
    · rfl
    · exact hc _ List.mem_cons_self

theorem quoted?_escape (s : String) (cs : List Char) :
    quoted? '"' ((escape s).toList ++ '"' :: cs) = some ((escape s).toList, cs) := by
  rw [quoted?, dropWhile_escape, takeWhile_escape]

/-! ## Written tags -/

section Names

variable {c : Char} (hc : isNameChar c = true)

include hc

theorem ne_of_isNameChar {d : Char} (hd : isNameChar d = false) : c ≠ d := by
  rintro rfl
  rw [hc] at hd
  cases hd

theorem inAttribute_of_isNameChar : inAttribute c = true := by
  have hne {d : Char} (hd : isNameChar d = false) : (c == d) = false :=
    beq_eq_false_iff_ne.mpr (ne_of_isNameChar hc hd)
  have hspace : isSpace c = false := by
    rw [isSpace, hne (by decide), hne (by decide), hne (by decide), hne (by decide),
      hne (by decide)]
    rfl
  rw [inAttribute, inTag, hspace, bne, hne (by decide), hne (by decide), hne (by decide)]
  rfl

theorem inTag_of_isNameChar : inTag c = true := by
  have h := inAttribute_of_isNameChar hc
  rw [inAttribute, Bool.and_eq_true] at h
  exact h.1

theorem isSpace_of_isNameChar : isSpace c = false := by
  have h := inTag_of_isNameChar hc
  rw [inTag] at h
  simp_all

theorem toLower_of_isNameChar : c.toLower = c := by
  unfold Char.toLower
  split
  · rename_i h
    rw [isNameChar, Bool.or_eq_true, Bool.or_eq_true, beq_iff_eq] at hc
    rcases hc with (hlower | hdigit) | rfl
    · have hlow : 'a'.val ≤ c.val := of_decide_eq_true (Bool.and_eq_true_iff.mp hlower).1
      exact absurd (UInt32.le_trans hlow h.2) (by decide)
    · have hhigh : c.val ≤ '9'.val := of_decide_eq_true (Bool.and_eq_true_iff.mp hdigit).2
      exact absurd (UInt32.le_trans h.1 hhigh) (by decide)
    · exact absurd h (by decide)
  · rfl

end Names

section Tags

variable {name : String} (hname : PlainName name)

include hname

/-- A name is the same in capitals, and these names have none. -/
theorem nameOf_toList : nameOf name.toList = name := by
  rw [nameOf, List.map_congr_left fun c hc ↦ toLower_of_isNameChar (hname.2 c hc), List.map_id',
    String.ofList_toList]

theorem exists_cons_name : ∃ c cs, name.toList = c :: cs ∧ isNameChar c = true := by
  obtain ⟨c, cs, hcs⟩ := List.exists_cons_of_ne_nil (show name.toList ≠ [] by simpa using hname.1)
  exact ⟨c, cs, hcs, hname.2 c (by rw [hcs]; exact List.mem_cons_self)⟩

theorem attribute?_text (s : String) (cs : List Char) :
    attribute? (name.toList ++ '=' :: '"' :: ((escape s).toList ++ '"' :: cs)) =
      some ((name, some s), cs) := by
  have hrun : ∀ c ∈ name.toList, inAttribute c = true := fun c hc ↦
    inAttribute_of_isNameChar (hname.2 c hc)
  have hself := nameOf_toList hname
  obtain ⟨d, ds, hds, -⟩ := exists_cons_name hname
  rw [attribute?, takeWhile_append_cons hrun rfl, dropWhile_append_cons hrun rfl]
  rw [hds] at hself ⊢
  simp only [value?, quoted?_escape, decode?_escape, String.ofList_toList, hself,
    Option.bind_eq_bind, Option.bind_some]
  rfl

theorem attribute?_flag {c : Char} (hc : c = ' ' ∨ c = '>') (cs : List Char) :
    attribute? (name.toList ++ c :: cs) = some ((name, none), c :: cs) := by
  have hrun : ∀ c ∈ name.toList, inAttribute c = true := fun c hc ↦
    inAttribute_of_isNameChar (hname.2 c hc)
  have hend : inAttribute c = false := by rcases hc with rfl | rfl <;> rfl
  have hself := nameOf_toList hname
  obtain ⟨d, ds, hds, -⟩ := exists_cons_name hname
  rw [attribute?, takeWhile_append_cons hrun hend, dropWhile_append_cons hrun hend]
  rw [hds] at hself ⊢
  rw [← hself]
  rcases hc with rfl | rfl <;> rfl

/-- An attribute is read in front of others. -/
theorem attributes?_cons {a : String × Option String} {as : List (String × Option String)}
    {after : List Char} (ha : attribute? (name.toList ++ cs) = some (a, after))
    (has : attributes? fuel after = some (as, rest)) :
    attributes? (fuel + 1) (' ' :: (name.toList ++ cs)) = some (a :: as, rest) := by
  obtain ⟨d, ds, hds, hd⟩ := exists_cons_name hname
  have hskip : (' ' :: (name.toList ++ cs)).dropWhile isSpace = name.toList ++ cs := by
    have hspace : isSpace ' ' = true := rfl
    rw [hds, List.cons_append, List.dropWhile_cons_of_pos hspace,
      List.dropWhile_cons_of_neg (by simp [isSpace_of_isNameChar hd])]
  rw [attributes?, hskip]
  split
  · rename_i heq
    rw [hds, List.cons_append] at heq
    exact absurd (List.cons.inj heq).1 (ne_of_isNameChar hd (by decide))
  · simp only [ha, has, Option.bind_eq_bind, Option.bind_some]
    rfl

end Tags

/-- The attributes of a start tag as they are read: those that are absent are not there. -/
def kept (as : List (String × AttributeValue)) : List (String × Option String) :=
  as.filterMap fun a ↦ match a.2 with
    | .absent => none
    | .flag => some (a.1, none)
    | .text s => some (a.1, some s)
    | .raw s => some (a.1, some s)

/-- A start tag with names of lower-case letters, digits and hyphens, no two attributes of one name,
and no value that is markup already. -/
structure PlainTag (tag : String) (as : List (String × AttributeValue)) : Prop where
  name : PlainName tag
  names : ∀ a ∈ as, PlainName a.1
  distinct : (as.map Prod.fst).Nodup
  values : ∀ a ∈ as, ∀ s, a.2 ≠ .raw s

theorem toList_renderAttribute_flag (name : String) :
    (Html.renderAttribute name .flag).toList = ' ' :: name.toList := by
  simp [Html.renderAttribute]

theorem toList_renderAttribute_text (name s : String) :
    (Html.renderAttribute name (.text s)).toList =
      ' ' :: (name.toList ++ '=' :: '"' :: ((escape s).toList ++ ['"'])) := by
  simp [Html.renderAttribute]

/-- Written attributes are read one by one, up to and with the bracket behind them. -/
theorem attributes?_renderAttributes {as : List (String × AttributeValue)}
    (hnames : ∀ a ∈ as, PlainName a.1) (hvalues : ∀ a ∈ as, ∀ s, a.2 ≠ .raw s)
    (hfuel : (Html.renderAttributes as).toList.length < fuel) (rest : List Char) :
    attributes? fuel ((Html.renderAttributes as).toList ++ '>' :: rest) = some (kept as, rest) := by
  obtain ⟨fuel, rfl⟩ := Nat.exists_eq_add_one_of_ne_zero (Nat.ne_of_gt (Nat.zero_lt_of_lt hfuel))
  induction as generalizing fuel with
  | nil => rfl
  | cons a as ih =>
    obtain ⟨name, value⟩ := a
    obtain ⟨hname, hmorenames⟩ := List.forall_mem_cons.mp hnames
    obtain ⟨hvalue, hmorevalues⟩ := List.forall_mem_cons.mp hvalues
    rw [renderAttributes_cons, String.toList_append, List.length_append] at hfuel
    rw [renderAttributes_cons, String.toList_append, List.append_assoc]
    cases value with
    | absent => exact ih hmorenames hmorevalues fuel (by omega)
    | flag =>
      rw [toList_renderAttribute_flag, List.length_cons] at hfuel
      obtain ⟨fuel, rfl⟩ := Nat.exists_eq_add_one_of_ne_zero (show fuel ≠ 0 by omega)
      have hmore := ih hmorenames hmorevalues fuel (by omega)
      obtain ⟨c, cs, hcs, hc⟩ := exists_cons_renderAttributes as rest
      rw [hcs] at hmore ⊢
      rw [toList_renderAttribute_flag]
      exact attributes?_cons hname (attribute?_flag hname hc cs) hmore
    | text s =>
      rw [toList_renderAttribute_text, List.length_cons] at hfuel
      obtain ⟨fuel, rfl⟩ := Nat.exists_eq_add_one_of_ne_zero (show fuel ≠ 0 by omega)
      have hmore := ih hmorenames hmorevalues fuel (by omega)
      rw [toList_renderAttribute_text]
      simp only [List.cons_append, List.append_assoc, List.nil_append]
      exact attributes?_cons hname (attribute?_text hname s _) hmore
    | raw s => exact absurd rfl (hvalue s)

theorem keys_kept_sublist (as : List (String × AttributeValue)) :
    ((kept as).map Prod.fst).Sublist (as.map Prod.fst) := by
  induction as with
  | nil => exact .slnil
  | cons a as ih =>
    obtain ⟨name, value⟩ := a
    cases value with
    | absent => exact ih.cons name
    | flag => exact ih.cons_cons name
    | text s => exact ih.cons_cons name
    | raw s => exact ih.cons_cons name

/-- A written start tag has its name and its attributes. -/
theorem startTag?_tag {tag : String} {as : List (String × AttributeValue)} (h : PlainTag tag as)
    (rest : List Char) :
    startTag? (tag.toList ++ ((Html.renderAttributes as).toList ++ '>' :: rest)) =
      some (tag, kept as, rest) := by
  have hrun : ∀ c ∈ tag.toList, inTag c = true := fun c hc ↦ inTag_of_isNameChar (h.name.2 c hc)
  obtain ⟨c, cs, hcs, hc⟩ := exists_cons_renderAttributes as rest
  have hend : inTag c = false := by rcases hc with rfl | rfl <;> rfl
  have hread : attributes? (tag.toList ++ c :: cs).length (c :: cs) = some (kept as, rest) := by
    rw [← hcs]
    refine attributes?_renderAttributes h.names h.values ?_ rest
    simp only [List.length_append, List.length_cons]
    omega
  have hkept : ((kept as).map Prod.fst).Nodup := h.distinct.sublist (keys_kept_sublist as)
  have hself := nameOf_toList h.name
  obtain ⟨d, ds, hds, hd⟩ := exists_cons_name h.name
  rw [hcs, startTag?, takeWhile_append_cons hrun hend, dropWhile_append_cons hrun hend, hread]
  rw [hds] at hself ⊢
  split
  · rename_i heq
    cases heq
  · rename_i heq
    exact absurd (List.cons.inj heq).1 (ne_of_isNameChar hd (by decide))
  · rename_i heq
    exact absurd (List.cons.inj heq).1 (ne_of_isNameChar hd (by decide))
  · simp only [Option.bind_eq_bind, Option.bind_some, if_pos hkept, hself]

theorem endTag?_tag {tag : String} (htag : PlainName tag) (rest : List Char) :
    endTag? tag ('<' :: '/' :: (tag.toList ++ '>' :: rest)) = some rest := by
  have hrun : ∀ c ∈ tag.toList, inTag c = true := fun c hc ↦ inTag_of_isNameChar (htag.2 c hc)
  rw [endTag?, takeWhile_append_cons hrun rfl, dropWhile_append_cons hrun rfl,
    if_pos (nameOf_toList htag)]
  rfl

/-! ## Written parts -/

/-- Where the content of an element or a page ends. -/
def Ends (rest : List Char) : Prop := rest = [] ∨ ∃ cs, rest = '<' :: '/' :: cs

theorem nodes?_of_ends (h : Ends rest) : nodes? (fuel + 1) rest = some ([], rest) := by
  rcases h with rfl | ⟨cs, rfl⟩ <;> rfl

theorem exists_cons_escape {s : String} (hs : s ≠ "") : ∃ c cs, (escape s).toList = c :: cs := by
  refine List.exists_cons_of_ne_nil fun hempty ↦ hs ?_
  have hself := unescape_escape s
  rw [hempty, unescape] at hself
  exact String.toList_eq_nil_iff.mp hself.symm

/-- A written text is read as a part of its own up to the next tag. -/
theorem nodes?_text {s : String} (hs : s ≠ "") (hcs : cs = [] ∨ ∃ after, cs = '<' :: after)
    {more : List Node} (hmore : nodes? fuel cs = some (more, rest)) :
    nodes? (fuel + 1) ((escape s).toList ++ cs) = some (.text s :: more, rest) := by
  have hrun : ∀ c ∈ (escape s).toList, (c != '<') = true := by
    intro c hc
    rw [bne_iff_ne]
    rintro rfl
    exact not_mem_escape (by decide) s hc
  have hspan : ((escape s).toList ++ cs).takeWhile (· != '<') = (escape s).toList ∧
      ((escape s).toList ++ cs).dropWhile (· != '<') = cs := by
    rcases hcs with rfl | ⟨after, rfl⟩
    · rw [List.append_nil, List.dropWhile_eq_nil_iff]
      exact ⟨List.takeWhile_eq_self_iff.mpr hrun, hrun⟩
    · exact ⟨takeWhile_append_cons hrun rfl _, dropWhile_append_cons hrun rfl _⟩
  obtain ⟨c, cs', hc⟩ := exists_cons_escape hs
  have hangle : c ≠ '<' := by simpa using hrun c (by rw [hc]; exact List.mem_cons_self)
  have hread := decode?_escape s
  rw [hc, List.cons_append] at hspan ⊢
  rw [hc] at hread
  rw [nodes?, hspan.1, hspan.2, hread]
  · simp only [hmore, Option.bind_eq_bind, Option.bind_some, String.ofList_toList]
    rfl
  · simp
  · simp [hangle]
  · simp [hangle]

theorem content?_of_void (inner : List Char → Option (List Node × List Char)) {tag : String}
    (h : tag ∈ voidNames) (cs : List Char) : content? inner tag cs = some ([], cs) := if_pos h

theorem content?_of_inner {inner : List Char → Option (List Node × List Char)} {tag : String}
    (hvoid : tag ∉ voidNames) (hkind : tag ∉ rawNames ++ escapableNames) {children : List Node}
    {after : List Char} (hinner : inner cs = some (children, after))
    (hend : endTag? tag after = some rest) : content? inner tag cs = some (children, rest) := by
  rw [List.mem_append, not_or] at hkind
  rw [content?, if_neg hvoid, if_neg hkind.1, if_neg hkind.2]
  simp only [hinner, hend, Option.bind_eq_bind, Option.bind_some]
  rfl

/-- A written element is read in front of what follows it. -/
theorem nodes?_element {tag : String} {as : List (String × AttributeValue)} (h : PlainTag tag as)
    {children more : List Node} {after : List Char}
    (hcontent : content? (nodes? fuel) tag cs = some (children, after))
    (hmore : nodes? fuel after = some (more, rest)) :
    nodes? (fuel + 1) ('<' :: (tag.toList ++ ((Html.renderAttributes as).toList ++ '>' :: cs))) =
      some (.element tag (kept as) children :: more, rest) := by
  obtain ⟨d, ds, hds, hd⟩ := exists_cons_name h.name
  have hslash : d ≠ '/' := ne_of_isNameChar hd (by decide)
  have helement : element? (nodes? fuel)
      (tag.toList ++ ((Html.renderAttributes as).toList ++ '>' :: cs)) =
        some (.element tag (kept as) children, after) := by
    simp only [element?, startTag?_tag h, hcontent, Option.bind_eq_bind, Option.bind_some]
    rfl
  rw [hds, List.cons_append] at helement ⊢
  rw [nodes?]
  · simp only [helement, hmore, Option.bind_eq_bind, Option.bind_some]
    rfl
  · simpa using hslash

end Reader

end IceCube.Markup

import Mathlib.Data.List.Basic
import IceCube.Markup.Html

/-!
# Start tags read back

A page finds the attributes of an element in its start tag, between quotes and with entities for
some characters.  Names of lower-case letters, digits and hyphens with any texts as values come back
as they were.
-/

namespace IceCube.Markup

/-! ## Entities -/

/-- A text in which the entities that escaping writes are characters again. -/
def unescape : List Char → List Char
  | '&' :: 'a' :: 'm' :: 'p' :: ';' :: cs => '&' :: unescape cs
  | '&' :: 'l' :: 't' :: ';' :: cs => '<' :: unescape cs
  | '&' :: 'g' :: 't' :: ';' :: cs => '>' :: unescape cs
  | '&' :: '#' :: '3' :: '9' :: ';' :: cs => '\'' :: unescape cs
  | '&' :: '#' :: '3' :: '4' :: ';' :: cs => '"' :: unescape cs
  | c :: cs => c :: unescape cs
  | [] => []

theorem unescape_cons {c : Char} (hc : c ≠ '&') (cs : List Char) :
    unescape (c :: cs) = c :: unescape cs := by
  rw [unescape.eq_def]
  split <;> simp_all

/-- The characters that are escaped, with their written forms. -/
def entities : List (Char × List Char) :=
  [('&', "&amp;".toList), ('<', "&lt;".toList), ('>', "&gt;".toList), ('\'', "&#39;".toList),
    ('"', "&#34;".toList)]

/-- A character is written as an entity or as it is. -/
theorem escapeChar_cases (c : Char) :
    (c, escapeChar c) ∈ entities ∨ (escapeChar c = [c] ∧ ∀ e ∈ entities, c ≠ e.1) := by
  unfold escapeChar
  split_ifs with hand hless hmore hquote hdouble
  · rw [beq_iff_eq.mp hand]
    exact .inl (by decide)
  · rw [beq_iff_eq.mp hless]
    exact .inl (by decide)
  · rw [beq_iff_eq.mp hmore]
    exact .inl (by decide)
  · rw [beq_iff_eq.mp hquote]
    exact .inl (by decide)
  · rw [beq_iff_eq.mp hdouble]
    exact .inl (by decide)
  · exact .inr ⟨rfl, by simp_all [entities]⟩

/-- What is written for a text has whatever all entities and the other characters have. -/
theorem escape_induction {motive : List Char → List Char → Prop} (nil : motive [] [])
    (entity : ∀ e ∈ entities, ∀ {cs ds}, motive cs ds → motive (e.1 :: cs) (e.2 ++ ds))
    (plain : ∀ {c cs ds}, (∀ e ∈ entities, c ≠ e.1) → motive cs ds → motive (c :: cs) (c :: ds))
    (s : String) : motive s.toList (escape s).toList := by
  rw [escape, String.toList_ofList]
  induction s.toList with
  | nil => exact nil
  | cons c cs ih =>
    rw [List.flatMap_cons]
    rcases escapeChar_cases c with hentity | ⟨hself, hplain⟩
    · exact entity _ hentity ih
    · rw [hself]
      exact plain hplain ih

theorem unescape_entity {e : Char × List Char} (he : e ∈ entities) (cs : List Char) :
    unescape (e.2 ++ cs) = e.1 :: unescape cs := by
  simp only [entities, List.mem_cons, List.not_mem_nil, or_false] at he
  rcases he with rfl | rfl | rfl | rfl | rfl <;> simp [unescape]

theorem unescape_escape (s : String) : unescape (escape s).toList = s.toList := by
  refine escape_induction (motive := fun cs ds ↦ unescape ds = cs) ?_ ?_ ?_ s
  · simp [unescape]
  · intro e he cs ds ih
    rw [unescape_entity he, ih]
  · intro c cs ds hc ih
    rw [unescape_cons (hc _ (List.mem_cons_self)), ih]

/-- The signs that mean something in a page, but for the ampersand, are in no written text. -/
theorem not_mem_escape {d : Char} (hd : d ∈ ['<', '>', '\'', '"']) (s : String) :
    d ∉ (escape s).toList := by
  have hentities : ∀ e ∈ entities, ∀ d ∈ ['<', '>', '\'', '"'], d ∉ e.2 := by simp [entities]
  have hescaped : ∀ d ∈ ['<', '>', '\'', '"'], ∃ e ∈ entities, d = e.1 := by simp [entities]
  refine escape_induction (motive := fun _ ds ↦ d ∉ ds) List.not_mem_nil ?_ ?_ s
  · intro e he cs ds ih
    rw [List.mem_append, not_or]
    exact ⟨hentities e he d hd, ih⟩
  · intro c cs ds hc ih
    rw [List.mem_cons, not_or]
    refine ⟨?_, ih⟩
    rintro rfl
    obtain ⟨e, he, heq⟩ := hescaped d hd
    exact hc e he heq

/-! ## Tags -/

/-- The characters of the names of tags and attributes. -/
def isNameChar (c : Char) : Bool := c.isLower || c.isDigit || c == '-'

/-- A name of lower-case letters, digits and hyphens. -/
def PlainName (name : String) : Prop := name ≠ "" ∧ ∀ c ∈ name.toList, isNameChar c = true

instance : DecidablePred PlainName := fun name ↦
  decidable_of_iff (name ≠ "" ∧ name.toList.all isNameChar = true) (by
    rw [PlainName, List.all_eq_true])

/-- The attributes of a start tag, as far as the bracket at its end. -/
def attributes? : (fuel : Nat) → List Char → Option (List (String × String))
  | fuel + 1, ' ' :: cs =>
    match cs.dropWhile isNameChar with
    | '=' :: '"' :: vs =>
      match vs.dropWhile (· != '"') with
      | '"' :: rest => do
        let more ← attributes? fuel rest
        return (String.ofList (cs.takeWhile isNameChar),
          String.ofList (unescape (vs.takeWhile (· != '"')))) :: more
      | _ => none
    | _ => none
  | _ + 1, '>' :: _ => some []
  | _, _ => none

/-- The name and the attributes of the start tag that a text begins with. -/
def startTag? (s : String) : Option (String × List (String × String)) :=
  match s.toList with
  | '<' :: cs =>
    (attributes? cs.length (cs.dropWhile isNameChar)).map fun as ↦
      (String.ofList (cs.takeWhile isNameChar), as)
  | _ => none

/-- A run of signs ends where another sign begins. -/
theorem takeWhile_append_cons {p : Char → Bool} {run : List Char} (hrun : ∀ c ∈ run, p c = true)
    {c : Char} (hc : p c = false) (cs : List Char) : (run ++ c :: cs).takeWhile p = run := by
  rw [List.takeWhile_append_of_pos hrun, List.takeWhile_cons_of_neg (by simp [hc]), List.append_nil]

theorem dropWhile_append_cons {p : Char → Bool} {run : List Char} (hrun : ∀ c ∈ run, p c = true)
    {c : Char} (hc : p c = false) (cs : List Char) : (run ++ c :: cs).dropWhile p = c :: cs := by
  rw [List.dropWhile_append_of_pos hrun, List.dropWhile_cons_of_neg (by simp [hc])]

/-- No quote ends a written text early. -/
theorem ne_quote_of_mem_escape (s : String) : ∀ c ∈ (escape s).toList, (c != '"') = true := by
  intro c hc
  rw [bne_iff_ne]
  rintro rfl
  exact not_mem_escape (by decide) s hc

theorem takeWhile_escape (s : String) (cs : List Char) :
    ((escape s).toList ++ '"' :: cs).takeWhile (· != '"') = (escape s).toList :=
  takeWhile_append_cons (ne_quote_of_mem_escape s) rfl cs

theorem dropWhile_escape (s : String) (cs : List Char) :
    ((escape s).toList ++ '"' :: cs).dropWhile (· != '"') = '"' :: cs :=
  dropWhile_append_cons (ne_quote_of_mem_escape s) rfl cs

/-- Attributes that have texts as values. -/
def texts (as : List (String × String)) : List (String × AttributeValue) :=
  as.map fun a ↦ (a.1, .text a.2)

theorem renderAttributes_cons (name : String) (value : AttributeValue)
    (as : List (String × AttributeValue)) : Html.renderAttributes ((name, value) :: as) =
      Html.renderAttribute name value ++ Html.renderAttributes as := by
  simp [Html.renderAttributes]

theorem toList_renderAttributes_cons (name value : String) (as : List (String × String))
    (cs : List Char) :
    (Html.renderAttributes (texts ((name, value) :: as))).toList ++ cs =
      ' ' :: (name.toList ++ '=' :: '"' :: ((escape value).toList ++ '"' ::
        ((Html.renderAttributes (texts as)).toList ++ cs))) := by
  simp [Html.renderAttributes, texts, Html.renderAttribute]

theorem attributes?_render {as : List (String × String)} (h : ∀ a ∈ as, PlainName a.1)
    (cs : List Char) {fuel : Nat} (hfuel : as.length < fuel) :
    attributes? fuel ((Html.renderAttributes (texts as)).toList ++ '>' :: cs) = some as := by
  induction as generalizing fuel with
  | nil =>
    obtain ⟨fuel, rfl⟩ := Nat.exists_eq_add_of_lt hfuel
    simp [Html.renderAttributes, texts, attributes?]
  | cons a as ih =>
    obtain ⟨name, value⟩ := a
    obtain ⟨hname, has⟩ := List.forall_mem_cons.mp h
    obtain ⟨fuel, rfl⟩ : ∃ k, fuel = k + 1 := ⟨fuel - 1, by simp at hfuel; omega⟩
    have hrest := ih has (by simpa using hfuel)
    rw [toList_renderAttributes_cons, attributes?]
    have hequals : isNameChar '=' = false := by decide
    simp only [takeWhile_append_cons hname.2 hequals, dropWhile_append_cons hname.2 hequals,
      takeWhile_escape, dropWhile_escape, hrest, unescape_escape, String.ofList_toList]
    rfl

theorem length_le_renderAttributes (as : List (String × String)) :
    as.length ≤ (Html.renderAttributes (texts as)).toList.length := by
  induction as with
  | nil => simp
  | cons a as ih =>
    have h := congrArg List.length (toList_renderAttributes_cons a.1 a.2 as [])
    simp only [List.append_nil, List.length_cons, List.length_append] at h
    rw [List.length_cons, h]
    omega

/-- An attribute that is there has a space before it. -/
theorem renderAttribute_cases (name : String) (value : AttributeValue) :
    Html.renderAttribute name value = "" ∨
      ∃ cs, (Html.renderAttribute name value).toList = ' ' :: cs := by
  cases value with
  | absent => exact .inl rfl
  | flag =>
    rw [Html.renderAttribute, String.toList_append]
    exact .inr ⟨_, rfl⟩
  | text s =>
    simp only [Html.renderAttribute, String.toList_append]
    exact .inr ⟨_, rfl⟩
  | raw s =>
    simp only [Html.renderAttribute, String.toList_append]
    exact .inr ⟨_, rfl⟩

/-- What follows the name of a tag is a space or the bracket. -/
theorem exists_cons_renderAttributes (as : List (String × AttributeValue)) (cs : List Char) :
    ∃ c cs', (Html.renderAttributes as).toList ++ '>' :: cs = c :: cs' ∧ (c = ' ' ∨ c = '>') := by
  induction as with
  | nil => exact ⟨'>', cs, rfl, .inr rfl⟩
  | cons a as ih =>
    obtain ⟨name, value⟩ := a
    rw [renderAttributes_cons]
    rcases renderAttribute_cases name value with hnone | ⟨ds, hsome⟩
    · rwa [hnone, String.empty_append]
    · rw [String.toList_append, hsome]
      exact ⟨' ', _, rfl, .inl rfl⟩

/-- The start tag of an element has its name and its attributes. -/
theorem startTag?_render {tag : String} {as : List (String × String)} (htag : PlainName tag)
    (has : ∀ a ∈ as, PlainName a.1) (children : List Html) :
    startTag? (Html.element tag (texts as) children).render = some (tag, as) := by
  obtain ⟨rest, hrest⟩ : ∃ rest, (Html.element tag (texts as) children).render =
      "<" ++ tag ++ Html.renderAttributes (texts as) ++ ">" ++ rest := by
    rw [Html.render]
    split
    · exact ⟨"", by simp⟩
    · exact ⟨Html.renderAll children ++ "</" ++ tag ++ ">", by simp [String.append_assoc]⟩
  obtain ⟨c, cs, hcs, hend⟩ := exists_cons_renderAttributes (texts as) rest.toList
  have hc : isNameChar c = false := by rcases hend with rfl | rfl <;> decide
  have hlist : (Html.element tag (texts as) children).render.toList =
      '<' :: (tag.toList ++ c :: cs) := by
    rw [hrest, ← hcs]
    simp
  have hfuel : as.length < (tag.toList ++ c :: cs).length := by
    have := length_le_renderAttributes as
    rw [← hcs]
    simp only [List.length_append, List.length_cons]
    omega
  rw [startTag?, hlist]
  simp only [takeWhile_append_cons htag.2 hc, dropWhile_append_cons htag.2 hc]
  rw [← hcs, attributes?_render has rest.toList (by rw [hcs]; exact hfuel), String.ofList_toList]
  rfl

end IceCube.Markup

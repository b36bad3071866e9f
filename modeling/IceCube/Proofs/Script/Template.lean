import Mathlib.Data.List.Basic
import IceCube.Script
import IceCube.Text.Hex
import IceCube.Text.Newline

/-!
# Stylesheets read back from a script

A script hands the stylesheet of its component to the page in a template literal.  The literal is
read here as the language of scripts reads it: with all its escapes, as code units, with every line
end as a line feed.  The escaping puts a backslash before each sign that means something inside a
literal, so the reader ends at the backtick that the script has put there and has seen the signs of
the stylesheet alone.
-/

namespace IceCube.Script

open Text

/-! ## Values of literals -/

/-- The code units of a code point. -/
def codeUnits (n : ℕ) : List ℕ :=
  if n < 0x10000 then [n] else [0xD800 + (n - 0x10000) / 0x400, 0xDC00 + (n - 0x10000) % 0x400]

/-- A text as a value of the language: its code units. -/
def value (cs : List Char) : List ℕ := cs.flatMap fun c ↦ codeUnits c.toNat

/-- The line ends of scripts. -/
def isLineEnd (c : Char) : Bool := c == '\n' || c == '\r' || c == '\u2028' || c == '\u2029'

/-- The character that a letter behind a backslash stands for. -/
def single : Char → Char
  | 'b' => '\x08'
  | 't' => '\t'
  | 'n' => '\n'
  | 'v' => '\x0b'
  | 'f' => '\x0c'
  | 'r' => '\r'
  | c => c

/-- The number that hexadecimal digits write, if there are any. -/
def hexNumber? (digits : List Char) : Option ℕ :=
  if digits.isEmpty then none
  else digits.foldlM (fun n c ↦ (hexValue? c).map (16 * n + ·)) 0

/-- What an escape stands for, and what is left after it.  The text is what follows the backslash.
A line end stands for nothing, and digits other than a lone zero are no escape. -/
def escape? : List Char → Option (List ℕ × List Char)
  | [] => none
  | '\r' :: '\n' :: cs => some ([], cs)
  | '0' :: cs => if cs.head?.any Char.isDigit then none else some ([0], cs)
  | 'x' :: a :: b :: cs => (hexNumber? [a, b]).map fun n ↦ ([n], cs)
  | 'u' :: '\x7b' :: cs =>
    match hexNumber? (cs.takeWhile fun c ↦ (hexValue? c).isSome),
      cs.dropWhile fun c ↦ (hexValue? c).isSome with
    | some n, '\x7d' :: cs => if n ≤ 0x10FFFF then some (codeUnits n, cs) else none
    | _, _ => none
  | 'u' :: a :: b :: c :: d :: cs => (hexNumber? [a, b, c, d]).map fun n ↦ ([n], cs)
  | c :: cs =>
    if isLineEnd c then some ([], cs)
    else if c.isDigit || c == 'x' || c == 'u' then none
    else some (codeUnits (single c).toNat, cs)

/-- The value of a template literal without substitutions, and what is left after its end.  The text
is what follows the backtick at its start. -/
def template? : (fuel : ℕ) → List Char → Option (List ℕ × List Char)
  | 0, _ => none
  | _ + 1, [] => none
  | _ + 1, '\x60' :: cs => some ([], cs)
  | _ + 1, '$' :: '\x7b' :: _ => none
  | fuel + 1, '\\' :: cs => do
    let (units, cs) ← escape? cs
    (template? fuel cs).map (Prod.map (units ++ ·) id)
  | fuel + 1, '\r' :: '\n' :: cs => (template? fuel cs).map (Prod.map (codeUnits 0xA ++ ·) id)
  | fuel + 1, '\r' :: cs => (template? fuel cs).map (Prod.map (codeUnits 0xA ++ ·) id)
  | fuel + 1, c :: cs => (template? fuel cs).map (Prod.map (codeUnits c.toNat ++ ·) id)

/-- The value of the template literal that a text starts with, and what is left after it. -/
def literal? : List Char → Option (List ℕ × List Char)
  | '\x60' :: cs => template? cs.length cs
  | _ => none

/-- Neither a backtick nor the start of a substitution stands in a text without a backslash before
it, and no backslash is left over at its end. -/
def Inert : List Char → Prop
  | [] => True
  | ['\\'] => False
  | '\\' :: _ :: cs => Inert cs
  | '\x60' :: _ => False
  | '$' :: '\x7b' :: _ => False
  | _ :: cs => Inert cs

/-! ## Escaping -/

/-- A text with another in place of a word wherever it stands, from left to right.  As many signs as
`skip` says are left of the word at hand. -/
def replaceAll (word new : List Char) : (skip : ℕ) → List Char → List Char
  | _, [] => []
  | 0, c :: cs =>
    if word.isPrefixOf (c :: cs) then new ++ replaceAll word new (word.length - 1) cs
    else c :: replaceAll word new 0 cs
  | skip + 1, _ :: cs => replaceAll word new skip cs

variable {c : Char} {cs rest : List Char}

/-- The signs that are escaped wherever they stand. -/
def isMark (c : Char) : Bool := c == '\\' || c == '\x60'

theorem escapeTemplate_of_mark (hc : isMark c = true) (cs : List Char) :
    escapeTemplate (c :: cs) = '\\' :: c :: escapeTemplate cs := by
  simp only [isMark, Bool.or_eq_true, beq_iff_eq] at hc
  rcases hc with rfl | rfl
  · rw [escapeTemplate]
  · rw [escapeTemplate]

theorem escapeTemplate_of_not_mark (hc : isMark c = false)
    (hdollar : c = '$' → cs.head? ≠ some '\x7b') :
    escapeTemplate (c :: cs) = c :: escapeTemplate cs := by
  simp only [isMark, Bool.or_eq_false_iff, beq_eq_false_iff_ne] at hc
  rw [escapeTemplate.eq_def]
  split <;> simp_all

theorem escapeTemplate_substitution (cs : List Char) :
    escapeTemplate ('$' :: '\x7b' :: cs) = '\\' :: '$' :: escapeTemplate ('\x7b' :: cs) := by
  rw [escapeTemplate, escapeTemplate_of_not_mark rfl (by simp)]

/-- What holds of all texts follows their signs: one that is escaped wherever it stands, a dollar
that starts a substitution, or one that is written as it is. -/
theorem sign_induction {motive : List Char → Prop} (nil : motive [])
    (mark : ∀ c cs, isMark c = true → motive cs → motive (c :: cs))
    (substitution : ∀ cs, motive ('\x7b' :: cs) → motive ('$' :: '\x7b' :: cs))
    (plain : ∀ c cs, isMark c = false → (c = '$' → cs.head? ≠ some '\x7b') → motive cs →
      motive (c :: cs)) (cs : List Char) : motive cs := by
  induction cs with
  | nil => exact nil
  | cons c cs ih =>
    by_cases hmark : isMark c = true
    · exact mark c cs hmark ih
    by_cases hdollar : c = '$' ∧ cs.head? = some '\x7b'
    · obtain ⟨rfl, hbrace⟩ := hdollar
      obtain ⟨cs, rfl⟩ := List.head?_eq_some_iff.mp hbrace
      exact substitution cs ih
    · exact plain c cs (by simpa using hmark) (fun hc hbrace ↦ hdollar ⟨hc, hbrace⟩) ih

/-- A sign other than a backslash is first in an escaped text only if it is first in the text. -/
theorem head?_escapeTemplate (hc : c ≠ '\\') (h : (escapeTemplate cs).head? = some c) :
    cs.head? = some c := by
  rw [escapeTemplate.eq_def] at h
  split at h <;> simp_all [eq_comm]

/-! ## Escaping as replacing -/

theorem replaceAll_single (m : Char) (new cs : List Char) :
    replaceAll [m] new 0 cs = cs.flatMap fun c ↦ if m == c then new else [c] := by
  induction cs with
  | nil => rfl
  | cons c cs ih =>
    rw [List.flatMap_cons, replaceAll, ih]
    by_cases h : m = c
    · subst h
      simpa using ih
    · simp [h]

/-- The marks of a text are escaped by two replacements. -/
theorem replaceAll_marks (cs : List Char) :
    replaceAll ['\x60'] ['\\', '\x60'] 0 (replaceAll ['\\'] ['\\', '\\'] 0 cs) =
      cs.flatMap fun c ↦ if isMark c then ['\\', c] else [c] := by
  rw [replaceAll_single, replaceAll_single, List.flatMap_assoc]
  refine List.flatMap_congr fun c _ ↦ ?_
  by_cases hback : c = '\\'
  · subst hback
    rfl
  by_cases htick : c = '\x60'
  · subst htick
    rfl
  simp [isMark, hback, htick, Ne.symm hback, Ne.symm htick]

theorem replaceAll_of_not_prefix {word new : List Char} (h : ¬ word <+: c :: cs) :
    replaceAll word new 0 (c :: cs) = c :: replaceAll word new 0 cs := by
  rw [replaceAll, if_neg (by simpa using h)]

/-- A literal is escaped as by three replacements, one after the other. -/
theorem escapeTemplate_eq_replaceAll (cs : List Char) : escapeTemplate cs =
    replaceAll ['$', '\x7b'] ['\\', '$', '\x7b'] 0
      (replaceAll ['\x60'] ['\\', '\x60'] 0 (replaceAll ['\\'] ['\\', '\\'] 0 cs)) := by
  rw [replaceAll_marks]
  induction cs using sign_induction with
  | nil => rfl
  | mark c cs hmark ih =>
    have hc : '$' ≠ c := by
      rintro rfl
      cases hmark
    rw [escapeTemplate_of_mark hmark, List.flatMap_cons, if_pos hmark, List.cons_append,
      List.singleton_append, replaceAll_of_not_prefix (by simp [List.cons_prefix_cons]),
      replaceAll_of_not_prefix (by simp [List.cons_prefix_cons, hc]), ih]
  | substitution cs ih =>
    -- the brace is no mark, so the replacements before leave it behind the dollar
    rw [List.flatMap_cons, if_neg (by decide), List.singleton_append,
      replaceAll_of_not_prefix (by simp [List.cons_prefix_cons])] at ih
    rw [escapeTemplate_substitution, ih, List.flatMap_cons, if_neg (by decide),
      List.singleton_append, List.flatMap_cons, if_neg (by decide), List.singleton_append]
    rfl
  | plain c cs hmark hdollar ih =>
    rw [escapeTemplate_of_not_mark hmark hdollar, List.flatMap_cons, if_neg (by simp [hmark]),
      List.singleton_append, replaceAll_of_not_prefix, ih]
    rw [List.cons_prefix_cons]
    rintro ⟨rfl, hbrace⟩
    refine hdollar rfl ?_
    cases cs with
    | nil => simp at hbrace
    | cons d ds =>
      rw [List.flatMap_cons] at hbrace
      split at hbrace
      · simp [List.cons_prefix_cons] at hbrace
      · rw [List.singleton_append, List.cons_prefix_cons] at hbrace
        rw [← hbrace.1]
        rfl

/-! ## Texts that stay inside a literal -/

theorem inert_cons_iff (hmark : isMark c = false) (hdollar : c = '$' → cs.head? ≠ some '\x7b') :
    Inert (c :: cs) ↔ Inert cs := by
  simp only [isMark, Bool.or_eq_false_iff, beq_eq_false_iff_ne] at hmark
  rw [Inert.eq_def]
  split <;> simp_all

/-- An escaped text cannot end its literal and starts no substitution in it. -/
theorem inert_escapeTemplate (cs : List Char) : Inert (escapeTemplate cs) := by
  induction cs using sign_induction with
  | nil => simp [escapeTemplate, Inert]
  | mark c cs hmark ih => rwa [escapeTemplate_of_mark hmark, Inert]
  | substitution cs ih => rwa [escapeTemplate_substitution, Inert]
  | plain c cs hmark hdollar ih =>
    rw [escapeTemplate_of_not_mark hmark hdollar]
    refine (inert_cons_iff hmark ?_).mpr ih
    exact fun hc hbrace ↦ hdollar hc (head?_escapeTemplate (by decide) hbrace)

/-! ## Reading back -/

section Reading

variable {fuel : ℕ}

/-- A sign behind a backslash is read as itself if it is one of those that are escaped. -/
theorem template?_escaped (hc : isMark c = true ∨ c = '$') (cs : List Char) :
    template? (fuel + 1) ('\\' :: c :: cs) =
      (template? fuel cs).map (Prod.map (codeUnits c.toNat ++ ·) id) := by
  have hescape : escape? (c :: cs) = some (codeUnits c.toNat, cs) := by
    simp only [isMark, Bool.or_eq_true, beq_iff_eq] at hc
    rcases hc with (rfl | rfl) | rfl <;> rfl
  rw [template?, hescape]
  rfl

/-- A sign is read as itself unless it is a mark, the start of a substitution or a line end. -/
theorem template?_plain (hmark : isMark c = false) (hreturn : c ≠ '\r')
    (hdollar : c = '$' → cs.head? ≠ some '\x7b') :
    template? (fuel + 1) (c :: cs) =
      (template? fuel cs).map (Prod.map (codeUnits c.toNat ++ ·) id) := by
  simp only [isMark, Bool.or_eq_false_iff, beq_eq_false_iff_ne] at hmark
  rw [template?.eq_def]
  split <;> simp_all

theorem template?_return (h : cs.head? ≠ some '\n') :
    template? (fuel + 1) ('\r' :: cs) =
      (template? fuel cs).map (Prod.map (codeUnits 0xA ++ ·) id) := by
  rw [template?.eq_def]
  split <;> simp_all [eq_comm]

/-- Both signs of a line end are read as one. -/
theorem template?_return_newline (cs : List Char) :
    template? (fuel + 1) ('\r' :: '\n' :: cs) = template? (fuel + 1) ('\n' :: cs) := by
  rw [template?, template?_plain (c := '\n') rfl (by decide) (by simp)]
  rfl

theorem unifyNewlines_cons (h : c ≠ '\r') (cs : List Char) :
    unifyNewlines (c :: cs) = c :: unifyNewlines cs := by
  rw [unifyNewlines.eq_def]
  split <;> simp_all

theorem unifyNewlines_return (h : cs.head? ≠ some '\n') :
    unifyNewlines ('\r' :: cs) = '\n' :: unifyNewlines cs := by
  rw [unifyNewlines]
  rintro tail rfl
  exact h rfl

/-- An escaped text in a literal is read as the text with its line ends as line feeds, and the
reader ends at the backtick behind it. -/
theorem template?_escapeTemplate (cs rest : List Char) (h : (escapeTemplate cs).length < fuel) :
    template? fuel (escapeTemplate cs ++ '\x60' :: rest) =
      some (value (unifyNewlines cs), rest) := by
  induction cs using sign_induction generalizing fuel with
  | nil =>
    obtain ⟨fuel, rfl⟩ := Nat.exists_eq_add_of_lt h
    rfl
  | mark c cs hmark ih =>
    rw [escapeTemplate_of_mark hmark] at h ⊢
    have hreturn : c ≠ '\r' := by
      rintro rfl
      cases hmark
    obtain ⟨fuel, rfl⟩ := Nat.exists_eq_succ_of_ne_zero (Nat.ne_zero_of_lt h)
    rw [List.cons_append, List.cons_append, template?_escaped (.inl hmark),
      ih (by simp at h; omega), unifyNewlines_cons hreturn]
    rfl
  | substitution cs ih =>
    rw [escapeTemplate_substitution] at h ⊢
    obtain ⟨fuel, rfl⟩ := Nat.exists_eq_succ_of_ne_zero (Nat.ne_zero_of_lt h)
    rw [List.cons_append, List.cons_append, template?_escaped (.inr rfl),
      ih (by simp at h; omega), unifyNewlines_cons (by decide)]
    rfl
  | plain c cs hmark hdollar ih =>
    rw [escapeTemplate_of_not_mark hmark hdollar] at h ⊢
    obtain ⟨fuel, rfl⟩ := Nat.exists_eq_succ_of_ne_zero (Nat.ne_zero_of_lt h)
    have hhead {d : Char} (hback : d ≠ '\\') (htick : d ≠ '\x60')
        (hd : (escapeTemplate cs ++ '\x60' :: rest).head? = some d) : cs.head? = some d := by
      refine head?_escapeTemplate hback ?_
      cases hcs : escapeTemplate cs with
      | nil =>
        rw [hcs] at hd
        exact absurd (Option.some.inj hd).symm htick
      | cons e es =>
        rw [hcs] at hd
        exact hd
    have hlength : (escapeTemplate cs).length < fuel := by simpa using h
    by_cases hreturn : c = '\r'
    · subst hreturn
      by_cases hnewline : cs.head? = some '\n'
      · -- the line feed is read already
        obtain ⟨cs, rfl⟩ := List.head?_eq_some_iff.mp hnewline
        have hnext := @ih (fuel + 1) (by omega)
        rw [escapeTemplate_of_not_mark rfl (by simp)] at hnext ⊢
        rw [List.cons_append, List.cons_append, template?_return_newline]
        exact hnext
      · rw [List.cons_append, template?_return fun hd ↦ hnewline (hhead (by decide) (by decide) hd),
          ih hlength, unifyNewlines_return hnewline]
        rfl
    · rw [List.cons_append, template?_plain hmark hreturn fun hc hd ↦ hdollar hc
        (hhead (by decide) (by decide) hd), ih hlength, unifyNewlines_cons hreturn]
      rfl

end Reading

/-! ## The literal of a script -/

/-- What a script has before the literal of its stylesheet. -/
def beforeStyle (component script : String) : String :=
  script ++ "\n\n// Embedded CSS\n(() => \x7b\n"
    ++ "    const styleId = `" ++ styleElementId component ++ "`;\n"
    ++ "    if (document.getElementById(styleId)) return;\n"
    ++ "    const style = document.createElement('style');\n"
    ++ "    style.id = styleId;\n"
    ++ "    style.textContent = "

/-- What a script has behind the literal of its stylesheet. -/
def behindStyle : String :=
  ";\n    (document.head || document.body).appendChild(style);\n\x7d)();\n"

theorem embed_eq (component script style : String) :
    embed component script style =
      beforeStyle component script ++ templateLiteral style ++ behindStyle := by
  simp only [embed, beforeStyle, behindStyle, String.append_assoc]
  rfl

/-- The stylesheet of a component stands in its script between backticks, as three replacements
leave it.  Nothing in between ends the literal or starts a substitution, and the literal has the
stylesheet as its value, with every line end as a line feed. -/
theorem embedded_style_survives (component script style : String) : ∃ inner,
    (embed component script style).toList =
      (beforeStyle component script).toList ++ '\x60' :: inner ++
        '\x60' :: behindStyle.toList ∧
    inner = replaceAll ['$', '\x7b'] ['\\', '$', '\x7b'] 0
      (replaceAll ['\x60'] ['\\', '\x60'] 0
        (replaceAll ['\\'] ['\\', '\\'] 0 style.toList)) ∧
    Inert inner ∧
    literal? ('\x60' :: inner ++ '\x60' :: behindStyle.toList) =
      some (value (unify style).toList, behindStyle.toList) := by
  refine ⟨escapeTemplate style.toList, ?_, escapeTemplate_eq_replaceAll _,
    inert_escapeTemplate _, ?_⟩
  · rw [embed_eq, templateLiteral]
    simp
  · rw [List.cons_append, literal?, unify, String.toList_ofList]
    exact template?_escapeTemplate _ _ (by simp)

end IceCube.Script

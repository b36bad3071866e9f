import IceCube.Proofs.Script.Template

/-!
# What stands behind the last statement of a script

A script is read sign by sign: comments and blanks are told from code, and code from quotes, template
literals and regular expressions, so that it is known which sign outside comments and blanks is the
last one.  Between a script and the block that brings its stylesheet there is nothing but line ends
and a comment, so the parenthesis of the block comes right behind that sign.  Where an operand ends,
a parenthesis goes on with it.
-/

namespace IceCube.Script

/-- What a reader of a script knows of its language beyond single signs: the characters of
identifiers, and whether a slash behind given signs, the last of them first, starts a regular
expression. -/
structure Grammar where
  isIdentifier : Char → Bool
  startsPattern : List Char → Bool

/-- What a place in a script is inside of.  At `slash`, `asterisk`, `dollar` and the escapes the next
sign decides. -/
inductive Mode where
  | code
  | slash
  | lineComment
  | blockComment
  | asterisk
  | quotes (q : Char)
  | quotesEscape (q : Char)
  | template
  | templateEscape
  | dollar
  | pattern (inClass : Bool)
  | patternEscape (inClass : Bool)
deriving DecidableEq

/-- A reader of a script: what it is inside of, how many braces are open in each substitution around
it, the innermost first, and the signs outside comments and blanks, the last first. -/
structure Reader where
  mode : Mode
  depths : List ℕ
  signs : List Char

/-- The blanks of scripts. -/
def isSpace (c : Char) : Bool :=
  isLineEnd c || c == '\t' || c == '\x0b' || c == '\x0c' || c == ' ' || c == '\u00a0' ||
    c == '\u1680' || (0x2000 ≤ c.toNat && c.toNat ≤ 0x200a) || c == '\u202f' || c == '\u205f' ||
    c == '\u3000' || c == '\ufeff'

namespace Reader

variable (g : Grammar) (r : Reader) (c : Char)

/-- A sign is read, and the reader is inside of something. -/
def push (mode : Mode) : Reader := { r with mode, signs := c :: r.signs }

/-- A closing brace, which can be the end of a substitution. -/
def close : Reader :=
  match r.depths with
  | 0 :: ds => { r.push '\x7d' .template with depths := ds }
  | (d + 1) :: ds => { r.push '\x7d' .code with depths := d :: ds }
  | [] => r.push '\x7d' .code

/-- A sign of code. -/
def code : Reader :=
  match c with
  | '/' => { r with mode := .slash }
  | '"' | '\'' => r.push c (.quotes c)
  | '\x60' => r.push c .template
  | '\x7b' => { r.push c .code with depths := r.depths.modifyHead (· + 1) }
  | '\x7d' => r.close
  | _ => if isSpace c then { r with mode := .code } else r.push c .code

/-- A sign of a regular expression, which cannot hold a line end. -/
def pattern (inClass : Bool) : Reader :=
  if isLineEnd c then { r with mode := .code }
  else match c with
    | '\\' => r.push c (.patternEscape inClass)
    | '[' => r.push c (.pattern true)
    | ']' => r.push c (.pattern false)
    | '/' => r.push c (if inClass then .pattern inClass else .code)
    | _ => r.push c (.pattern inClass)

/-- A sign of a template literal. -/
def template : Reader :=
  match c with
  | '\x60' => r.push c .code
  | '\\' => r.push c .templateEscape
  | '$' => r.push c .dollar
  | _ => r.push c .template

/-- The next sign. -/
def step : Reader :=
  match r.mode with
  | .code => r.code c
  | .slash =>
    if c == '/' then { r with mode := .lineComment }
    else if c == '*' then { r with mode := .blockComment }
    else if g.startsPattern r.signs then (r.push '/' .code).pattern c false
    else (r.push '/' .code).code c
  | .lineComment => if isLineEnd c then { r with mode := .code } else r
  | .blockComment => if c == '*' then { r with mode := .asterisk } else r
  | .asterisk =>
    if c == '/' then { r with mode := .code }
    else if c == '*' then r
    else { r with mode := .blockComment }
  | .quotes q =>
    r.push c (if c == q then .code else if c == '\\' then .quotesEscape q else .quotes q)
  | .quotesEscape q => r.push c (.quotes q)
  | .template => r.template c
  | .templateEscape => r.push c .template
  | .dollar =>
    if c == '\x7b' then { r.push c .code with depths := 0 :: r.depths } else r.template c
  | .pattern inClass => r.pattern c inClass
  | .patternEscape inClass => r.push c (.pattern inClass)

/-- The signs outside comments and blanks, the last first, if the text ends here. -/
def all : List Char :=
  match r.mode with
  | .slash => '/' :: r.signs
  | _ => r.signs

end Reader

variable (g : Grammar)

/-- A reader behind a script. -/
def read (script : List Char) : Reader := script.foldl (Reader.step g) ⟨.code, [], []⟩

/-- The signs of a script outside comments and blanks. -/
def signs (script : List Char) : List Char := (read g script).all.reverse

/-- A sign is the last one of an operand, so that a parenthesis behind it goes on with the
operand. -/
def EndsOperand (c : Char) : Prop :=
  g.isIdentifier c ∨ c.isDigit ∨ c ∈ ['"', '\'', '\x60', ')', ']']

/-- A script ends outside quotes, literals, regular expressions and block comments. -/
def Finished (script : List Char) : Prop :=
  (read g script).mode ∈ [.code, .slash, .lineComment]

/-- What stands between a script and the block that brings its stylesheet. -/
def gap : List Char := "\n\n// Embedded CSS\n".toList

/-- If the last sign of a script ends an operand, a semicolon stands between it and the block. -/
def Separated (script : List Char) : Prop :=
  ∀ c ∈ (signs g script).getLast?, EndsOperand g c →
    ∃ between, signs g (script ++ gap) = signs g script ++ between ∧ ';' ∈ between

/-! ## Signs that are read -/

section Signs

variable {g} {c : Char}

/-- Nothing but signs of a kind has been read since. -/
def Adds (kind : Char → Prop) (before after : List Char) : Prop :=
  ∃ new, after = new ++ before ∧ ∀ x ∈ new, kind x

namespace Adds

variable {kind kind' : Char → Prop} {before between after : List Char}

theorem refl (kind : Char → Prop) (cs : List Char) : Adds kind cs cs := ⟨[], rfl, nofun⟩

theorem one (c : Char) (cs : List Char) : Adds (· = c) cs (c :: cs) :=
  ⟨[c], rfl, fun _ hx ↦ List.mem_singleton.mp hx⟩

theorem trans (h : Adds kind before between) (h' : Adds kind between after) :
    Adds kind before after := by
  obtain ⟨new, rfl, hnew⟩ := h
  obtain ⟨new', rfl, hnew'⟩ := h'
  refine ⟨new' ++ new, (List.append_assoc ..).symm, ?_⟩
  exact List.forall_mem_append.mpr ⟨hnew', hnew⟩

theorem mono (h : Adds kind before after) (hkind : ∀ x, kind x → kind' x) :
    Adds kind' before after := by
  obtain ⟨new, rfl, hnew⟩ := h
  exact ⟨new, rfl, fun x hx ↦ hkind x (hnew x hx)⟩

end Adds

namespace Reader

variable (r : Reader)

theorem adds_close : Adds (· = '\x7d') r.signs r.close.signs := by
  unfold close
  split <;> exact .one _ _

theorem adds_code (c : Char) : Adds (· = c) r.signs (r.code c).signs := by
  unfold code
  split
  · exact .refl _ _
  · exact .one _ _
  · exact .one _ _
  · exact .one _ _
  · exact .one _ _
  · exact adds_close r
  · split
    · exact .refl _ _
    · exact .one _ _

theorem adds_pattern (c : Char) (inClass : Bool) :
    Adds (· = c) r.signs (r.pattern c inClass).signs := by
  unfold pattern
  split
  · exact .refl _ _
  · split <;> exact .one _ _

theorem adds_template (c : Char) : Adds (· = c) r.signs (r.template c).signs := by
  unfold template
  split <;> exact .one _ _

theorem all_of_ne (h : r.mode ≠ .slash) : r.all = r.signs := by
  unfold all
  split
  · contradiction
  · rfl

/-- A sign adds itself or nothing unless it decides about a slash. -/
theorem adds_step_of_ne (hmode : r.mode ≠ .slash) (c : Char) :
    Adds (· = c) r.signs (r.step g c).signs := by
  unfold step
  split
  · exact adds_code r c
  · contradiction
  · split <;> exact .refl _ _
  · split <;> exact .refl _ _
  · split
    · exact .refl _ _
    · split <;> exact .refl _ _
  · exact .one _ _
  · exact .one _ _
  · exact adds_template r c
  · exact .one _ _
  · split
    · exact .one _ _
    · exact adds_template r c
  · exact adds_pattern r c _
  · exact .one _ _

/-- A slash is a sign of its own as soon as no comment starts with it. -/
theorem adds_step_slash (hmode : r.mode = .slash) (hslash : c ≠ '/') (hstar : c ≠ '*') :
    Adds (· = c) ('/' :: r.signs) (r.step g c).signs := by
  unfold step
  rw [hmode]
  dsimp only
  rw [if_neg (by simpa using hslash), if_neg (by simpa using hstar)]
  split
  · exact adds_pattern (r.push '/' .code) c false
  · exact adds_code (r.push '/' .code) c

theorem adds_step_all (hslash : c ≠ '/') (hstar : c ≠ '*') :
    Adds (· = c) r.all (r.step g c).signs := by
  by_cases hmode : r.mode = .slash
  · rw [all, hmode]
    exact adds_step_slash r hmode hslash hstar
  · rw [all_of_ne r hmode]
    exact adds_step_of_ne r hmode c

theorem adds_step (c : Char) : Adds (· ∈ ['/', c]) r.signs (r.step g c).signs := by
  by_cases hmode : r.mode = .slash
  · by_cases hslash : c = '/'
    · subst hslash
      rw [step, hmode]
      exact .refl _ _
    by_cases hstar : c = '*'
    · subst hstar
      rw [step, hmode]
      exact .refl _ _
    have hpushed : Adds (· ∈ ['/', c]) r.signs ('/' :: r.signs) :=
      (Adds.one '/' r.signs).mono (by simp)
    exact hpushed.trans ((adds_step_slash r hmode hslash hstar).mono (by simp))
  · exact (adds_step_of_ne r hmode c).mono (by simp)

theorem adds_foldl (cs : List Char) :
    Adds (· ∈ '/' :: cs) r.signs (cs.foldl (step g) r).signs := by
  induction cs generalizing r with
  | nil => exact .refl _ _
  | cons c cs ih =>
    exact ((adds_step r c).mono (by grind)).trans ((ih (r.step g c)).mono (by grind))

theorem adds_all : Adds (· = '/') r.signs r.all := by
  unfold all
  split
  · exact .one _ _
  · exact .refl _ _

/-- Signs that neither start nor go on with a comment are read behind all that was read before. -/
theorem adds_foldl_all (hslash : c ≠ '/') (hstar : c ≠ '*') (cs : List Char) :
    Adds (· ∈ '/' :: c :: cs) r.all ((c :: cs).foldl (step g) r).all := by
  rw [List.foldl_cons]
  have hfirst : Adds (· ∈ '/' :: c :: cs) r.all (r.step g c).signs :=
    (adds_step_all r hslash hstar).mono (by grind)
  have hrest : Adds (· ∈ '/' :: c :: cs) (r.step g c).signs (cs.foldl (step g) (r.step g c)).signs :=
    (adds_foldl _ cs).mono (by grind)
  exact (hfirst.trans hrest).trans ((adds_all _).mono (by grind))

/-- Behind a script that is finished a line end leaves the reader in code. -/
theorem step_newline (h : r.mode ∈ [.code, .slash, .lineComment]) :
    r.step g '\n' = ⟨.code, r.depths, r.all⟩ := by
  obtain ⟨mode, depths, signs⟩ := r
  simp only [List.mem_cons, List.not_mem_nil, or_false] at h
  rcases h with rfl | rfl | rfl
  · rfl
  · rw [step]
    dsimp only
    rw [if_neg (by decide), if_neg (by decide)]
    split <;> rfl
  · rfl

/-- A comment goes on to the end of its line. -/
theorem foldl_lineComment {cs : List Char} (h : ∀ c ∈ cs, isLineEnd c = false) (depths : List ℕ)
    (signs : List Char) :
    cs.foldl (step g) ⟨.lineComment, depths, signs⟩ = ⟨.lineComment, depths, signs⟩ := by
  induction cs with
  | nil => rfl
  | cons c cs ih =>
    obtain ⟨hc, hcs⟩ := List.forall_mem_cons.mp h
    have hstep : step g ⟨.lineComment, depths, signs⟩ c = ⟨.lineComment, depths, signs⟩ := by
      rw [step]
      dsimp only
      rw [hc]
      rfl
    rw [List.foldl_cons, hstep, ih hcs]

theorem foldl_gap (h : r.mode ∈ [.code, .slash, .lineComment]) :
    gap.foldl (step g) r = ⟨.code, r.depths, r.all⟩ := by
  have hnone : (" Embedded CSS".toList.any isLineEnd) = false := by decide
  have hcomment (c) (hc : c ∈ " Embedded CSS".toList) : isLineEnd c = false :=
    eq_false_of_ne_true (List.any_eq_false.mp hnone c hc)
  calc
    gap.foldl (step g) r
      = ['\n'].foldl (step g) (" Embedded CSS".toList.foldl (step g)
          (['\n', '/', '/'].foldl (step g) (r.step g '\n'))) := rfl
    _ = ['\n'].foldl (step g) (" Embedded CSS".toList.foldl (step g)
          ⟨.lineComment, r.depths, r.all⟩) := by rw [step_newline r h]; rfl
    _ = ⟨.code, r.depths, r.all⟩ := by rw [foldl_lineComment hcomment]; rfl

end Reader

/-! ## Signs behind a script -/

theorem read_append (cs cs' : List Char) :
    read g (cs ++ cs') = cs'.foldl (Reader.step g) (read g cs) := List.foldl_append

/-- No semicolon comes between the signs of a script and the block. -/
theorem semicolon_not_mem {script between : List Char}
    (h : signs g (script ++ gap) = signs g script ++ between) : ';' ∉ between := by
  obtain ⟨new, hall, hnew⟩ := (read g script).adds_foldl_all (g := g) (c := '\n') (by decide)
    (by decide) gap.tail
  have hsigns : signs g (script ++ gap) = signs g script ++ new.reverse := by
    rw [signs, read_append, show gap = '\n' :: gap.tail from rfl, hall, List.reverse_append]
    rfl
  rw [hsigns, List.append_cancel_left_eq] at h
  subst h
  intro hsemicolon
  have hmem := hnew ';' (List.mem_reverse.mp hsemicolon)
  revert hmem
  decide

/-- The parenthesis of the block is the next sign behind a script that is finished. -/
theorem signs_parenthesis {script : List Char} (h : Finished g script) :
    signs g (script ++ gap ++ ['(']) = signs g script ++ ['('] := by
  have hread : read g (script ++ gap ++ ['(']) =
      ⟨.code, (read g script).depths, '(' :: (read g script).all⟩ := by
    rw [read_append, read_append, Reader.foldl_gap _ h]
    rfl
  rw [signs, hread, signs]
  simp [Reader.all]

end Signs

/-! ## Operands that go on -/

/-- The block of a script, from its parenthesis on. -/
theorem exists_block (component script style : String) :
    ∃ block, (embed component script style).toList = script.toList ++ gap ++ '(' :: block := by
  have hstart : "\n\n// Embedded CSS\n(() => \x7b\n".toList =
      gap ++ '(' :: "() => \x7b\n".toList := rfl
  simp only [embed, String.toList_append, hstart, List.append_assoc, List.cons_append]
  exact ⟨_, rfl⟩

/-- The block of a stylesheet is a statement of its own, as far as semicolons make it one, exactly
behind scripts whose last sign does not end an operand.  Behind any script that is finished, its
parenthesis comes right after that sign. -/
theorem injection_separated_iff (component script style : String) :
    (∃ block, (embed component script style).toList = script.toList ++ gap ++ '(' :: block) ∧
    (Finished g script.toList →
      signs g (script.toList ++ gap ++ ['(']) = signs g script.toList ++ ['(']) ∧
    (Separated g script.toList ↔
      ∀ c ∈ (signs g script.toList).getLast?, ¬ EndsOperand g c) := by
  refine ⟨exists_block component script style, signs_parenthesis, ?_⟩
  constructor
  · intro h c hc hends
    obtain ⟨between, hbetween, hsemicolon⟩ := h c hc hends
    exact semicolon_not_mem hbetween hsemicolon
  · intro h c hc hends
    exact absurd hends (h c hc)

/-- The identifiers of scripts without signs outside ASCII, and no regular expressions. -/
def plain : Grammar where
  isIdentifier c := c.isAlphanum || c == '_' || c == '$'
  startsPattern _ := false

theorem logged_call_goes_on :
    (signs plain "console.log(1)".toList).getLast? = some ')' ∧ EndsOperand plain ')' ∧
    Finished plain "console.log(1)".toList ∧
    (∃ block, (embed "Foo" "console.log(1)" "a\x7b\x7d").toList =
      "console.log(1)".toList ++ gap ++ '(' :: block) ∧
    ¬ Separated plain "console.log(1)".toList := by
  have hlast : (signs plain "console.log(1)".toList).getLast? = some ')' := by decide
  have hends : EndsOperand plain ')' := by simp [EndsOperand]
  refine ⟨hlast, hends, by simp only [Finished]; decide, exists_block .., ?_⟩
  intro h
  obtain ⟨between, hbetween, hsemicolon⟩ := h ')' hlast hends
  exact semicolon_not_mem hbetween hsemicolon

end IceCube.Script

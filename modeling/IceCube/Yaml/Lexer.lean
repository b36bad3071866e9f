import IceCube.Table
import IceCube.Yaml.Token

/-!
# Lexing YAML

The lexer keeps the indentations of the blocks that are open.  Whether a scalar is a key shows only
at the colon after it, so each place where a key may stand is remembered, and the token that
announces the key is put there afterwards.
-/

namespace IceCube.Yaml

/-- A place where a key may stand. -/
structure KeyPlace where
  /-- How many tokens come before it. -/
  tokens : Nat
  /-- Whether nothing but a key can stand there. -/
  required : Bool
  /-- How many characters come before it. -/
  offset : Nat
  mark : Mark
deriving Repr

/-- What is left of the text, and what has been seen of it. -/
structure Lexer where
  rest : List Char
  offset : Nat
  line : Nat
  column : Nat
  /-- How many brackets are open. -/
  depth : Nat
  /-- The column of the innermost block. -/
  indent : Int
  /-- The columns of the blocks around it. -/
  outer : List Int
  /-- Whether a key may stand here. -/
  keyAllowed : Bool
  /-- The places of possible keys, for each number of open brackets. -/
  places : Table Nat KeyPlace
  tokens : List Token
  finished : Bool

namespace Lexer

/-- A lexer at the start of a text. -/
def start (cs : List Char) : Lexer where
  rest := cs
  offset := 0
  line := 0
  column := 0
  depth := 0
  indent := -1
  outer := []
  keyAllowed := true
  places := []
  tokens := []
  finished := false

/-- The present place. -/
def mark (l : Lexer) : Mark := ⟨l.line, l.column⟩

/-- The character `n` places further on, a null character beyond the end. -/
def peek (l : Lexer) (n : Nat) : Char := l.rest.getD n '\x00'

/-- A line end or separator. -/
def isBreak (c : Char) : Bool :=
  c == '\n' || c == '\r' || c == '\x85' || c == '\u2028' || c == '\u2029'

/-- A line end, or the end of the text. -/
def isBreakOrEnd (c : Char) : Bool := c == '\x00' || isBreak c

/-- A blank, a line end or the end of the text. -/
def isGap (c : Char) : Bool := isBreakOrEnd c || c == ' ' || c == '\t'

/-- The lexer after one character. -/
def step (l : Lexer) : Lexer :=
  match l.rest with
  | [] => l
  | c :: rest =>
    let l := { l with rest := rest, offset := l.offset + 1 }
    if c == '\r' && rest.head? == some '\n' then { l with column := l.column + 1 }
    else if isBreak c then { l with line := l.line + 1, column := 0 }
    else if c == '\ufeff' then l
    else { l with column := l.column + 1 }

/-- The lexer after a number of characters. -/
def forward (l : Lexer) : Nat → Lexer
  | 0 => l
  | n + 1 => l.step.forward n

/-- The lexer with one more token. -/
def push (l : Lexer) (kind : TokenKind) (mark : Mark) : Lexer :=
  { l with tokens := l.tokens ++ [⟨kind, mark⟩] }

/-- The lexer with a token put before those from a given number on. -/
def insertAt (l : Lexer) (n : Nat) (kind : TokenKind) (mark : Mark) : Lexer :=
  { l with tokens := l.tokens.take n ++ ⟨kind, mark⟩ :: l.tokens.drop n }

/-- A sign of a given length as a token. -/
def pushSign (l : Lexer) (kind : TokenKind) (length : Nat) : Lexer :=
  (l.push kind l.mark).forward length

/-- A problem at the present place. -/
def fail {α : Type} (l : Lexer) (text : String) : Except Error α := .error (.problem text l.mark)

/-! ## Keys and indentation -/

/-- The problem of a place where a key is missing. -/
def keyMissing : String := "could not find expected ':'"

/-- The lexer without the places of keys that can no longer become keys: a key is on one line and
has at most 1024 characters. -/
def dropStaleKeys (l : Lexer) : Except Error Lexer :=
  let stale (p : KeyPlace) : Bool := p.mark.line != l.line || 1024 < l.offset - p.offset
  if l.places.any fun e ↦ stale e.2 && e.2.required then l.fail keyMissing
  else .ok { l with places := l.places.filter fun e ↦ !stale e.2 }

/-- The lexer without the possible key inside the present brackets. -/
def dropKey (l : Lexer) : Except Error Lexer :=
  match Table.get? l.places l.depth with
  | some p =>
    if p.required then l.fail keyMissing
    else .ok { l with places := Table.erase l.places l.depth }
  | none => .ok l

/-- The lexer with the present place as that of a possible key. -/
def saveKey (l : Lexer) : Except Error Lexer := do
  let required := l.depth == 0 && l.indent == (l.column : Int)
  if l.keyAllowed then
    let l ← l.dropKey
    let place : KeyPlace := ⟨l.tokens.length, required, l.offset, l.mark⟩
    return { l with places := Table.insert l.places l.depth place }
  else return l

/-- The lexer after the ends of all blocks that are indented further than a column. -/
def unwind (column : Int) : (outer : List Int) → Lexer → Lexer
  | [], l => l
  | indent :: outer, l =>
    if l.depth == 0 && column < l.indent then
      unwind column outer ({ l with indent := indent, outer := outer }.push .blockEnd l.mark)
    else l

/-- The lexer in a block at a column, and whether that block is a new one. -/
def openBlock (l : Lexer) (column : Nat) : Lexer × Bool :=
  if l.indent < (column : Int) then
    ({ l with indent := column, outer := l.indent :: l.outer }, true)
  else (l, false)

/-! ## Spaces and line ends -/

/-- What a line end becomes in a scalar, and the lexer after it. -/
def lineBreak (l : Lexer) : List Char × Lexer :=
  if l.peek 0 == '\r' && l.peek 1 == '\n' then (['\n'], l.forward 2)
  else if l.peek 0 == '\u2028' || l.peek 0 == '\u2029' then ([l.peek 0], l.step)
  else if isBreak (l.peek 0) then (['\n'], l.step)
  else ([], l)

/-- The lexer at the next token: after spaces, comments and line ends. -/
def skipToToken : (fuel : Nat) → Lexer → Lexer
  | 0, l => l
  | fuel + 1, l =>
    let l := l.forward (l.rest.takeWhile (· == ' ')).length
    let l := if l.peek 0 == '#' then
        l.forward (l.rest.takeWhile fun c ↦ !isBreakOrEnd c).length
      else l
    match l.lineBreak with
    | ([], l) => l
    | (_, l) => skipToToken fuel (if l.depth == 0 then { l with keyAllowed := true } else l)

/-- Whether a document sign stands at the start of the rest. -/
def atDocumentSign (l : Lexer) : Bool :=
  let sign := l.rest.take 3
  (sign == ['-', '-', '-'] || sign == ['.', '.', '.']) && isGap (l.peek 3)

/-! ## Plain scalars -/

/-- The characters of a plain scalar up to the next blank. -/
def plainRun (inFlow : Bool) : List Char → List Char
  | [] => []
  | c :: cs =>
    let next := cs.headD '\x00'
    let ends := isGap c
      || (c == ':' && (isGap next || (inFlow && [',', '[', ']', '\x7b', '\x7d'].contains next)))
      || (inFlow && [',', '?', '[', ']', '\x7b', '\x7d'].contains c)
    if ends then [] else c :: plainRun inFlow cs

/-- The further line ends between two lines of a plain scalar.  A document sign ends the scalar. -/
def plainBreaks : (fuel : Nat) → List Char → Lexer → Option (List Char) × Lexer
  | 0, read, l => (some read, l)
  | fuel + 1, read, l =>
    if l.peek 0 == ' ' then plainBreaks fuel read l.step
    else if isBreak (l.peek 0) then
      let (text, l) := l.lineBreak
      if l.atDocumentSign then (none, l) else plainBreaks fuel (read ++ text) l
    else (some read, l)

/-- What the blanks after a part of a plain scalar stand for inside it, none where it ends. -/
def plainSpaces (l : Lexer) : List Char × Lexer :=
  let spaces := l.rest.takeWhile (· == ' ')
  let l := l.forward spaces.length
  if isBreak (l.peek 0) then
    let (text, l) := l.lineBreak
    let l := { l with keyAllowed := true }
    if l.atDocumentSign then ([], l)
    else match plainBreaks (l.rest.length + 1) [] l with
      | (none, l) => ([], l)
      | (some breaks, l) =>
        let folded := if text != ['\n'] then text else if breaks.isEmpty then [' '] else []
        (folded ++ breaks, l)
  else (spaces, l)

/-- The rest of a plain scalar, after `read` and the blanks `spaces`. -/
def plainBody (indent : Int) : (fuel : Nat) → (read spaces : List Char) → Lexer → List Char × Lexer
  | 0, read, _, l => (read, l)
  | fuel + 1, read, spaces, l =>
    let run := if l.peek 0 == '#' then [] else plainRun (l.depth != 0) l.rest
    if run.isEmpty then (read, l)
    else
      let l := { l with keyAllowed := false }.forward run.length
      let read := read ++ spaces ++ run
      let (spaces, l) := l.plainSpaces
      if spaces.isEmpty || l.peek 0 == '#' || (l.depth == 0 && (l.column : Int) < indent) then
        (read, l)
      else plainBody indent fuel read spaces l

/-- A plain scalar. -/
def plain (l : Lexer) : Lexer :=
  let (text, after) := plainBody (l.indent + 1) (l.rest.length + 1) [] [] l
  after.push (.scalar (String.ofList text) false) l.mark

/-! ## Quoted scalars -/

/-- The characters that letters after a backslash stand for. -/
def escapes : List (Char × Char) :=
  [('0', '\x00'), ('a', '\x07'), ('b', '\x08'), ('t', '\t'), ('\t', '\t'), ('n', '\n'),
   ('v', '\x0b'), ('f', '\x0c'), ('r', '\r'), ('e', '\x1b'), (' ', ' '), ('"', '"'), ('\\', '\\'),
   ('/', '/'), ('N', '\x85'), ('_', '\xa0'), ('L', '\u2028'), ('P', '\u2029')]

/-- The numbers of digits after letters that announce the number of a character. -/
def escapeLengths : List (Char × Nat) := [('x', 2), ('u', 4), ('U', 8)]

/-- The number that hexadecimal digits write. -/
def hexNumber? (cs : List Char) : Option Nat :=
  cs.foldlM (fun n c ↦ (Text.hexValue? c).map fun d ↦ 16 * n + d) 0

/-- The line ends and the blanks around them inside a quoted scalar. -/
def quotedBreaks : (fuel : Nat) → List Char → Lexer → Except Error (List Char × Lexer)
  | 0, read, l => .ok (read, l)
  | fuel + 1, read, l =>
    if l.atDocumentSign then l.fail "found unexpected document separator"
    else
      let l := l.forward (l.rest.takeWhile fun c ↦ c == ' ' || c == '\t').length
      if isBreak (l.peek 0) then
        let (text, l) := l.lineBreak
        quotedBreaks fuel (read ++ text) l
      else .ok (read, l)

/-- The blanks inside a quoted scalar. -/
def quotedSpaces (l : Lexer) : Except Error (List Char × Lexer) :=
  let blanks := l.rest.takeWhile fun c ↦ c == ' ' || c == '\t'
  let l := l.forward blanks.length
  if l.rest.isEmpty then l.fail "found unexpected end of stream"
  else if isBreak (l.peek 0) then do
    let (text, l) := l.lineBreak
    let (breaks, l) ← quotedBreaks (l.rest.length + 1) [] l
    let folded := if text != ['\n'] then text else if breaks.isEmpty then [' '] else []
    return (folded ++ breaks, l)
  else .ok (blanks, l)

/-- The number of a character that there is not. -/
def noCharacter : Error := .value "ValueError" "chr() arg not in range(0x110000)"

/-- What an escape stands for.  The lexer is at its backslash. -/
def escape (l : Lexer) : Except Error (List Char × Lexer) :=
  let l := l.step
  let c := l.peek 0
  match escapes.lookup c, escapeLengths.lookup c with
  | some d, _ => .ok ([d], l.step)
  | none, some length =>
    let l := l.step
    let digits := l.rest.take length
    match hexNumber? digits, decide (digits.length = length) with
    | some n, true =>
      if n < 0x110000 then .ok ([Char.ofNat n], l.forward length) else .error noCharacter
    | _, _ =>
      let bad := (digits.find? fun c ↦ (Text.hexValue? c).isNone).getD '\x00'
      l.fail ("expected escape sequence of " ++ toString length
        ++ " hexadecimal numbers, but found " ++ Text.quoted (String.ofList [bad]))
  | none, none =>
    if isBreak c then
      let (_, l) := l.lineBreak
      quotedBreaks (l.rest.length + 1) [] l
    else l.fail ("found unknown escape character " ++ Text.quoted (String.ofList [c]))

/-- The rest of a quoted scalar, after `read`. -/
def quotedBody (quote : Char) : (fuel : Nat) → (read : List Char) → Lexer →
    Except Error (List Char × Lexer)
  | 0, _, l => l.fail "found unexpected end of stream"
  | fuel + 1, read, l =>
    let c := l.peek 0
    if quote == '\'' && c == '\'' && l.peek 1 == '\'' then
      quotedBody quote fuel (read ++ ['\'']) (l.forward 2)
    else if c == quote then .ok (read, l.step)
    else if quote == '"' && c == '\\' then do
      let (text, l) ← l.escape
      quotedBody quote fuel (read ++ text) l
    else if isGap c then do
      let (text, l) ← l.quotedSpaces
      quotedBody quote fuel (read ++ text) l
    else quotedBody quote fuel (read ++ [c]) l.step

/-- A quoted scalar. -/
def quotedScalar (l : Lexer) : Except Error Lexer := do
  let (text, after) ← quotedBody (l.peek 0) (l.rest.length + 1) [] l.step
  return after.push (.scalar (String.ofList text) true) l.mark

/-! ## Tokens -/

/-- A character of a name. -/
def isNameChar (c : Char) : Bool := c.isAlphanum || c == '-' || c == '_'

/-- The name after a sign, which must not be empty. -/
def signName (l : Lexer) (follows : Char → Bool) : Except Error (String × Lexer) :=
  let l := l.step
  let name := l.rest.takeWhile isNameChar
  let after := l.forward name.length
  if name.isEmpty || !follows (after.peek 0) then
    after.fail ("expected alphabetic or numeric character, but found "
      ++ Text.quoted (String.ofList [after.peek 0]))
  else .ok (String.ofList name, after)

/-- The characters that may come after the name of an alias. -/
def followsAlias (c : Char) : Bool :=
  isGap c || ['?', ':', ',', ']', '\x7d', '%', '@', '\x60'].contains c

/-- Whether a plain scalar starts here. -/
def startsPlain (l : Lexer) : Bool :=
  let c := l.peek 0
  let solid := !isGap (l.peek 1)
  let signs := ['-', '?', ':', ',', '[', ']', '\x7b', '\x7d', '#', '&', '*', '!', '|', '>', '\'',
    '"', '%', '@', '\x60']
  !(isGap c || signs.contains c)
    || (solid && (c == '-' || (l.depth == 0 && (c == '?' || c == ':'))))

/-- An opening bracket or brace. -/
def openFlow (l : Lexer) (kind : TokenKind) : Except Error Lexer := do
  let l ← l.saveKey
  return { l with depth := l.depth + 1, keyAllowed := true }.pushSign kind 1

/-- A closing bracket or brace. -/
def closeFlow (l : Lexer) (kind : TokenKind) : Except Error Lexer := do
  let l ← l.dropKey
  return { l with depth := l.depth - 1, keyAllowed := false }.pushSign kind 1

/-- A sign between two documents, or a line about the document. -/
def documentSign (l : Lexer) (kind : TokenKind) : Except Error Lexer := do
  let l ← (unwind (-1) l.outer l).dropKey
  let l := { l with keyAllowed := false }
  match kind with
  | .directive =>
    let (_, after) ← l.signName fun c ↦ isBreakOrEnd c || c == ' '
    let after := after.forward (after.rest.takeWhile fun c ↦ !isBreakOrEnd c).length
    return after.push kind l.mark
  | _ => return l.pushSign kind 3

/-- The sign of an entry of a block sequence. -/
def blockEntry (l : Lexer) : Except Error Lexer := do
  let l ← if l.depth == 0 then
      if l.keyAllowed then
        let (l, isNew) := l.openBlock l.column
        pure (if isNew then l.push .sequenceStart l.mark else l)
      else l.fail "sequence entries are not allowed here"
    else pure l
  let l ← { l with keyAllowed := true }.dropKey
  return l.pushSign .entry 1

/-- The sign that announces a key. -/
def keySign (l : Lexer) : Except Error Lexer := do
  let l ← if l.depth == 0 then
      if l.keyAllowed then
        let (l, isNew) := l.openBlock l.column
        pure (if isNew then l.push .mappingStart l.mark else l)
      else l.fail "mapping keys are not allowed here"
    else pure l
  let l ← { l with keyAllowed := l.depth == 0 }.dropKey
  return l.pushSign .key 1

/-- The sign between a key and its value. -/
def valueSign (l : Lexer) : Except Error Lexer := do
  match Table.get? l.places l.depth with
  | some place =>
    let l := { l with places := Table.erase l.places l.depth, keyAllowed := false }
    let l := l.insertAt place.tokens .key place.mark
    if l.depth == 0 then
      let (l, isNew) := l.openBlock place.mark.column
      let l := if isNew then l.insertAt place.tokens .mappingStart place.mark else l
      return l.pushSign .value 1
    else return l.pushSign .value 1
  | none =>
    let l ← if l.depth == 0 then
        if l.keyAllowed then
          let (l, isNew) := l.openBlock l.column
          pure (if isNew then l.push .mappingStart l.mark else l)
        else l.fail "mapping values are not allowed here"
      else pure l
    let l ← { l with keyAllowed := l.depth == 0 }.dropKey
    return l.pushSign .value 1

/-- The end of the text. -/
def finish (l : Lexer) : Except Error Lexer := do
  let l ← (unwind (-1) l.outer l).dropKey
  return { l with keyAllowed := false, places := [], finished := true }.push .streamEnd l.mark

/-- The lexer after the next token. -/
def next (l : Lexer) : Except Error Lexer := do
  let l := if l.offset == 0 && l.peek 0 == '\ufeff' then l.step else l
  let l := skipToToken (l.rest.length + 1) l
  let l ← l.dropStaleKeys
  let l := unwind l.column l.outer l
  let c := l.peek 0
  let lineStart := l.column == 0
  if l.rest.isEmpty then l.finish
  else if lineStart && c == '%' then l.documentSign .directive
  else if lineStart && c == '-' && l.atDocumentSign then l.documentSign .documentStart
  else if lineStart && c == '.' && l.atDocumentSign then l.documentSign .documentEnd
  else if c == '[' then l.openFlow .openBracket
  else if c == '\x7b' then l.openFlow .openBrace
  else if c == ']' then l.closeFlow .closeBracket
  else if c == '\x7d' then l.closeFlow .closeBrace
  else if c == ',' then do
    let l ← { l with keyAllowed := true }.dropKey
    return l.pushSign .comma 1
  else if c == '-' && isGap (l.peek 1) then l.blockEntry
  else if c == '?' && (l.depth != 0 || isGap (l.peek 1)) then l.keySign
  else if c == ':' && (l.depth != 0 || isGap (l.peek 1)) then l.valueSign
  else if c == '*' then do
    let l ← l.saveKey
    let (name, after) ← { l with keyAllowed := false }.signName followsAlias
    return after.push (.alias name) l.mark
  else if c == '\'' || c == '"' then do
    let l ← l.saveKey
    { l with keyAllowed := false }.quotedScalar
  else if l.startsPlain then do
    let l ← l.saveKey
    return { l with keyAllowed := false }.plain
  else
    l.fail ("found character " ++ Text.quoted (String.ofList [c])
      ++ " that cannot start any token")

/-- The tokens of the rest of a text, and the problem that stopped the lexer. -/
def run : (fuel : Nat) → Lexer → List Token × Option Error
  | 0, l => (l.tokens, none)
  | fuel + 1, l =>
    match l.next with
    | .error e => (l.tokens, some e)
    | .ok l => if l.finished then (l.tokens, none) else run fuel l

end Lexer

/-- Whether a document may hold a character. -/
def isAccepted (c : Char) : Bool :=
  let n := c.toNat
  n == 9 || n == 10 || n == 13 || (0x20 ≤ n && n ≤ 0x7E) || n == 0x85 || (0xA0 ≤ n && n ≤ 0xD7FF)
    || (0xE000 ≤ n && n ≤ 0xFFFD) || 0x10000 ≤ n

/-- The tokens of a text, and the problem after the last of them. -/
def tokens (cs : List Char) : List Token × Option Error :=
  match cs.findIdx? fun c ↦ !isAccepted c with
  | some i => ([], some (.unprintable (cs.getD i ' ') i))
  | none => Lexer.run (cs.length + 2) (.start cs)

end IceCube.Yaml

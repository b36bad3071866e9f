import IceCube.Schema.Document
import IceCube.Schema.Verdict

/-!
# Checks of a document

A check turns a document into a value of its type or into issues.  The checks of a record look at
its declared fields in their order and then report the members that no field declares.
-/

namespace IceCube.Schema

open Number (Binary64)

variable {δ : Type} [Document δ]

/-- A text. -/
def text (d : δ) : Verdict String :=
  match Document.shape d with
  | .text s => .good s
  | _ => .broken .notText

/-- A text with at least one character. -/
def nonempty (d : δ) : Verdict String :=
  (text d).andThen fun s ↦ if s.isEmpty then .broken .tooShort else .good s

/-- A text that satisfies a predicate, which a pattern describes. -/
def matching (pattern : String) (p : String → Bool) (d : δ) : Verdict String :=
  (text d).andThen fun s ↦ if p s then .good s else .broken (.noMatch pattern)

/-- A value, or null for none. -/
def nullable {α : Type} (check : δ → Verdict α) (d : δ) : Verdict (Option α) :=
  match Document.shape d with
  | .null => .good none
  | _ => (check d).map some

/-- A text that names a path. -/
def path {α : Type} (ofText : String → α) (d : δ) : Verdict α :=
  match Document.shape d with
  | .text s => .good (ofText s)
  | _ => .broken .notPath

/-- The ASCII text in lower case. -/
def lowerAscii (s : String) : String := String.ofList (s.toList.map Char.toLower)

/-- The words for true and false, in any case. -/
def boolOfText? (s : String) : Option Bool :=
  let word := lowerAscii s
  if ["1", "t", "true", "y", "yes", "on"].contains word then some true
  else if ["0", "f", "false", "n", "no", "off"].contains word then some false
  else none

/-- The integers that stand for true and false. -/
def boolOfInt? (i : Int) : Option Bool :=
  if i = 0 then some false else if i = 1 then some true else none

/-- A truth value, or a number or word for one. -/
def bool (d : δ) : Verdict Bool :=
  let settle : Option Bool → Verdict Bool
    | some b => .good b
    | none => .broken .unclearBool
  match Document.shape d with
  | .bool b => .good b
  | .int i => settle (boolOfInt? i)
  | .float x => match x.toInt? with
    | some i => settle (boolOfInt? i)
    | none => .broken .notBool
  | .text s => settle (boolOfText? s)
  | _ => .broken .notBool

/-- One of a few texts, each with what it stands for. -/
def choice {α : Type} (options : List (String × α)) (d : δ) : Verdict α :=
  match Document.shape d with
  | .text s => match options.lookup s with
    | some a => .good a
    | none => .broken (.notChoice (options.map Prod.fst))
  | _ => .broken (.notChoice (options.map Prod.fst))

/-- A list of values. -/
def list {α : Type} (wording : Wording) (check : δ → Verdict α) (d : δ) : Verdict (List α) :=
  match Document.shape d with
  | .list items =>
    .all (items.mapIdx fun i item ↦ (check item).below (.number i))
  | _ => .broken (.notList wording)

/-- A key that has to be a text. -/
def keyText : Key → Verdict String
  | .text name => .good name
  | .other step => .bad [⟨[step, .key "[key]"], .notText⟩]

/-- A table of values under texts.  All entries are checked; of those with one key the last value
counts. -/
def table {α : Type} (wording : Wording) (check : δ → Verdict α) (d : δ) :
    Verdict (Table String α) :=
  match Document.shape d with
  | .table entries =>
    (Verdict.all (entries.map fun e ↦
      .both ((keyText e.1).map Prod.mk) ((check e.2).below e.1.step))).map Table.ofEntries
  | _ => .broken (.notTable wording)

/-! ## Records -/

/-- The members of a record under their names. -/
abbrev Members (δ : Type) := List (Key × δ)

/-- The last member of a name. -/
def Members.find? (ms : Members δ) (name : String) : Option δ := ms.reverse.lookup (.text name)

/-- A field that has to be there. -/
def required {α : Type} (ms : Members δ) (name : String) (check : δ → Verdict α) : Verdict α :=
  match ms.find? name with
  | some d => (check d).below (.key name)
  | none => .bad [⟨[.key name], .missing⟩]

/-- A field that has a value of its own where it is left out. -/
def optional {α : Type} (ms : Members δ) (name : String) (default : α) (check : δ → Verdict α) :
    Verdict α :=
  match ms.find? name with
  | some d => (check d).below (.key name)
  | none => .good default

/-- The issue of a member that no field declares. -/
def undeclared? (names : List String) : Key → Option Issue
  | .text name => if names.contains name then none else some ⟨[.key name], .unknown⟩
  | .other step => some ⟨[step], .keyNotText⟩

/-- No members but those of the given names. -/
def only (ms : Members δ) (names : List String) : Verdict Unit :=
  match ms.filterMap fun m ↦ undeclared? names m.1 with
  | [] => .good ()
  | issues => .bad issues

/-- A record of a name: its fields are checked, and then that there are no others. -/
def record {α : Type} (wording : Wording) (name : String) (names : List String)
    (fields : Members δ → Verdict α) (d : δ) : Verdict α :=
  match Document.shape d with
  | .table ms => .both ((fields ms).map fun a _ ↦ a) (only ms names)
  | _ => .broken (.notRecord wording name)

/-- A value that satisfies a rule over all its fields, or the text of the rule. -/
def rule {α : Type} (broken? : α → Option String) (v : Verdict α) : Verdict α :=
  v.andThen fun a ↦ match broken? a with
    | some text => .broken (.rule text)
    | none => .good a

end IceCube.Schema

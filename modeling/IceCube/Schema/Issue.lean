import IceCube.Text.Quoted

/-!
# Issues of a document

A document that does not fit its schema has a list of issues, each with the place where it is and
the rule that is broken there.
-/

namespace IceCube.Schema

/-- A step from a value to one of its parts: a key of a table, or a number that counts items or is
itself a key. -/
inductive Step where
  | key (name : String)
  | number (n : Int)
deriving DecidableEq, Repr

/-- How a step is written in a path. -/
def Step.text : Step → String
  | .key name => name
  | .number n => toString n

/-- The words for lists and tables: those of values in memory, or those of a JSON text. -/
inductive Wording where
  | value
  | text
deriving DecidableEq, Repr

/-- A broken rule. -/
inductive Problem where
  | missing
  | unknown
  | keyNotText
  | notText
  | tooShort
  | noMatch (pattern : String)
  | notBool
  | unclearBool
  | notChoice (options : List String)
  | notPath
  | notList (wording : Wording)
  | notTable (wording : Wording)
  | notRecord (wording : Wording) (name : String)
  | rule (text : String)
  | notJson
deriving DecidableEq, Repr

/-- The short name of a rule. -/
def Problem.kind : Problem → String
  | .missing => "missing"
  | .unknown => "extra_forbidden"
  | .keyNotText => "invalid_key"
  | .notText => "string_type"
  | .tooShort => "string_too_short"
  | .noMatch _ => "string_pattern_mismatch"
  | .notBool => "bool_type"
  | .unclearBool => "bool_parsing"
  | .notChoice _ => "literal_error"
  | .notPath => "path_type"
  | .notList _ => "list_type"
  | .notTable _ => "dict_type"
  | .notRecord .. => "model_type"
  | .rule _ => "value_error"
  | .notJson => "json_invalid"

/-- Options in single quotes, with "or" before the last one. -/
def choiceText : List String → String
  | [] => ""
  | [a] => "'" ++ a ++ "'"
  | [a, b] => "'" ++ a ++ "' or '" ++ b ++ "'"
  | a :: rest => "'" ++ a ++ "', " ++ choiceText rest

/-- The wording of a broken rule. -/
def Problem.message : Problem → String
  | .missing => "Field required"
  | .unknown => "Extra inputs are not permitted"
  | .keyNotText => "Keys should be strings"
  | .notText => "Input should be a valid string"
  | .tooShort => "String should have at least 1 character"
  | .noMatch pattern => "String should match pattern '" ++ pattern ++ "'"
  | .notBool => "Input should be a valid boolean"
  | .unclearBool => "Input should be a valid boolean, unable to interpret input"
  | .notChoice options => "Input should be " ++ choiceText options
  | .notPath => "Input is not a valid path for <class 'pathlib.Path'>"
  | .notList .value => "Input should be a valid list"
  | .notList .text => "Input should be a valid array"
  | .notTable .value => "Input should be a valid dictionary"
  | .notTable .text | .notRecord .text _ => "Input should be an object"
  | .notRecord .value name => "Input should be a valid dictionary or instance of " ++ name
  | .rule text => "Value error, " ++ text
  | .notJson => "Invalid JSON"

/-- A broken rule and the steps from the whole document to the place where it is. -/
structure Issue where
  place : List Step
  problem : Problem
deriving DecidableEq, Repr

/-- The issue seen from a value of which the present one is a part. -/
def Issue.below (step : Step) (issue : Issue) : Issue :=
  { issue with place := step :: issue.place }

/-- An issue on one line: the dotted path and the wording. -/
def Issue.line (issue : Issue) : String :=
  "  - " ++ ".".intercalate (issue.place.map Step.text) ++ ": " ++ issue.problem.message

/-- All issues, one on a line, under a heading. -/
def report (issues : List Issue) : String :=
  "\n".intercalate ("Validation failed:" :: issues.map Issue.line)

end IceCube.Schema

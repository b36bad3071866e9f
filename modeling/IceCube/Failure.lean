import IceCube.FileTree.Basic
import IceCube.Json.Reader
import IceCube.Schema.Issue
import IceCube.Yaml.Token

/-!
# Failures and errors

A failure is reported to users and its message holds nothing that they should not see.  An error is
whatever ends an operation: a failure, a broken document, a fault of the files or an error that the
code of a component raised.
-/

namespace IceCube

/-- What the library reports to its users. -/
inductive Failure where
  | general (message : String)
  | compilation (message : String)
  | configuration (problem : String) (file field : Option String)
  | configurationNotFound (name : String) (available : List String)
  | componentNotFound (identifier : String)
  | nameCollision (componentName identifier existing : String)
  | badRequest (message : String)
deriving DecidableEq, Repr

namespace Failure

/-- The name of a kind of failure. -/
def kind : Failure → String
  | .general _ => "IceCubeError"
  | .compilation _ => "CompilationError"
  | .configuration .. => "ConfigurationError"
  | .configurationNotFound .. => "CompilerConfigNotFoundError"
  | .componentNotFound _ => "ComponentNotFoundError"
  | .nameCollision .. => "ComponentNameCollisionError"
  | .badRequest _ => "BadComponentRequest"

/-- Where a configuration is wrong, in parentheses. -/
def contextText (file field : Option String) : String :=
  let parts := (match file with
      | some f => if f.isEmpty then [] else ["in " ++ f]
      | none => []) ++
    (match field with
      | some f => if f.isEmpty then [] else ["field '" ++ f ++ "'"]
      | none => [])
  if parts.isEmpty then "" else " (" ++ ", ".intercalate parts ++ ")"

/-- The message for users. -/
def message : Failure → String
  | .general m | .compilation m | .badRequest m => m
  | .configuration problem file field => problem ++ contextText file field
  | .configurationNotFound name available =>
    let names := ", ".intercalate available
    "Compiler configuration '" ++ name ++ "' not found. Available: "
      ++ (if names.isEmpty then "none" else names)
  | .componentNotFound identifier => "Component '" ++ identifier ++ "' not found"
  | .nameCollision componentName identifier existing =>
    "Component '" ++ identifier ++ "' collides with '" ++ existing ++ "' (both compile to '"
      ++ componentName ++ "')"

/-- A source that is no text. -/
def sourceNotText (file : String) : Failure :=
  .compilation ("Component source is not valid UTF-8: " ++ file)

/-- A style block that is not well formed. -/
def styleRejected (componentName : String) : Failure :=
  .compilation ("Style compilation failed for " ++ componentName)

/-- The one message of all rejected requests. -/
def badCall : Failure := .badRequest "Bad request"

end Failure

/-- The exit codes of the commands. -/
inductive ExitCode where
  /-- Something that the user can mend. -/
  | user
  /-- Something in the surroundings. -/
  | system
deriving DecidableEq, Repr

/-- The number of an exit code. -/
def ExitCode.number : ExitCode → Nat
  | .user => 1
  | .system => 2

/-- What ends an operation. -/
inductive Error where
  | failure (f : Failure)
  | invalid (issues : List Schema.Issue)
  | yaml (e : Yaml.Error)
  | json (e : Json.ReadError)
  | fault (f : Fault)
  /-- Bytes that are no text. -/
  | notText
  /-- The end of a command, with a message. -/
  | exit (message : String) (code : ExitCode)
  /-- An error of a named kind, as the code of a component raises them. -/
  | raised (kind message : String)
  /-- A value of a kind that an operation does not take. -/
  | mismatch
  /-- An attribute that an object does not have, or not to be set. -/
  | noAttribute
  /-- A name that nothing has. -/
  | noKey
  /-- An integer beyond all floating-point numbers. -/
  | overflow
  /-- Calls nested too deeply. -/
  | depth
deriving Repr

/-- What keeps a text from being a document, as an error.  A scalar without a value is an error of its own
kind. -/
def Error.ofYaml : Yaml.Error → Error
  | .value kind text => .raised kind text
  | e => .yaml e

end IceCube

import IceCube.Command.Compile
import IceCube.Command.Export
import IceCube.Command.Pack

/-!
# Invocations

An invocation is a command with its options.  An option is a name with a value, in one argument or
in two; of an option that is given twice the last value counts.
-/

namespace IceCube.Command

open Schema.Published (Subject)

/-- A command with its options. -/
inductive Invocation where
  | version
  | compile (config : String) (name : Option String)
  | pack (config : String) (name : Option String) (manifest entry : String)
  | exportSchema (subject : Subject) (output : String)
deriving Repr

/-- Arguments that name no command, or options that it does not have. -/
structure UsageError where
deriving DecidableEq, Repr

/-- An option: its name, and the letter that stands for it if there is one. -/
structure OptionName where
  name : String
  letter : Option Char
deriving DecidableEq, Repr

namespace OptionName

/-- The configuration file. -/
def config : OptionName := ⟨"config", some 'c'⟩

/-- The one configuration that is meant. -/
def compiler : OptionName := ⟨"compiler", none⟩

/-- The manifest of the bundler. -/
def manifest : OptionName := ⟨"manifest", some 'm'⟩

/-- The entry point in the manifest. -/
def entry : OptionName := ⟨"entry", none⟩

/-- Where a schema is written. -/
def output : OptionName := ⟨"output", some 'o'⟩

/-- The value that follows the name or letter of an option in the same argument. -/
inductive Attached where
  | value (s : List Char)
  | nextArgument
deriving DecidableEq, Repr

/-- Whether an argument gives an option, and where its value is. -/
def given? (o : OptionName) (argument : List Char) : Option Attached :=
  let long := "--".toList ++ o.name.toList
  if argument = long then some .nextArgument
  else if (long ++ ['=']).isPrefixOf argument then some (.value (argument.drop (long.length + 1)))
  else match o.letter, argument with
    | some letter, '-' :: c :: rest =>
      if c ≠ letter then none
      else if rest.isEmpty then some .nextArgument
      else some (.value rest)
    | _, _ => none

end OptionName

/-- The first of some options that an argument gives. -/
def findOption (options : List OptionName) (argument : List Char) :
    Option (OptionName × OptionName.Attached) :=
  options.findSome? fun o ↦ (o.given? argument).map (o, ·)

/-- The values of options by their names. -/
def readOptions (options : List OptionName) :
    List String → Except UsageError (Table String String)
  | [] => .ok []
  | argument :: rest =>
    match findOption options argument.toList, rest with
    | some (o, .value s), rest => do
      let later ← readOptions options rest
      return later ++ [(o.name, String.ofList s)]
    | some (o, .nextArgument), s :: rest => do
      let later ← readOptions options rest
      return later ++ [(o.name, s)]
    | some (_, .nextArgument), [] => .error ⟨⟩
    | none, [] => if argument = "--" then .ok [] else .error ⟨⟩
    | none, _ => .error ⟨⟩

/-- The value of an option, or what stands for it where it is not given. -/
def valueOf (values : Table String String) (o : OptionName) (default : String) : String :=
  (Table.get? values o.name).getD default

namespace Invocation

/-- The configuration file unless one is given. -/
def defaultConfig : String := "./icecube.yaml"

/-- The manifest unless one is given. -/
def defaultManifest : String := "./public/build/manifest.json"

/-- The entry point unless one is given. -/
def defaultEntry : String := "resources/js/icecube.js"

/-- The names of the commands. -/
def commandNames : List String := ["compile", "pack", "schema"]

/-- A command for schemas. -/
def ofSchemaArguments : List String → Except UsageError Invocation
  | [] => .error ⟨⟩
  | name :: arguments => do
    let subject ← match name with
      | "export" => .ok Subject.cache
      | "export-config" => .ok Subject.config
      | _ => .error ⟨⟩
    let values ← readOptions [.output] arguments
    return .exportSchema subject (valueOf values .output (defaultOutput subject))

/-- The command of a name with its arguments. -/
def ofCommand (name : String) (arguments : List String) : Except UsageError Invocation :=
  match name with
  | "compile" => do
    let values ← readOptions [.config, .compiler] arguments
    return .compile (valueOf values .config defaultConfig)
      (Table.get? values OptionName.compiler.name)
  | "pack" => do
    let values ← readOptions [.config, .compiler, .manifest, .entry] arguments
    return .pack (valueOf values .config defaultConfig)
      (Table.get? values OptionName.compiler.name) (valueOf values .manifest defaultManifest)
      (valueOf values .entry defaultEntry)
  | "schema" => ofSchemaArguments arguments
  | _ => .error ⟨⟩

/-- The options before the name of a command, which change nothing of its output. -/
def isSilentOption (argument : String) : Bool :=
  ["--no-color", "--verbose"].contains argument
    || (match argument.toList with
      | '-' :: 'v' :: rest => rest.all (· == 'v')
      | _ => false)

/-- The arguments of the whole program. -/
def ofArguments (arguments : List String) : Except UsageError Invocation :=
  match arguments.dropWhile isSilentOption with
  | [] => .error ⟨⟩
  | "--version" :: _ => .ok .version
  | "--" :: name :: rest => ofCommand name rest
  | name :: rest => ofCommand name rest

end Invocation

/-- The name and the version of the program. -/
def versionText : String := "icecube, version 0.1.0"

/-- A command is carried out.  The result says whether it has worked. -/
def execute : Invocation → Command Bool
  | .version => do
    say versionText
    return true
  | .compile config name => do
    compile config name
    return true
  | .pack config name manifest entry => do
    pack config name manifest entry
    return true
  | .exportSchema subject output => exportSchema subject output

/-- How a command has ended. -/
structure Outcome where
  exitCode : Nat
  output : String
  /-- The error that ended the command, if one did. -/
  error : Option Error
deriving Repr

/-- The exit code of a command that ended in an error. -/
def exitCode : Error → Nat
  | .exit _ code => code.number
  | _ => 1

/-- The lines that a command has printed. -/
def printed (c : Console) : String := String.join (c.output.map (· ++ "\n"))

/-- A command carried out to its end, and what it worked on after it. -/
def finish (i : Invocation) (c : Console) : Outcome × Console :=
  match (execute i).run c with
  | (.ok worked, c) => (⟨if worked then 0 else 1, printed c, none⟩, c)
  | (.error e, c) => (⟨exitCode e, printed c, some e⟩, c)

/-- The exit code of arguments that name no command. -/
def usageExitCode : Nat := 2

end IceCube.Command

import IceCube.Failure

/-!
# Messages of commands

A command that cannot go on ends with a message and an exit code, which says whether the user or the
surroundings have to change.
-/

namespace IceCube.Command

/-- The end of a command over something that the user can mend. -/
def stop (message : String) : Error := .exit message .user

/-- A configuration file that is not there. -/
def fileNotFound (file : String) : Error :=
  .exit ("File not found: " ++ file
    ++ "\n\nCreate icecube.yaml, or use --config to specify a path.") .system

/-- A path that may not be used for an operation. -/
def permissionDenied (path operation : String) : Error :=
  .exit ("Permission denied: Cannot " ++ operation ++ " " ++ path) .system

/-- A failure of the library. -/
def ofFailure (f : Failure) : Error := stop f.message

/-- A configuration file that does not fit its schema. -/
def ofIssues (file : String) (issues : List Schema.Issue) : Error :=
  stop ("Invalid configuration in " ++ file ++ ":\n" ++ Schema.report issues)

/-- A configuration file that is no document.  The source is the name that the text goes by.  There is
no message for a scalar without a value. -/
def ofYaml (file source : String) (e : Yaml.Error) : Error :=
  match Error.ofYaml e with
  | .yaml e => stop ("Invalid YAML in " ++ file ++ ": " ++ e.message source)
  | e => e

/-- A manifest that is no document. -/
def ofManifest (file : String) (e : Json.ReadError) : Error :=
  stop ("Invalid manifest " ++ file ++ ": " ++ e.message)

/-- A fault of the files with its number. -/
def faultText (f : Fault) : String :=
  "[Errno " ++ toString f.kind.number ++ "] " ++ f.kind.message ++ ": " ++ Text.quoted f.path

/-- What the user reads about an error that no command expects. -/
def describe : Error → String
  | .exit message _ => message
  | .failure f => f.message
  | .invalid issues => Schema.report issues
  | .yaml e => e.message "<text>"
  | .json e => e.message
  | .fault f => faultText f
  | .notText => "A file is not valid UTF-8"
  | .raised kind message => kind ++ ": " ++ message
  | .mismatch => "A value is of a kind that does not fit"
  | .noAttribute => "A value lacks what its kind should have"
  | .noKey => "A name stands for nothing"
  | .overflow => "A number is too large"
  | .depth => "Calls are nested too deeply"

end IceCube.Command

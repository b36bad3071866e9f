import IceCube.Command.Basic
import IceCube.Schema.Published

/-!
# Exporting schemas on the command line
-/

namespace IceCube.Command

open Schema.Published (Subject)

/-- Where a schema is exported to unless a path is given. -/
def defaultOutput (s : Subject) : String := "./schemas/" ++ s.fileName

/-- A schema is written, with the directories above its file. -/
def writeSchema (s : Subject) (path : Path) : Command Unit := do
  onFiles (·.makeDirectories FileTree.parentMode path.parent)
  onFiles (·.write path (Utf8.encode s.schema.pretty))

/-- A schema is exported.  The result says whether it could be written. -/
def exportSchema (s : Subject) (output : String) : Command Bool := do
  let path := Path.ofText output
  tryCatch
    (do
      writeSchema s path
      success ("Schema exported to " ++ path.text)
      return true)
    fun e ↦ do
      match e with
      | .fault f =>
        trouble ("Schema export failed: " ++ faultText f)
        return false
      | e => throw e

end IceCube.Command

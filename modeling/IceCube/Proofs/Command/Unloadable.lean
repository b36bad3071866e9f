import IceCube.Proofs.Command.Aborted
import IceCube.Proofs.Yaml.Failing

/-!
# Configurations that cannot be loaded

Loading a configuration file ends in a message for users for whatever is wrong with the document and with
the environment.  What has no message is a path that cannot be read as a text, which is a directory or
holds other bytes, and a document in which something written like a value has none.
-/

namespace IceCube

open Step

namespace Config

variable {files : FileTree} {env : Environment} {p : Path} {e : Error}

theorem load_of_readText (hp : files.pathExists p = true) (h : readText files p = .error e) :
    load files env p = .error e := by
  simp [load, hp, h, bind, Except.bind]

theorem load_of_yaml {text : String} {y : Yaml.Error} (hp : files.pathExists p = true)
    (htext : readText files p = .ok text) (h : Yaml.load text = .error y) :
    load files env p = .error (.ofYaml y) := by
  simp [load, hp, htext, h, Except.mapError, bind, Except.bind]

end Config

namespace Command

variable {files : FileTree} {p : Path} {file : String} {c : Console} {e : Error}

/-- What ends the loading of a configuration without a message for users. -/
inductive Unreported (files : FileTree) (p : Path) : Error → Prop where
  | directory (h : files.isDirectory p = true) :
      Unreported files p (.fault ⟨.isADirectory, p.text⟩)
  | notText {bytes : Bytes} (hread : files.read p = .ok bytes) (h : Utf8.decode bytes = none) :
      Unreported files p .notText
  | valueless {text kind message : String} (htext : Config.readText files p = .ok text)
      (h : Yaml.load text = .error (.value kind message)) :
      Unreported files p (.raised kind message)

namespace Unreported

theorem readText (hp : files.pathExists p = true) (h : Config.readText files p = .error e) :
    Unreported files p e := by
  rcases Config.readText_eq_error_iff.mp h with ⟨f, hread, rfl⟩ | ⟨bytes, hread, hdecode, rfl⟩
  · obtain ⟨hdirectory, rfl⟩ := (FileTree.read_eq_error_iff hp).mp hread
    exact .directory hdirectory
  · exact .notText hread hdecode

theorem pathExists (h : Unreported files p e) : files.pathExists p = true := by
  cases h with
  | directory h => exact FileTree.pathExists_of_isDirectory h
  | notText hread _ => exact FileTree.pathExists_of_read hread
  | valueless htext _ =>
    obtain ⟨_, _, hread, -, -⟩ := Config.readText_eq_ok_iff.mp htext
    exact FileTree.pathExists_of_read hread

/-- Loading ends in what has no message, as it is. -/
theorem load (env : Environment) (h : Unreported files p e) : Config.load files env p = .error e := by
  have hp := h.pathExists
  cases h with
  | directory h =>
    exact Config.load_of_readText hp (Config.readText_eq_error_iff.mpr
      (.inl ⟨_, (FileTree.read_eq_error_iff hp).mpr ⟨h, rfl⟩, rfl⟩))
  | notText hread h =>
    exact Config.load_of_readText hp (Config.readText_eq_error_iff.mpr (.inr ⟨_, hread, h, rfl⟩))
  | valueless htext h => exact Config.load_of_yaml hp htext h

theorem loadMessage (h : Unreported files p e) (file : String) : Command.loadMessage file e = e := by
  cases h <;> rfl

end Unreported

end Command

end IceCube

import IceCube.Compiler.Compile
import IceCube.Component.Module
import IceCube.Config.Load

/-!
# Resolving identifiers

The class of an identifier is loaded from the compiled code of its record when it is first asked
for.  An identifier without a record is compiled by the first compiler that covers it.
-/

namespace IceCube.Resolve

open Run

/-- What the names of modules of compiled code start with. -/
def moduleStart : String := "icecube_compiled_"

/-- The name that every module has for what modules are. -/
def moduleClassName : String := "__class__"

/-- The text of compiled code. -/
def readCode (record : Record) (path : Path) : Run String := do
  match Config.readText (← get).files path with
  | .ok text => return text
  | .error (.fault _) => failWith (.componentNotFound record.identifier) .other
  | .error e => throw e

/-- The class of a record, loaded anew. -/
def load (record : Record) : Run ClassId := do
  let path := Path.ofText record.compiledCodePath
  let code ← readCode record path
  let scope ← Component.runModule (moduleStart ++ record.componentName)
    (Component.statementsOf code)
  let name := Identifier.className record.identifier
  match Table.get? scope name with
  | some (.class id) =>
    setClassAttribute id "component_name" (.text record.componentName)
    setClassAttribute id "identifier" (.text record.identifier)
    return id
  | _ =>
    if name = moduleClassName then throw .mismatch
    else failWith (.componentNotFound record.identifier) (.classNotDefined path.text name)

/-- The record of an identifier, compiled if there is none or a fresh one is wanted. -/
def record (registry : RegistryId) (identifier : String) (force : Bool) : Run (Option Record) := do
  let r := (← get).registry registry
  match r.get? identifier, force with
  | some record, false => return some record
  | old, _ =>
    match r.compilerFor? identifier with
    | some c =>
      let compiled ← build c.home (c.compileIdentifier identifier)
      return some (.compiled compiled)
    | none => return old

/-- The class of an identifier. -/
def resolve (registry : RegistryId) (identifier : String) (force : Bool) : Run ClassId := do
  match Table.get? ((← get).registry registry).loaded identifier, force with
  | some id, false => return id
  | _, _ =>
    match ← record registry identifier force with
    | none => fail (.componentNotFound identifier)
    | some record =>
      let id ← load record
      changeRegistry registry (·.setLoaded identifier id)
      return id

end IceCube.Resolve

import IceCube.Component.Object
import IceCube.Component.Reader

/-!
# Running component code

The statements of a code run in order in a module of their own, where later classes can be built on
earlier ones.
-/

namespace IceCube.Component

open Run

/-- What a name in a module stands for. -/
inductive Binding where
  | class (id : ClassId)
  | value (v : Value)
deriving Repr, Inhabited

/-- The names that a module has defined. -/
abbrev Scope := Table String Binding

/-- The base of a class, found among the classes of a module. -/
def Scope.base (scope : Scope) : Base String → Run (Base ClassId)
  | .object => return .object
  | .component => return .component
  | .single => return .single
  | .ice => return .ice
  | .class name =>
    match Table.get? scope name with
    | some (.class id) => return .class id
    | _ => throw .noKey

/-- The module after a statement. -/
def execute (module : String) (scope : Scope) : Statement → Run Scope
  | .fail kind message => throw (raisedError kind message)
  | .define (.value name v) => return Table.insert scope name (.value (.ofJson v))
  | .define (.class spec) => do
    let base ← scope.base spec.base
    let id ← newClass (.ofSpec module base spec)
    return Table.insert scope spec.name (.class id)

/-- What a module has defined after all statements of its code. -/
def runModule (module : String) (code : List Statement) : Run Scope :=
  code.foldlM (execute module) []

end IceCube.Component

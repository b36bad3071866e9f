import IceCube.Path
import IceCube.Proofs.Schema.Pattern
import IceCube.Proofs.Table
import Mathlib.Order.FixedPoints
import Mathlib.Tactic.MkIffOfInductiveProp

/-!
# Documents that are valid under a schema

A schema is itself a document.  What it asks for is the conjunction of what its keywords ask for, each
of values of one kind only.  The keywords below are those of schemas that list no values to choose
from; texts for readers ask for nothing.  A keyword can lead to other schemas, and a reference to any
schema of the whole document, so validity is the least relation that keeps all of them.
-/

namespace IceCube.Schema

/-! ## Types and references -/

/-- The names of the types of a value.  An integer is a number whichever way it is written. -/
def typeNames : Json → List String
  | .null => ["null"]
  | .bool _ => ["boolean"]
  | .int _ => ["integer", "number"]
  | .float x => if x.toInt?.isSome then ["integer", "number"] else ["number"]
  | .str _ => ["string"]
  | .arr _ => ["array"]
  | .obj _ => ["object"]

/-- A value has a type, or one of several. -/
def HasType (type v : Json) : Prop :=
  match type with
  | .str name => name ∈ typeNames v
  | .arr names => ∃ name ∈ typeNames v, .str name ∈ names
  | _ => False

/-- A step of a pointer, in which the signs of pointers are escaped. -/
def pointerStep? : List Char → Option (List Char)
  | [] => some []
  | '~' :: '0' :: cs => (pointerStep? cs).map ('~' :: ·)
  | '~' :: '1' :: cs => (pointerStep? cs).map ('/' :: ·)
  | c :: cs => if c = '~' ∨ c = '%' then none else (pointerStep? cs).map (c :: ·)

/-- The steps of a reference into the document that it stands in. -/
def pointer? (reference : String) : Option (List String) :=
  match reference.toList with
  | ['#'] => some []
  | '#' :: '/' :: cs =>
    (Path.splitOn '/' cs).mapM fun step ↦ (pointerStep? step).map String.ofList
  | _ => none

/-- The part of a document that a reference leads to. -/
def resolve? (root : Json) (reference : String) : Option Json :=
  (pointer? reference).bind fun steps ↦ steps.foldlM Json.member? root

/-! ## Keywords -/

/-- A value keeps the keywords of a schema, given what is valid under the schemas that they lead
to. -/
@[mk_iff]
structure Obeys (valid : Json → Json → Prop) (root : Json) (keyword : String → Option Json)
    (v : Json) : Prop where
  type : ∀ t, keyword "type" = some t → HasType t v
  minLength : ∀ n, keyword "minLength" = some (.int n) → ∀ s, v = .str s → n ≤ s.length
  pattern : ∀ p, keyword "pattern" = some (.str p) → ∀ s, v = .str s →
    ∃ found, Pattern.read? p = some found ∧ found.Found s
  required : ∀ names, keyword "required" = some (.arr names) → ∀ ms, v = .obj ms →
    ∀ name, .str name ∈ names → name ∈ Table.keys ms
  properties : ∀ ps, keyword "properties" = some (.obj ps) → ∀ ms, v = .obj ms →
    ∀ name sub w, Table.get? ps name = some sub → Table.get? ms name = some w → valid sub w
  additionalProperties : ∀ sub, keyword "additionalProperties" = some sub → ∀ ms, v = .obj ms →
    ∀ name w, Table.get? ms name = some w →
      (∀ ps, keyword "properties" = some (.obj ps) → name ∉ Table.keys ps) → valid sub w
  anyOf : ∀ subs, keyword "anyOf" = some (.arr subs) → ∃ sub ∈ subs, valid sub v
  reference : ∀ r, keyword "$ref" = some (.str r) →
    ∃ sub, resolve? root r = some sub ∧ valid sub v

theorem Obeys.mono {valid valid' : Json → Json → Prop} {root : Json}
    {keyword : String → Option Json} {v : Json} (h : Obeys valid root keyword v)
    (hvalid : ∀ schema v, valid schema v → valid' schema v) : Obeys valid' root keyword v where
  type := h.type
  minLength := h.minLength
  pattern := h.pattern
  required := h.required
  properties ps hps ms hms name sub w hsub hw :=
    hvalid _ _ (h.properties ps hps ms hms name sub w hsub hw)
  additionalProperties sub hsub ms hms name w hw hname :=
    hvalid _ _ (h.additionalProperties sub hsub ms hms name w hw hname)
  anyOf subs hsubs := by
    obtain ⟨sub, hsub, hv⟩ := h.anyOf subs hsubs
    exact ⟨sub, hsub, hvalid _ _ hv⟩
  reference r hr := by
    obtain ⟨sub, hsub, hv⟩ := h.reference r hr
    exact ⟨sub, hsub, hvalid _ _ hv⟩

/-- What a schema that stands in a document asks of a value, given what is valid under the schemas
that it leads to. -/
def asked (root : Json) : (Json → Json → Prop) →o (Json → Json → Prop) where
  toFun valid schema v := match schema with
    | .bool b => b = true
    | .obj keywords => Obeys valid root (Table.get? keywords) v
    | _ => False
  monotone' valid valid' hvalid schema v := by
    cases schema with
    | obj keywords => exact fun h ↦ h.mono hvalid
    | _ => exact id

/-- A value is valid under a schema that stands in a document. -/
def Valid (root : Json) : Json → Json → Prop := (asked root).lfp

variable {root schema v : Json}

theorem valid_iff_asked : Valid root schema v ↔ asked root (Valid root) schema v := by
  rw [Valid, (asked root).map_lfp]

@[simp] theorem valid_bool_iff {b : Bool} : Valid root (.bool b) v ↔ b = true := valid_iff_asked

theorem valid_obj_iff {keywords : Table String Json} :
    Valid root (.obj keywords) v ↔ Obeys (Valid root) root (Table.get? keywords) v :=
  valid_iff_asked

end IceCube.Schema

import IceCube.Json.Reader
import IceCube.Json.Writer
import IceCube.Record

/-!
# Cache files

A cache file keeps the projections of the records of a registry as a JSON document, so that a later
process need not compile them again.
-/

namespace IceCube

/-- What a cache file holds. -/
structure Cache where
  version : String
  components : Table String CachedComponent
deriving DecidableEq, Repr, Inhabited

namespace Cache

/-- The version of the format. -/
def formatVersion : String := "1.0"

/-- A cache of records, ordered by the names of their components. -/
def ofRecords (records : List Record) (includeStyles : Bool) : Cache where
  version := formatVersion
  components := Table.ofEntries <|
    (records.mergeSort fun a b ↦ decide (a.componentName ≤ b.componentName)).map fun r ↦
      (r.componentName, r.toCached includeStyles)

/-- A cache as a document. -/
def toJson (c : Cache) : Json :=
  .obj [("version", .str c.version),
    ("components", .obj (c.components.map fun e ↦ (e.1, .obj e.2.members)))]

/-- The text of a cache file. -/
def write (c : Cache) : String := c.toJson.prettyUnicode ++ "\n"

end Cache

namespace Schema

variable {δ : Type} [Document δ]

/-- A cache. -/
def cache (w : Wording) : δ → Verdict Cache :=
  record w "CacheFile" ["version", "components"] fun ms ↦
    Cache.mk <$> optional ms "version" Cache.formatVersion text
      <*> optional ms "components" [] (table w (cachedComponent w))

/-- A check of a JSON text, in which members can have one name: a text that is no document has that
as its only issue. -/
def ofText {α : Type} (check : Json → Verdict α) (s : String) : Verdict α :=
  match Json.readVerbatim s with
  | .ok v => check v
  | .error _ => .broken .notJson

end Schema

/-- The cache that a text writes. -/
def Cache.read (s : String) : Schema.Verdict Cache := Schema.ofText (Schema.cache .text) s

end IceCube

/-!
# Ordered tables

A table is a list of entries, each a key with its value, in the order in which the keys first came.
Inserting under a key that is present replaces the value and keeps its place.
-/

namespace IceCube

/-- Entries in the order in which their keys came. -/
abbrev Table (κ ν : Type) := List (κ × ν)

namespace Table

variable {κ ν : Type} [BEq κ]

/-- The value of a key. -/
def get? : Table κ ν → κ → Option ν
  | [], _ => none
  | (k, v) :: t, key => if k == key then some v else get? t key

/-- Whether a key has a value. -/
def contains (t : Table κ ν) (key : κ) : Bool := (get? t key).isSome

/-- The table with a value for a key, in place of the old one or at the end. -/
def insert : Table κ ν → κ → ν → Table κ ν
  | [], key, value => [(key, value)]
  | (k, v) :: t, key, value =>
    if k == key then (k, value) :: t else (k, v) :: insert t key value

/-- The table without a key. -/
def erase (t : Table κ ν) (key : κ) : Table κ ν := t.filter fun e ↦ !(e.1 == key)

/-- The value of a key, and the table with that value, or with the given one where there was
none. -/
def getOrInsert (t : Table κ ν) (key : κ) (value : ν) : ν × Table κ ν :=
  match get? t key with
  | some v => (v, t)
  | none => (value, t ++ [(key, value)])

/-- The keys in order. -/
def keys (t : Table κ ν) : List κ := t.map Prod.fst

/-- The values in order. -/
def values (t : Table κ ν) : List ν := t.map Prod.snd

/-- The table with all entries of a list, later ones replacing earlier ones. -/
def insertAll (t : Table κ ν) (entries : List (κ × ν)) : Table κ ν :=
  entries.foldl (fun t e ↦ insert t e.1 e.2) t

/-- The table of a list of entries, later ones replacing earlier ones. -/
def ofEntries (entries : List (κ × ν)) : Table κ ν := insertAll [] entries

section Laws

variable [LawfulBEq κ]

@[simp] theorem get?_insert_self (t : Table κ ν) (k : κ) (v : ν) :
    get? (insert t k v) k = some v := by
  induction t with
  | nil => simp [insert, get?]
  | cons e t ih =>
    obtain ⟨a, b⟩ := e
    by_cases h : (a == k) = true <;> simp [insert, get?, h, ih]

theorem get?_insert_of_ne (t : Table κ ν) {k l : κ} (v : ν) (h : k ≠ l) :
    get? (insert t k v) l = get? t l := by
  induction t with
  | nil => simp [insert, get?, h]
  | cons e t ih =>
    obtain ⟨a, b⟩ := e
    by_cases ha : a = k
    · subst ha; simp [insert, get?, h]
    · by_cases hl : a = l
      · subst hl; simp [insert, get?, ha]
      · simp [insert, get?, ha, hl, ih]

end Laws

end Table

end IceCube

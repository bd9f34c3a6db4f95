/-
Tables: finitely many keys, each with one value.

A table is seen through `find?`: inserting changes what is found under one
key, erasing finds nothing there.
-/

namespace Columnar

/-- Finitely many keys, each with one value. -/
structure Table (κ α : Type) where
  entries : List (κ × α)
  deriving Repr

namespace Table

variable {κ α : Type} [DecidableEq κ]

def empty : Table κ α := ⟨[]⟩

instance : EmptyCollection (Table κ α) := ⟨empty⟩

instance : Inhabited (Table κ α) := ⟨empty⟩

/-- The value under a key. -/
def find? (t : Table κ α) (k : κ) : Option α := (t.entries.find? (·.1 = k)).map (·.2)

/-- The table without a key. -/
def erase (t : Table κ α) (k : κ) : Table κ α := ⟨t.entries.filter (·.1 ≠ k)⟩

/-- Entries with a value under a key, in place of any value there. -/
def put (k : κ) (a : α) : List (κ × α) → List (κ × α)
  | [] => [(k, a)]
  | e :: rest => if e.1 = k then (k, a) :: rest else e :: put k a rest

/-- Puts a value under a key, in place of any value there. -/
def insert (t : Table κ α) (k : κ) (a : α) : Table κ α := ⟨put k a t.entries⟩

def contains (t : Table κ α) (k : κ) : Bool := (t.find? k).isSome

/-- The number of keys. -/
def size (t : Table κ α) : Nat := t.entries.length

def values (t : Table κ α) : List α := t.entries.map (·.2)

end Table

end Columnar

/-
The ledger of owned storage.

Every builder and every vector is entered when it is made and struck out when
its storage is reclaimed: as released if it was given up on purpose, as leaked
if it just went away. What is entered and not yet struck out is outstanding.
-/
import Columnar.Table

namespace Columnar

/-- Counts of entries, by what became of them. -/
structure Ledger where
  registered : Nat := 0
  released : Nat := 0
  leaked : Nat := 0
  deriving DecidableEq, Repr

namespace Ledger

/-- One more entry. The numbers of the entries count up from one. -/
def register (l : Ledger) : Ledger := { l with registered := l.registered + 1 }

/-- Strikes an entry out. -/
def reclaim (l : Ledger) (released : Bool) : Ledger :=
  if released then { l with released := l.released + 1 } else { l with leaked := l.leaked + 1 }

/-- Entries not yet struck out. -/
def outstanding (l : Ledger) : Nat := l.registered - (l.released + l.leaked)

end Ledger

/-- An entry of the ledger, in the hands of the owner. -/
structure Resource where
  id : Nat
  kind : String
  released : Bool := false
  deriving DecidableEq, Repr

/-- A ledger with resources that are owned by name. -/
structure Registry where
  ledger : Ledger := {}
  owned : Table String Resource := ∅

namespace Registry

/-- Strikes out the resource under a name; tells whether there was one. -/
def drop (r : Registry) (name : String) : Bool × Registry :=
  match r.owned.find? name with
  | none => (false, r)
  | some resource =>
    (true, { ledger := r.ledger.reclaim resource.released, owned := r.owned.erase name })

/-- Enters a resource under a name; one that was there before is struck out
afterwards. -/
def register (r : Registry) (name kind : String) : Resource × Registry :=
  let ledger := r.ledger.register
  let resource : Resource := { id := ledger.registered, kind := kind }
  let rest := (({ r with ledger := ledger } : Registry).drop name).2
  (resource, { rest with owned := rest.owned.insert name resource })

/-- Marks a resource as given up on purpose; only the first time counts, and
the answer tells whether this was it. -/
def release? (r : Registry) (name : String) : Option (Bool × Registry) :=
  (r.owned.find? name).map fun resource =>
    (!resource.released,
      { r with owned := r.owned.insert name { resource with released := true } })

end Registry

end Columnar

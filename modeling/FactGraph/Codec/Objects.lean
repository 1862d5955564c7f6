import Mathlib.Data.List.Perm.Basic
import FactGraph.Codec.Scalars

/-!
# Python objects

The Python objects a caller may hand over: lists and tuples, and `dict`s whose keys need not be
strings.
-/

namespace FactGraph.Codec

open Protocol Store Db JsonText

/-! ## Objects -/

/-- A key of a `dict`: a string, or another hashable object. -/
inductive Key (K : Type) where
  | str (s : String)
  | other (k : K)
  deriving DecidableEq

/-- A Python object; `K` are the keys that are no strings, up to `==`. -/
inductive PyObj (K : Type) where
  | leaf (s : Scalar)
  | list (xs : List (PyObj K))
  | tuple (xs : List (PyObj K))
  | dict (fs : List (Key K × PyObj K))

variable {K : Type}

/-- `str(key)`, given that of the keys that are no strings. -/
def Key.text (keyStr : K → String) : Key K → String
  | .str s => s
  | .other k => keyStr k

theorem sortKeysFields_eq (fs : List (String × Json)) :
    sortKeysFields fs = fs.map fun p => (p.1, sortKeys p.2) := by
  induction fs with
  | nil => rfl
  | cons p fs ih => rw [sortKeysFields, ih, List.map_cons]

end FactGraph.Codec

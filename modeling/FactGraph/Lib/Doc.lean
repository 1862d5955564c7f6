import Mathlib.Data.List.Basic

/-!
# Documents

A tree of arrays and string-keyed objects over any type of leaves: the shape shared by the values
a program holds (leaves may be bytes) and by the texts it writes them as (leaves may not).
-/

/-- An array, an object or a leaf. -/
inductive Doc (L : Type*) where
  | leaf (l : L)
  | arr (xs : List (Doc L))
  | obj (fs : List (String × Doc L))

namespace Doc

variable {L M : Type*}

instance [Inhabited L] : Inhabited (Doc L) := ⟨.leaf default⟩

section DecEq

variable [DecidableEq L]

mutual

/-- Equality of documents, decided along the tree. -/
def beqDoc : Doc L → Doc L → Bool
  | .leaf l, .leaf m => decide (l = m)
  | .arr xs, .arr ys => beqList xs ys
  | .obj fs, .obj gs => beqFields fs gs
  | _, _ => false

def beqList : List (Doc L) → List (Doc L) → Bool
  | [], [] => true
  | x :: xs, y :: ys => beqDoc x y && beqList xs ys
  | _, _ => false

def beqFields : List (String × Doc L) → List (String × Doc L) → Bool
  | [], [] => true
  | (k, x) :: fs, (m, y) :: gs => decide (k = m) && (beqDoc x y && beqFields fs gs)
  | _, _ => false

end

mutual

theorem beqDoc_iff : ∀ x y : Doc L, beqDoc x y = true ↔ x = y
  | .leaf l, .leaf m => by simp [beqDoc]
  | .arr xs, .arr ys => by simp [beqDoc, beqList_iff xs ys]
  | .obj fs, .obj gs => by simp [beqDoc, beqFields_iff fs gs]
  | .leaf _, .arr _ | .leaf _, .obj _ | .arr _, .leaf _ | .arr _, .obj _ | .obj _, .leaf _
  | .obj _, .arr _ => by simp [beqDoc]

theorem beqList_iff : ∀ xs ys : List (Doc L), beqList xs ys = true ↔ xs = ys
  | [], [] => by simp [beqList]
  | x :: xs, y :: ys => by simp [beqList, beqDoc_iff x y, beqList_iff xs ys]
  | [], _ :: _ | _ :: _, [] => by simp [beqList]

theorem beqFields_iff : ∀ fs gs : List (String × Doc L), beqFields fs gs = true ↔ fs = gs
  | [], [] => by simp [beqFields]
  | (k, x) :: fs, (m, y) :: gs => by
      simp [beqFields, beqDoc_iff x y, beqFields_iff fs gs, and_assoc]
  | [], _ :: _ | _ :: _, [] => by simp [beqFields]

end

instance : DecidableEq (Doc L) := fun x y => decidable_of_iff _ (beqDoc_iff x y)

end DecEq

end Doc

/-! # Places

Two descriptors with equal contents are still two descriptors when they stand at different places.
A place is the list of indices that lead to a descriptor from the outside; a `Located` item carries
its place with it, and its parts get places that extend it (`Located.within`). -/

namespace MessageSchema

/-- The way to a descriptor: the index taken at each level, outermost first. -/
abbrev Place := List Nat

/-- An item together with the place where it stands. -/
structure Located (α : Type) where
  place : Place
  item : α
deriving DecidableEq, Repr

namespace Located

/-- The items of a list that stands at `place`, counted from `start`. -/
def enumerate {α : Type} (place : Place) (start : Nat) : List α → List (Located α)
  | [] => []
  | a :: rest => ⟨place ++ [start], a⟩ :: enumerate place (start + 1) rest

/-- The located parts of `x`, one for each entry of `parts`. -/
def within {α β : Type} (x : Located α) (parts : α → List β) : List (Located β) :=
  enumerate x.place 0 (parts x.item)

@[simp] theorem map_item_enumerate {α : Type} (place : Place) (start : Nat) (l : List α) :
    (enumerate place start l).map Located.item = l := by
  induction l generalizing start with
  | nil => rfl
  | cons a l ih => simp [enumerate, ih]

end Located

end MessageSchema

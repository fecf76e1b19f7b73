/-! # Batches

A list is cut from the front into batches of at most a given size; only the last may be shorter.
Room for a whole batch is set aside before the first item comes, so that a size that is beyond all
memory cannot be served, whatever the list.
-/

namespace ServiceDirectory

section

variable {α : Type}

/-- The fuel is the number of batches at most made. -/
def batchesOf (size : Nat) : (fuel : Nat) → List α → List (List α)
  | 0, _ => []
  | _, [] => []
  | fuel + 1, x :: r => (x :: r).take size :: batchesOf size fuel ((x :: r).drop size)

/-- Batches of at most `max` items, or of one item if `max` is zero. -/
def batched (items : List α) (max : Nat) : List (List α) :=
  batchesOf (Nat.max max 1) items.length items

end

/-- The least size of a batch for which there is no room. -/
def batchLimit : Nat := 1 <<< 57

def hasRoom (max : Nat) : Bool := max < batchLimit

end ServiceDirectory

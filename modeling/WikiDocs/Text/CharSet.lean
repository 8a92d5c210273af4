/-!
Sets of code points as search trees of closed ranges. Membership in the tree
of an ascending list of ranges is membership in one of the ranges.
-/

namespace WikiDocs.Text

/-- A search tree of closed ranges of code points. -/
inductive CharSet where
  | empty
  | node (left : CharSet) (first last : Nat) (right : CharSet)

namespace CharSet

def contains (n : Nat) : CharSet → Bool
  | empty => false
  | node left first last right =>
    if n < first then contains n left else if n ≤ last then true else contains n right

/-- Builds a tree of height at most `height` from the front of an ascending list of ranges, and
gives back the ranges that found no place in it. -/
def grow : Nat → List (Nat × Nat) → CharSet × List (Nat × Nat)
  | 0, ranges => (empty, ranges)
  | height + 1, ranges =>
    match grow height ranges with
    | (left, []) => (left, [])
    | (left, (first, last) :: ranges) =>
      let (right, ranges) := grow height ranges
      (node left first last right, ranges)

/-- The tree of an ascending list of at most 1023 ranges. -/
def ofRanges (ranges : List (Nat × Nat)) : CharSet := (grow 10 ranges).1

end CharSet
end WikiDocs.Text

/-!
Text as the list of its characters, and the ways of cutting it that the rest
of the library shares: just after a mark, at line ends, and at one of its ends.
-/

namespace WikiDocs

/-- A text is the list of its characters: all markup is cut and counted by characters. -/
abbrev Text := List Char

namespace Text

/-- The number of bytes of a text in UTF-8. -/
def byteSize : Text → Nat
  | [] => 0
  | c :: s => c.utf8Size + byteSize s

theorem byteSize_append (s t : Text) : byteSize (s ++ t) = byteSize s + byteSize t := by
  induction s with
  | nil => exact (Nat.zero_add _).symm
  | cons c s ih => simp only [List.cons_append, byteSize, ih, Nat.add_assoc]

/-- The rest of a text after `lead`, if it starts with it. -/
def dropLead : Text → Text → Option Text
  | [], s => some s
  | _ :: _, [] => none
  | c :: lead, d :: s => if c = d then dropLead lead s else none

theorem dropLead_eq_some_iff {lead s rest : Text} :
    dropLead lead s = some rest ↔ s = lead ++ rest := by
  induction lead generalizing s with
  | nil => simp [dropLead, eq_comm]
  | cons c lead ih =>
    cases s with
    | nil => simp [dropLead]
    | cons d s =>
      by_cases h : c = d
      · simp [dropLead, h, ih]
      · simp [dropLead, h, Ne.symm h]

/-- Cuts a text just after the first occurrence of `mark`. -/
def cutAfter (mark s : Text) : Option (Text × Text) :=
  match dropLead mark s with
  | some rest => some (mark, rest)
  | none =>
    match s with
    | [] => none
    | c :: s => (cutAfter mark s).map fun (upTo, rest) => (c :: upTo, rest)

def holds (mark s : Text) : Bool := (cutAfter mark s).isSome

theorem append_of_cutAfter {mark s upTo rest : Text}
    (h : cutAfter mark s = some (upTo, rest)) : upTo ++ rest = s := by
  fun_induction cutAfter mark s generalizing upTo with
  | case1 s rest' hd =>
    cases h
    exact (dropLead_eq_some_iff.1 hd).symm
  | case2 => cases h
  | case3 c s _ ih =>
    obtain ⟨⟨u, r⟩, hs, he⟩ := Option.map_eq_some_iff.1 h
    cases he
    simp [ih hs]

theorem mark_suffix_of_cutAfter {mark s upTo rest : Text}
    (h : cutAfter mark s = some (upTo, rest)) : mark <:+ upTo := by
  fun_induction cutAfter mark s generalizing upTo with
  | case1 => cases h; exact List.suffix_refl _
  | case2 => cases h
  | case3 c s _ ih =>
    obtain ⟨⟨u, r⟩, hs, he⟩ := Option.map_eq_some_iff.1 h
    cases he
    exact (ih hs).trans (List.suffix_cons c u)

/-- Drops the longest end whose characters all satisfy `p`. -/
def dropEndWhile (p : Char → Bool) (s : Text) : Text := (s.reverse.dropWhile p).reverse

/-- The pieces of a text between the characters `mark`; there is always a last one. -/
def splitOn (mark : Char) : Text → List Text
  | [] => [[]]
  | c :: s =>
    if c = mark then [] :: splitOn mark s
    else
      match splitOn mark s with
      | [] => [[c]]
      | piece :: more => (c :: piece) :: more

/-- A line without the carriage return that stood before its line feed. -/
def dropReturn (line : Text) : Text :=
  if line.getLast? = some '\r' then line.dropLast else line

/-- The lines among the pieces of a text between line feeds. Only a piece that a line feed ended
loses a carriage return, and an empty last piece is no line. -/
def linesOfPieces : List Text → List Text
  | [] => []
  | [last] => if last = [] then [] else [last]
  | piece :: more => dropReturn piece :: linesOfPieces more

def lines (s : Text) : List Text := linesOfPieces (splitOn '\n' s)

/-- Pads a text on the right with spaces to `width` characters. -/
def padEnd (width : Nat) (s : Text) : Text := s ++ List.replicate (width - s.length) ' '

end Text
end WikiDocs

import WikiDocs.Table
import WikiDocs.Text.Blank
import WikiDocs.Text.Word

/-!
Tables out of their markup. Every line of the markup says one thing: a row
ends, a cell stands here, or nothing that matters.
-/

namespace WikiDocs.Table

open Text

/-- What a line of table markup says. -/
inductive MarkupLine where
  /-- The row ends. -/
  | rowSeparator
  /-- Attributes without content. -/
  | directive
  | cell (text : Text)
  | spanningCell (text : Text) (span : Nat)
  /-- Nothing that is known. -/
  | ignored
  deriving DecidableEq

def dropAll (c : Char) (s : Text) : Text := s.dropWhile (· == c)

def dropAllEnd (c : Char) (s : Text) : Text := dropEndWhile (· == c) s

/-- A line without its frame: braces outside, then backslashes, then blanks. -/
def unframe (line : Text) : Text :=
  trim (dropAllEnd '\\' (dropAll '\\' (dropAllEnd '\x7d' (dropAll '\x7b' line))))

/-- The widest span that a directive may ask for. -/
def maxSpan : Nat := 64

/-- Whether a line ends the row: a bar and exactly one hyphen. -/
def isRowSeparator : Text → Bool
  | '|' :: '-' :: '-' :: _ => false
  | '|' :: '-' :: _ => true
  | _ => false

def dropQuote : Text → Text
  | '\'' :: s => s
  | '"' :: s => s
  | s => s

/-- Whether a character separates the attributes of a cell from its text. -/
def isFence (c : Char) : Bool := c == ' ' || c == '\\' || c == '|'

/-- The numeral of an attribute value that begins a text, and the text after its fence. -/
def valueAt? : Text → Option (Text × Text)
  | '=' :: s =>
    let s := dropQuote s
    let digits := s.takeWhile isDigit
    let s := dropQuote (s.dropWhile isDigit)
    if digits ≠ [] ∧ s.takeWhile isFence ≠ [] then some (digits, s.dropWhile isFence) else none
  | _ => none

/-- The first numeral of an attribute value in a text, and the text after its fence. -/
def value? (s : Text) : Option (Text × Text) :=
  match valueAt? s with
  | some found => some found
  | none =>
    match s with
    | [] => none
    | _ :: s => value? s

def numeral (digits : Text) : Nat := digits.foldl (fun n c => n * 10 + (c.toNat - '0'.toNat)) 0

/-- The span and the text of a spanning cell, if the first value on the line is a usable span. -/
def spanned? (line : Text) : Option (Nat × Text) :=
  match value? line with
  | some (digits, text) =>
    if 1 ≤ numeral digits ∧ numeral digits ≤ maxSpan then some (numeral digits, trim text)
    else none
  | none => none

/-- The cell of one column that a line holds, if it begins as one. -/
def plainCell : Text → MarkupLine
  | '!' :: s => .cell (trim s)
  | '|' :: s => .cell (trim s)
  | _ => .ignored

/-- Whether a line without its frame asks for a span and is not taken for something else. -/
def asksForSpan (line : Text) : Bool :=
  !isRowSeparator line && !holds "class=".toList line && holds "colspan=".toList line

def classify (markup : Text) : MarkupLine :=
  let line := unframe markup
  if isRowSeparator line then .rowSeparator
  else if holds "class=".toList line then .directive
  else if holds "colspan=".toList line then
    match spanned? line with
    | some (span, text) => .spanningCell text span
    | none => plainCell line
  else plainCell line

/-- A line of markup, without its frame, whose request for a span cannot be met. -/
def badSpan? (markup : Text) : Option Text :=
  let line := unframe markup
  if asksForSpan line && (spanned? line).isNone then some line else none

/-- The rows that lines of markup make after the cells `row` of a row that is not yet ended. -/
def rowsFrom (row : List Cell) : List MarkupLine → List Row
  | [] => [⟨row⟩]
  | .rowSeparator :: lines =>
    if row.isEmpty then rowsFrom [] lines else ⟨row⟩ :: rowsFrom [] lines
  | .cell text :: lines => rowsFrom (row ++ [Cell.plain text]) lines
  | .spanningCell text span :: lines => rowsFrom (row ++ [Cell.spanning text span]) lines
  | .directive :: lines => rowsFrom row lines
  | .ignored :: lines => rowsFrom row lines

/-- The table of a markup text, without empty cells and rows. -/
def ofMarkup (source : Text) : Table :=
  prune { rows := rowsFrom [] ((lines source).map classify) }

/-- The lines of a markup text whose requests for a span cannot be met. -/
def badSpans (source : Text) : List Text := (lines source).filterMap badSpan?

end WikiDocs.Table

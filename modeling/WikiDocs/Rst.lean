import WikiDocs.Token

/-!
Fragments of reStructuredText: headings, banners, list markers, image blocks,
and the finishing of a line of text. A fragment is a list of lines.
-/

namespace WikiDocs.Rst

/-- A heading underlined to its length, and a blank line. -/
def heading (level : Token.Level) (text : Text) : List Text :=
  [text, List.replicate text.length level.underline, []]

/-- The title of a document between two rules, and a blank line. -/
def banner (title : Text) : List Text :=
  let rule := List.replicate title.length '#'
  [rule, title, rule, []]

/-- The marker of a list item below `depth` others: three spaces for each, a hyphen, a space. -/
def listMarker (depth : Nat) : Text := List.replicate (3 * depth) ' ' ++ ['-', ' ']

/-- An image with its width and its label, between blank lines. -/
def image (directory path width label : Text) : List Text :=
  [[], ".. image:: ".toList ++ directory ++ path, "   :width: ".toList ++ width,
    "   :alt: ".toList ++ label, []]

/-- The line of a build script that renders the file `source` into the file `rendered`. -/
def buildCommand (command source rendered : Text) : Text :=
  command ++ [' '] ++ source ++ [' ', '>', ' '] ++ rendered

/-- Drops the backslash at the end of a line, unless another one stands before it. -/
def dropContinuation (line : Text) : Text :=
  if ['\\'] <:+ line ∧ ¬ ['\\', '\\'] <:+ line then line.dropLast else line

/-- The positions, counted from `position`, of the asterisks without a backslash right before
them; `escaped` tells whether one precedes the text. -/
def starsFrom (position : Nat) (escaped : Bool) : Text → List Nat
  | [] => []
  | c :: line =>
    let later := starsFrom (position + 1) (c == '\\') line
    if c = '*' ∧ escaped = false then position :: later else later

def stars (line : Text) : List Nat := starsFrom 0 false line

/-- Drops the last unescaped asterisk if their number is odd, so that they pair. -/
def pairStars (line : Text) : Text :=
  if (stars line).length % 2 = 1 then line.eraseIdx ((stars line).getLastD 0) else line

/-- A line of running text as it is written: without a continuation, with paired asterisks. -/
def finishLine (line : Text) : Text := pairStars (dropContinuation line)

end WikiDocs.Rst

import WikiDocs.Text.Blank

/-!
The normal form of a physical line: literal `\n` escapes are line breaks that
keep the indentation of the line, and typographic characters are spelled with
plain ones.
-/

namespace WikiDocs.Line

open Text

def indentation (line : Text) : Nat := (line.takeWhile isBlank).length

/-- Replaces each backslash that an `n` follows, and that `n`, by `lineBreak`. -/
def expandEscapes (lineBreak : Text) : Text → Text
  | [] => []
  | [c] => [c]
  | c :: d :: line =>
    if c = '\\' ∧ d = 'n' then lineBreak ++ expandEscapes lineBreak line
    else c :: expandEscapes lineBreak (d :: line)

/-- The typographic characters and their plain spellings. -/
def substitutions : List (Char × Text) := [
  ('\u2212', ['-']),
  ('\u2013', ['-', '-']),
  ('\u2014', ['-', '-', '-']),
  ('\u2026', ['.', '.', '.']),
  ('\u201C', ['"']),
  ('\u201D', ['"']),
  ('\u2018', ['\'']),
  ('\u2019', ['\'']),
  ('\u2009', [' ']),
  ('\u0127', ['h', '-', 'b', 'a', 'r']),
  ('\u03B1', ['a', 'l', 'p', 'h', 'a']),
  ('\u03BC', ['m', 'u'])]

/-- The plain spelling of a character; most characters stand for themselves. -/
def plain (c : Char) : Text := (substitutions.lookup c).getD [c]

def substitute (line : Text) : Text := line.flatMap plain

/-- The line break that an escape on a line stands for. -/
def lineBreak (line : Text) : Text := '\n' :: List.replicate (indentation line) ' '

/-- The normal form of a line; escapes stay as they are unless `expand` is set. -/
def normalize (expand : Bool) (line : Text) : Text :=
  substitute (if expand then expandEscapes (lineBreak line) line else line)

end WikiDocs.Line

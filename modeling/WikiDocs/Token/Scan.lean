import WikiDocs.Text.Blank
import WikiDocs.Text.Word
import WikiDocs.Token

/-!
Finding tokens. Each kind has a recogniser for tokens that begin a text; the
token of a text is the leftmost one, of the kind with the highest priority
there. Every token takes a character that is neither a space nor a hyphen,
so a text from which tokens are taken runs out of them.
-/

namespace WikiDocs

open Text

/-- The number of characters of a text other than spaces and hyphens. -/
def Text.substance (s : Text) : Nat := s.countP fun c => c != ' ' && c != '-'

theorem Text.substance_append (s t : Text) :
    (s ++ t).substance = s.substance + t.substance := List.countP_append

namespace Token

/-- Splits a date stamp off a text: a day between 2000 and 2039, and all digits after it. -/
def stamp? : Text → Option (Text × Text)
  | '2' :: '0' :: y₁ :: y₂ :: m₁ :: m₂ :: d₁ :: s =>
    let more := s.takeWhile isDigit
    if '0' ≤ y₁ ∧ y₁ ≤ '3' ∧ isDigit y₂ ∧ (m₁ = '0' ∨ m₁ = '1') ∧ isDigit m₂ ∧
        '0' ≤ d₁ ∧ d₁ ≤ '3' ∧ more ≠ [] then
      some ('2' :: '0' :: y₁ :: y₂ :: m₁ :: m₂ :: d₁ :: more, s.dropWhile isDigit)
    else none
  | _ => none

/-- A whole word, blanks and a date stamp. -/
def pageBreak? (s : Text) : Option Lexeme :=
  let title := s.takeWhile isWord
  let s := s.dropWhile isWord
  let gap := s.takeWhile isBlank
  if title = [] ∨ gap = [] then none
  else (stamp? (s.dropWhile isBlank)).map fun (stamp, after) =>
    ⟨.pageBreak title, title ++ gap ++ stamp, after⟩

/-- Exactly the signs of the level before a text without signs, at least as many after it. -/
def heading? (level : Level) (s : Text) : Option Lexeme :=
  let gap := s.takeWhile isBlank
  let s := s.dropWhile isBlank
  let opening := s.takeWhile (· == '=')
  let s := s.dropWhile (· == '=')
  let text := s.takeWhile (· != '=')
  let s := s.dropWhile (· != '=')
  if opening.length = level.signs ∧ text ≠ [] ∧ level.signs ≤ (s.takeWhile (· == '=')).length then
    some ⟨.heading level (trim text), gap ++ opening ++ text ++ s.take level.signs,
      s.drop level.signs⟩
  else none

/-- A character of which list markers are made. -/
def isMark (c : Char) : Bool := c == '\\' || c == '*'

/-- A run of marks with an asterisk among them, and the blanks after it. -/
def listItem? (s : Text) : Option Lexeme :=
  let marks := s.takeWhile isMark
  let s := s.dropWhile isMark
  if '*' ∈ marks then
    some ⟨.listItem (marks.count '*' - 1), marks ++ s.takeWhile isBlank, s.dropWhile isBlank⟩
  else none

/-- Two colons with the blanks before them. -/
def literalBlock? (s : Text) : Option Lexeme :=
  (dropLead [':', ':'] (s.dropWhile isBlank)).map fun after =>
    ⟨.literalBlock, s.takeWhile isBlank ++ [':', ':'], after⟩

/-- A brace and a bar; a backslash may stand between them. -/
def tableStart? : Text → Option Lexeme
  | '\x7b' :: '|' :: after => some ⟨.tableStart, ['\x7b', '|'], after⟩
  | '\x7b' :: '\\' :: '|' :: after => some ⟨.tableStart, ['\x7b', '\\', '|'], after⟩
  | _ => none

/-- The label of an image out of the text between its width and its path. That text begins with
blanks or with a bar among blanks, and the label takes the rest but never nothing: where nothing
would be left for it, it takes the last character that the separation can spare. -/
def label? (caption : Text) : Option Text :=
  let gap := caption.takeWhile isBlank
  match caption.dropWhile isBlank with
  | [] => if 2 ≤ gap.length then some (gap.drop (gap.length - 1)) else none
  | c :: s =>
    if c = '|' then
      let gap₂ := s.takeWhile isBlank
      let label := s.dropWhile isBlank
      if label ≠ [] then some label
      else if gap₂ ≠ [] then some (gap₂.drop (gap₂.length - 1))
      else if gap ≠ [] then some ['|']
      else none
    else if gap ≠ [] then some (c :: s)
    else none

def imageLead : Text := "\\ `".toList
def imagePixels : Text := ['p', 'x']
def imagePath : Text := "<image:".toList
def imageEnd : Text := ">`__".toList

/-- An image: width, label and path between their marks. -/
def image? (s : Text) : Option Lexeme := do
  let s ← dropLead imageLead s
  let digits := s.takeWhile isDigit
  guard (digits ≠ [])
  let s ← dropLead imagePixels (s.dropWhile isDigit)
  let caption := s.takeWhile (· != '<')
  let label ← label? caption
  let s ← dropLead imagePath (s.dropWhile (· != '<'))
  let path := s.takeWhile (· != '>')
  guard (path ≠ [])
  let after ← dropLead imageEnd (s.dropWhile (· != '>'))
  pure ⟨.image (digits ++ imagePixels) (trim label) path,
    imageLead ++ digits ++ imagePixels ++ caption ++ imagePath ++ path ++ imageEnd, after⟩

def newline? : Text → Option Lexeme
  | '\n' :: after => some ⟨.newline, ['\n'], after⟩
  | _ => none

/-- The token of a kind that begins a text. `start` tells whether nothing precedes the text. -/
def Kind.lexeme? (kind : Kind) (start : Bool) (s : Text) : Option Lexeme :=
  match kind with
  | .pageBreak => pageBreak? s
  | .title => if start then heading? .title s else none
  | .subtitle => if start then heading? .subtitle s else none
  | .minorTitle => if start then heading? .minorTitle s else none
  | .listItem => if start then listItem? s else none
  | .literalBlock => literalBlock? s
  | .tableStart => tableStart? s
  | .image => image? s
  | .newline => newline? s

/-- The token that begins a text, of the kind with the highest priority. -/
def lexeme? (start : Bool) (s : Text) : Option Lexeme :=
  Kind.all.findSome? fun kind => kind.lexeme? start s

/-- The leftmost token of `s`, where the characters `passed` precede it, the last one first. -/
def findFrom? (passed s : Text) : Option Match :=
  match lexeme? passed.isEmpty s with
  | some l => some { l with before := passed.reverse }
  | none =>
    match s with
    | [] => none
    | c :: s => findFrom? (c :: passed) s

/-- The leftmost token of a text. -/
def find? (s : Text) : Option Match := findFrom? [] s

/-- Whether a line begins with a token that only begins a text: a heading or a list item. -/
def startsBlock (line : Text) : Bool :=
  Kind.all.any fun kind => kind.atStart && (kind.lexeme? true line).isSome

/-- The mark that closes a table. -/
def tableEnd : Text := ['|', '\x7d']

/-- Cuts a text that begins with a table just after the table. -/
def cutTable? (s : Text) : Option (Text × Text) := cutAfter tableEnd s

end Token
end WikiDocs

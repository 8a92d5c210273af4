import WikiDocs.Text

/-!
Tokens of the wiki markup, their nine kinds in order of priority, and a token
together with the text around it.
-/

namespace WikiDocs

namespace Token

/-- The kinds of token. Where two kinds match at the same place the earlier one wins. -/
inductive Kind where
  /-- A word followed by a date stamp; it opens a document named by the word. -/
  | pageBreak
  /-- Three signs, text, three signs. -/
  | title
  /-- Two signs, text, two signs. -/
  | subtitle
  /-- One sign, text, one sign. -/
  | minorTitle
  /-- A leading run of asterisks, some possibly behind backslashes. -/
  | listItem
  | literalBlock
  /-- The opening of a table. -/
  | tableStart
  /-- An image inside the text. -/
  | image
  | newline
  deriving DecidableEq, Inhabited

namespace Kind

/-- All kinds in order of priority. -/
def all : List Kind :=
  [pageBreak, title, subtitle, minorTitle, listItem, literalBlock, tableStart, image, newline]

theorem mem_all (kind : Kind) : kind ∈ all := by cases kind <;> decide

/-- The place of a kind in the order of priority. -/
def priority (kind : Kind) : Nat := all.idxOf kind

/-- Whether tokens of a kind occur only at the start of a text. -/
def atStart : Kind → Bool
  | title | subtitle | minorTitle | listItem => true
  | pageBreak | literalBlock | tableStart | image | newline => false

/-- The name of a kind in notices. -/
def name : Kind → String
  | pageBreak => "newpage"
  | title => "title"
  | subtitle => "subtitle"
  | minorTitle => "minortitle"
  | listItem => "list"
  | literalBlock => "literal"
  | tableStart => "table"
  | image => "image"
  | newline => "newline"

/-- The name of a kind in reports. -/
def key : Kind → String
  | pageBreak => "page_break"
  | title => "title"
  | subtitle => "subtitle"
  | minorTitle => "minor_title"
  | listItem => "list_item"
  | literalBlock => "literal_block"
  | tableStart => "table_start"
  | image => "image"
  | newline => "escaped_newline"

def ofKey? (key : String) : Option Kind := all.find? (·.key == key)

end Kind

inductive Level where
  | title
  | subtitle
  | minorTitle
  deriving DecidableEq

namespace Level

def signs : Level → Nat
  | title => 3
  | subtitle => 2
  | minorTitle => 1

def underline : Level → Char
  | title => '*'
  | subtitle => '='
  | minorTitle => '-'

def kind : Level → Kind
  | title => .title
  | subtitle => .subtitle
  | minorTitle => .minorTitle

end Level
end Token

/-- A token with what it holds. Heading texts and image labels are trimmed. -/
inductive Token where
  | pageBreak (title : Text)
  | heading (level : Token.Level) (text : Text)
  /-- An item below `depth` others. -/
  | listItem (depth : Nat)
  | literalBlock
  | tableStart
  | image (width label path : Text)
  | newline
  deriving DecidableEq

namespace Token

def kind : Token → Kind
  | pageBreak _ => .pageBreak
  | heading level _ => level.kind
  | listItem _ => .listItem
  | literalBlock => .literalBlock
  | tableStart => .tableStart
  | image _ _ _ => .image
  | newline => .newline

/-- A token where it begins: the text it takes and the text after it. -/
structure Lexeme where
  token : Token
  taken : Text
  after : Text
  deriving DecidableEq

/-- A token inside a text, with the text before it. -/
structure Match extends Lexeme where
  before : Text
  deriving DecidableEq

namespace Match

/-- The text in which the token was found. -/
def whole (m : Match) : Text := m.before ++ m.taken ++ m.after

/-- The byte offset at which the token starts. -/
def start (m : Match) : Nat := m.before.byteSize

/-- The byte offset just past the token. -/
def stop (m : Match) : Nat := m.start + m.taken.byteSize

end Match
end Token
end WikiDocs

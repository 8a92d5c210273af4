import WikiDocs.Text

/-!
Reports as JSON: values without fractions, written on one line or indented.
-/

namespace WikiDocs

/-- A JSON value; the fields of an object keep their order. -/
inductive Json where
  | number (n : Nat)
  | string (s : String)
  | array (items : List Json)
  | object (fields : List (String × Json))

namespace Json

/-- A number below 256 in two hexadecimal digits. -/
def twoHexDigits (n : Nat) : Text := [(n / 16).digitChar, (n % 16).digitChar]

/-- A character inside a string. Quotes, backslashes and controls are escaped; all else stands
for itself. -/
def escaped (c : Char) : Text :=
  if c = '"' then ['\\', '"']
  else if c = '\\' then ['\\', '\\']
  else if c = '\n' then ['\\', 'n']
  else if c = '\r' then ['\\', 'r']
  else if c = '\t' then ['\\', 't']
  else if c = '\x08' then ['\\', 'b']
  else if c = '\x0c' then ['\\', 'f']
  else if c.toNat < 0x20 then ['\\', 'u', '0', '0'] ++ twoHexDigits c.toNat
  else [c]

def writtenString (s : String) : String :=
  "\"" ++ String.ofList (s.toList.flatMap escaped) ++ "\""

/-- What opens an object, and what closes it. -/
def braces : String × String := ("\x7b", "\x7d")

mutual

/-- A value on one line, without spaces. -/
def compact : Json → String
  | number n => toString n
  | string s => writtenString s
  | array items => "[" ++ compactItems items ++ "]"
  | object fields => braces.1 ++ compactFields fields ++ braces.2

def compactItems : List Json → String
  | [] => ""
  | [item] => item.compact
  | item :: items => item.compact ++ "," ++ compactItems items

def compactFields : List (String × Json) → String
  | [] => ""
  | [(key, value)] => writtenString key ++ ":" ++ value.compact
  | (key, value) :: fields =>
    writtenString key ++ ":" ++ value.compact ++ "," ++ compactFields fields

end

/-- A new line, indented by `depth` steps of two spaces. -/
def newLine (depth : Nat) : String := "\n" ++ String.ofList (List.replicate (2 * depth) ' ')

mutual

/-- A value over several lines: each item and field has a line of its own, indented by two spaces
more than what holds it. Empty arrays and objects stay on one line. -/
def pretty (depth : Nat) : Json → String
  | number n => toString n
  | string s => writtenString s
  | array [] => "[]"
  | array items => "[" ++ prettyItems (depth + 1) items ++ newLine depth ++ "]"
  | object [] => braces.1 ++ braces.2
  | object fields => braces.1 ++ prettyFields (depth + 1) fields ++ newLine depth ++ braces.2

def prettyItems (depth : Nat) : List Json → String
  | [] => ""
  | [item] => newLine depth ++ item.pretty depth
  | item :: items => newLine depth ++ item.pretty depth ++ "," ++ prettyItems depth items

def prettyFields (depth : Nat) : List (String × Json) → String
  | [] => ""
  | [(key, value)] => newLine depth ++ writtenString key ++ ": " ++ value.pretty depth
  | (key, value) :: fields =>
    newLine depth ++ writtenString key ++ ": " ++ value.pretty depth ++ "," ++
      prettyFields depth fields

end

end Json
end WikiDocs

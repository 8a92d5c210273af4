import WikiDocs.Text
import WikiDocs.Text.Printable

/-!
Quoted characters and quoted texts: the form in which messages show text of
which the reader has to see every character.
-/

namespace WikiDocs.Text

/-- A code point in lower-case hexadecimal digits, without leading zeros. -/
def hexDigits (c : Char) : Text := Nat.toDigits 16 c.toNat

/-- A character as it stands between two characters `quote`. The quote and the backslash get a
backslash, five controls have letters (or the digit 0), and what cannot be seen on its own is
given by its code point. -/
def escaped (quote c : Char) : Text :=
  if c = '\x00' then ['\\', '0']
  else if c = '\t' then ['\\', 't']
  else if c = '\r' then ['\\', 'r']
  else if c = '\n' then ['\\', 'n']
  else if c = quote ∨ c = '\\' then ['\\', c]
  else if extendsGrapheme c || !isPrintable c then ['\\', 'u', '\x7b'] ++ hexDigits c ++ ['\x7d']
  else [c]

def quotedChar (c : Char) : Text := ['\''] ++ escaped '\'' c ++ ['\'']

def quoted (s : Text) : Text := ['"'] ++ s.flatMap (escaped '"') ++ ['"']

end WikiDocs.Text

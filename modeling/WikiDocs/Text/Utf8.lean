import WikiDocs.Text

/-!
Reading bytes as UTF-8. The strict reading refuses a byte string that is not
well formed; the lenient reading puts the replacement character U+FFFD for
each maximal part that no well-formed text continues.
-/

namespace WikiDocs.Text.Utf8

/-- What the bytes read so far ask for: the start of a character, or `owed` more continuation
bytes of which the next lies between `low` and `high`, with the bits collected so far. -/
inductive State where
  | start
  | inside (owed : Nat) (low high : UInt8) (bits : Nat)

/-- The character that stands for bytes that cannot be read. -/
def replacement : Char := Char.ofNat 0xFFFD

/-- Reads the first byte of a character: what it yields, and what is asked for after it. -/
def first (b : UInt8) : Text × State :=
  let n := b.toNat
  if n < 0x80 then ([Char.ofNat n], .start)
  else if n < 0xC2 then ([replacement], .start)
  else if n < 0xE0 then ([], .inside 1 0x80 0xBF (n - 0xC0))
  else if n = 0xE0 then ([], .inside 2 0xA0 0xBF 0)
  else if n = 0xED then ([], .inside 2 0x80 0x9F 0xD)
  else if n < 0xF0 then ([], .inside 2 0x80 0xBF (n - 0xE0))
  else if n = 0xF0 then ([], .inside 3 0x90 0xBF 0)
  else if n < 0xF4 then ([], .inside 3 0x80 0xBF (n - 0xF0))
  else if n = 0xF4 then ([], .inside 3 0x80 0x8F 4)
  else ([replacement], .start)

/-- Reads one byte. A byte that cannot continue the character begun before it ends that part and
is read as a first byte. -/
def step : State → UInt8 → Text × State
  | .start, b => first b
  | .inside owed low high bits, b =>
    if low ≤ b ∧ b ≤ high then
      let bits := bits * 64 + (b.toNat - 0x80)
      if owed ≤ 1 then ([Char.ofNat bits], .start) else ([], .inside (owed - 1) 0x80 0xBF bits)
    else
      let (yielded, state) := first b
      (replacement :: yielded, state)

/-- Reads bytes from a state on; a character that the bytes break off is replaced too. -/
def lenientFrom : State → List UInt8 → Text
  | .start, [] => []
  | .inside .., [] => [replacement]
  | state, b :: bytes =>
    let (yielded, state) := step state b
    yielded ++ lenientFrom state bytes

/-- The lenient reading of a byte string. -/
def lenient (bytes : List UInt8) : Text := lenientFrom .start bytes

/-- The strict reading of a byte string. -/
def strict? (bytes : List UInt8) : Option Text :=
  (String.fromUTF8? ⟨bytes.toArray⟩).map String.toList

def encode (s : Text) : ByteArray := (String.ofList s).toUTF8

end WikiDocs.Text.Utf8

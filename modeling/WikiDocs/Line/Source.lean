import WikiDocs.Error
import WikiDocs.Line.Normal
import WikiDocs.Text.Utf8

/-!
Physical lines out of bytes. A byte string is cut after each line feed; every
piece is read as UTF-8 and brought to normal form. A piece that is not UTF-8 is
passed over with an error and is not counted.
-/

namespace WikiDocs.Line

open Text

def lineFeed : UInt8 := 10

/-- Splits a byte string after its first line feed. -/
def cutPiece (bytes : List UInt8) : List UInt8 × List UInt8 :=
  match bytes.dropWhile (· != lineFeed) with
  | [] => (bytes, [])
  | b :: rest => (bytes.takeWhile (· != lineFeed) ++ [b], rest)

theorem cutPiece_append (bytes : List UInt8) :
    (cutPiece bytes).1 ++ (cutPiece bytes).2 = bytes := by
  have h := List.takeWhile_append_dropWhile (p := (· != lineFeed)) (l := bytes)
  unfold cutPiece
  split
  · simp
  · rename_i b rest hd
    rw [hd] at h
    simpa using h

theorem cutPiece_rest_lt {bytes : List UInt8} (h : bytes ≠ []) :
    (cutPiece bytes).2.length < bytes.length := by
  have hl := congrArg List.length (cutPiece_append bytes)
  have hp : (cutPiece bytes).1 ≠ [] := by
    unfold cutPiece
    split <;> simp [h]
  have := List.length_pos_iff.2 hp
  rw [List.length_append] at hl
  omega

/-- A line without its line feed and without the carriage return before that. -/
def dropTerminator (line : Text) : Text :=
  if line.getLast? = some '\n' then dropReturn line.dropLast else line

def ofPiece (expand : Bool) (piece : List UInt8) : Except Cause Text :=
  match Utf8.strict? piece with
  | none => .error .invalidUtf8
  | some line => .ok (normalize expand (dropTerminator line))

/-- A reader of physical lines: the bytes not yet read, the number of lines given out, and
whether escapes are expanded. -/
structure Source where
  unread : List UInt8
  lineNumber : Nat := 0
  expand : Bool := true

namespace Source

/-- Reads the next line. There is none after the last piece, and asking again changes nothing. -/
def next (source : Source) : Except Error (Option Text) × Source :=
  match source.unread with
  | [] => (.ok none, source)
  | b :: bytes =>
    let (piece, unread) := cutPiece (b :: bytes)
    match ofPiece source.expand piece with
    | .error cause => (.error (.io cause), { source with unread })
    | .ok line => (.ok (some line), { source with unread, lineNumber := source.lineNumber + 1 })

end Source

def pieces (bytes : List UInt8) : List (List UInt8) :=
  if _ : bytes = [] then []
  else (cutPiece bytes).1 :: pieces (cutPiece bytes).2
termination_by bytes.length
decreasing_by exact cutPiece_rest_lt ‹_›

end WikiDocs.Line

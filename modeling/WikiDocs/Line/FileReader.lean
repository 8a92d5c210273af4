import WikiDocs.Line.Source
import WikiDocs.Sink.Directory

/-!
Physical lines out of a file that may change while it is read. The file is
read a buffer at a time, only when the buffer holds no whole line.
-/

namespace WikiDocs.Line

/-- A file open for reading: the bytes read from it and not yet given out, and where to read
on. After the end was met nothing more is read. -/
structure FileReader where
  place : Place
  offset : Nat := 0
  buffer : List UInt8 := []
  ended : Bool := false

namespace FileReader

/-- The number of bytes taken from a file to get `missing` more bytes: whole buffers, as far as
there is something to read. -/
def fetched (missing available : Nat) : Nat :=
  min (((missing + bufferSize - 1) / bufferSize) * bufferSize) available

/-- The next piece of a file, a line with its terminator. A line without a terminator is given
out when the end of the file is met. -/
def next (tree : FileTree) (reader : FileReader) : Option (List UInt8) × FileReader :=
  if reader.ended then (none, reader)
  else if lineFeed ∈ reader.buffer then
    let (piece, buffer) := cutPiece reader.buffer
    (some piece, { reader with buffer })
  else
    let content := tree.content reader.place
    let unread := (content.extract reader.offset content.size).data.toList
    let (found, rest) := cutPiece unread
    let piece := reader.buffer ++ found
    if piece.isEmpty then (none, { reader with ended := true })
    else
      let taken := fetched found.length unread.length
      (some piece,
        { reader with offset := reader.offset + taken, buffer := rest.take (taken - found.length) })

end FileReader
end WikiDocs.Line

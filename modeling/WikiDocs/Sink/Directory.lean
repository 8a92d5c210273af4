import WikiDocs.FileTree
import WikiDocs.Sink
import WikiDocs.Text.Utf8

/-!
A directory as a sink, and a file as an input. Files are written through
buffers of their own, each at its own offset, so that two open files at one
place write over each other; a file is read a buffer at a time, and what is
read is what stands there by then.

A file can be refused when it is opened, by its path. Writes to an open file,
flushes and the change of mode of a build script that is there always succeed:
there is no full disk, no limit to a file, no file taken away meanwhile and no
owner who alone may change a mode.
-/

namespace WikiDocs

structure Directory where
  tree : FileTree
  path : String

/-- A file open for writing: the bytes not yet written, and where they go. -/
structure BufferedFile where
  place : Place
  offset : Nat := 0
  buffer : ByteArray := .empty

/-- The number of bytes that a buffer holds. -/
def bufferSize : Nat := 8192

namespace BufferedFile

/-- Writes bytes past the buffer. -/
def writeThrough (tree : FileTree) (file : BufferedFile) (bytes : ByteArray) :
    FileTree × BufferedFile :=
  (tree.writeAt file.place file.offset bytes, { file with offset := file.offset + bytes.size })

def flush (tree : FileTree) (file : BufferedFile) : FileTree × BufferedFile :=
  if file.buffer.isEmpty then (tree, file)
  else
    let (tree, file) := writeThrough tree file file.buffer
    (tree, { file with buffer := .empty })

/-- Writes bytes: into the buffer if there is room, or else after writing what it holds. Bytes
that fill a whole buffer are not buffered. -/
def write (tree : FileTree) (file : BufferedFile) (bytes : ByteArray) : FileTree × BufferedFile :=
  let room := bufferSize - file.buffer.size
  if bytes.size < room then (tree, { file with buffer := file.buffer ++ bytes })
  else
    let (tree, file) := if room < bytes.size then flush tree file else (tree, file)
    if bufferSize ≤ bytes.size then writeThrough tree file bytes
    else (tree, { file with buffer := file.buffer ++ bytes })

end BufferedFile

namespace Directory

def create (directory : Directory) (name : String) : Except Cause (Directory × BufferedFile) :=
  match directory.tree.creationPlace (FileTree.join directory.path name) with
  | .error cause => .error cause
  | .ok place => .ok ({ directory with tree := directory.tree.truncate place }, { place })

/-- Writes a line, and then the line feed. -/
def writeLine (directory : Directory) (file : BufferedFile) (line : Text) :
    Directory × BufferedFile :=
  let (tree, file) := file.write directory.tree (Text.Utf8.encode line)
  let (tree, file) := file.write tree (Text.Utf8.encode ['\n'])
  ({ directory with tree }, file)

/-- Lets everybody execute the build script. A script that is there can be given the mode. -/
def finishScript (directory : Directory) (name : String) : Directory × Except Cause Unit :=
  match directory.tree.filePlace? (FileTree.join directory.path name) with
  | none => (directory, .error .noSuchEntry)
  | some place => ({ directory with tree := directory.tree.makeExecutable place }, .ok ())

end Directory

instance : Sink Directory BufferedFile where
  create := Directory.create
  writeLine := Directory.writeLine
  flush directory file :=
    let (tree, file) := file.flush directory.tree
    ({ directory with tree }, file)
  finishScript := Directory.finishScript

end WikiDocs

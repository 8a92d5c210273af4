import WikiDocs.Line.FileReader
import WikiDocs.Session

/-!
Converting a file into documents of a directory. Both have to exist. The input
is read while the documents are written, so a document that is the input file
itself changes what is read. Once open, the input can be read to its end and
the documents take all that is written to them.
-/

namespace WikiDocs

namespace FileConversion

/-- How many lines are read beyond those that a file of the given size can have. Only a file
that is written while it is read has more lines, and it could go on for ever. -/
def spareLines : Nat := 65536

/-- Reads a file to its end, at most `limit` lines of it. -/
def readAll (limit : Nat) (reader : Line.FileReader) (session : Session Directory BufferedFile) :
    Outcome Directory Summary :=
  match limit with
  | 0 => session.finish
  | limit + 1 =>
    match reader.next session.registry.sink.tree with
    | (none, _) => session.finish
    | (some piece, reader) =>
      (session.read piece).andThen Session.release fun session _ => readAll limit reader session

/-- The title of the first document: unless one is configured, the stem of the input's name. -/
def firstTitle (options : Options) (input : String) : String :=
  match options.firstTitle with
  | some title => title
  | none => ((FileTree.pathStem? input).map String.ofList).getD Options.defaultTitle

/-- Converts the file at a place into documents of a directory. -/
def convertPlace (directory : Directory) (options : Options) (title : String) (place : Place) :
    Outcome Directory Summary :=
  let limit := (directory.tree.content place).size + spareLines
  (Registry.start directory options title).andThen id
    fun _ registry => readAll limit { place } { registry }

end FileConversion

/-- Converts the file at the path `input` into documents of the directory at the path
`output`. -/
def convertFile (tree : FileTree) (options : Options) (input output : String) :
    Outcome FileTree Summary :=
  match tree.filePlace? input with
  | none => { state := tree, answer := .error (.inputNotFound input) }
  | some place =>
    if tree.isDirectory output then
      let title := FileConversion.firstTitle options input
      let o := FileConversion.convertPlace { tree, path := output } options title place
      { o with state := o.state.tree }
    else { state := tree, answer := .error (.outputDirNotFound output) }

end WikiDocs

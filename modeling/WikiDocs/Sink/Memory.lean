import WikiDocs.Sink
import WikiDocs.Text.Utf8

/-!
Files in memory, in the order in which their names first appeared. An open
file is its name: whatever holds it writes at the end of the file that the
name stands for then.
-/

namespace WikiDocs

structure MemoryFiles where
  files : List (String × ByteArray) := []

namespace MemoryFiles

/-- The names in the order of their first creation. -/
def names (store : MemoryFiles) : List String := store.files.map Prod.fst

def bytes? (store : MemoryFiles) (name : String) : Option ByteArray := store.files.lookup name

def contents? (store : MemoryFiles) (name : String) : Option Text :=
  (store.bytes? name).map fun bytes => Text.Utf8.lenient bytes.data.toList

/-- The lines of a file; none if it was never created. -/
def lines (store : MemoryFiles) (name : String) : List Text :=
  ((store.contents? name).map Text.lines).getD []

/-- Changes the bytes of the file `name`. -/
def modify (name : String) (change : ByteArray → ByteArray) :
    List (String × ByteArray) → List (String × ByteArray)
  | [] => []
  | (n, bytes) :: files =>
    if n = name then (n, change bytes) :: files else (n, bytes) :: modify name change files

/-- Makes a file empty; a new one goes to the end. -/
def create (store : MemoryFiles) (name : String) : MemoryFiles :=
  if name ∈ store.names then { files := modify name (fun _ => .empty) store.files }
  else { files := store.files ++ [(name, .empty)] }

def append (store : MemoryFiles) (name : String) (bytes : ByteArray) : MemoryFiles :=
  { files := modify name (· ++ bytes) store.files }

end MemoryFiles

/-- A file of a memory sink, held open by its name. -/
structure MemoryFile where
  name : String
  deriving DecidableEq

instance : Sink MemoryFiles MemoryFile where
  create store name := .ok (store.create name, ⟨name⟩)
  writeLine store file line :=
    (store.append file.name (Text.Utf8.encode (line ++ ['\n'])), file)
  flush store file := (store, file)
  finishScript store _ := (store, .ok ())

end WikiDocs

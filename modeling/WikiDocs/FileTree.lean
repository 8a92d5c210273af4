import WikiDocs.Error
import WikiDocs.Text

/-!
Files and directories below a working directory, and the paths that lead to
them. A place is a list of names from the working directory on; places above it
begin with the name "..", and those that are reached from the root of the file
system begin with the name "/". No entry has such a name.

There are no links, owners or permissions but the mark of a file that can be
executed, and no limit to the size of a file or of the whole. A path that can
be followed can be read and written, and nothing but the program changes the
tree.
-/

namespace WikiDocs

/-- The names that lead to a place from the working directory. -/
abbrev Place := List Text

inductive FileTree.Node where
  | directory
  | file (content : ByteArray) (executable : Bool)

/-- The entries below a working directory, in no particular order. Each is a directory or a file of
its own: no two places share a file. -/
structure FileTree where
  entries : List (Place × FileTree.Node) := []

namespace FileTree

def upName : Text := ['.', '.']
def hereName : Text := ['.']
def rootName : Text := ['/']

/-- The directory above a place; the root is above itself. -/
def parent (place : Place) : Place :=
  if place = [rootName] then place
  else if place.all (· == upName) then upName :: place
  else place.dropLast

/-- What stands at a place. The working directory, those above it, and the root are there. -/
def node? (tree : FileTree) (place : Place) : Option Node :=
  if place = [rootName] ∨ place.all (· == upName) then some .directory
  else tree.entries.lookup place

/-- Puts something at a place, over what stood there. -/
def put (place : Place) (node : Node) : List (Place × Node) → List (Place × Node)
  | [] => [(place, node)]
  | (p, n) :: entries => if p = place then (p, node) :: entries else (p, n) :: put place node entries

def set (tree : FileTree) (place : Place) (node : Node) : FileTree :=
  { entries := put place node tree.entries }

/-- The content of the file at a place; nothing if there is none. -/
def content (tree : FileTree) (place : Place) : ByteArray :=
  match tree.node? place with
  | some (.file content _) => content
  | _ => .empty

/-- The longest name, in bytes. -/
def nameLimit : Nat := 255

def pathLimit : Nat := 4095

def names (path : Text) : List Text := (Text.splitOn '/' path).filter (!·.isEmpty)

/-- Where a path starts: at the root or in the working directory. -/
def origin (path : Text) : Place := if path.head? = some '/' then [rootName] else []

/-- Follows names from a directory through directories. -/
def descend (tree : FileTree) (place : Place) : List Text → Except Cause Place
  | [] => .ok place
  | name :: names =>
    if name = hereName then descend tree place names
    else if name = upName then descend tree (parent place) names
    else if nameLimit < name.byteSize then .error .nameTooLong
    else
      match tree.node? (place ++ [name]) with
      | none => .error .noSuchEntry
      | some (.file _ _) => .error .notADirectory
      | some .directory => descend tree (place ++ [name]) names

/-- What keeps a path from being followed at all. -/
def pathError? (path : Text) : Option Cause :=
  if '\x00' ∈ path then some .nulInName
  else if pathLimit < path.byteSize then some .nameTooLong
  else if path = [] then some .noSuchEntry
  else none

def find? (tree : FileTree) (path : String) : Option (Place × Node) :=
  let path := path.toList
  if (pathError? path).isSome then none
  else
    match (names path).getLast? with
    | none => some (origin path, .directory)
    | some last =>
      match tree.descend (origin path) (names path).dropLast with
      | .error _ => none
      | .ok place =>
        if last = hereName then some (place, .directory)
        else if last = upName then some (parent place, .directory)
        else
          match tree.node? (place ++ [last]) with
          | none => none
          | some .directory => some (place ++ [last], .directory)
          | some file => if path.getLast? = some '/' then none else some (place ++ [last], file)

def filePlace? (tree : FileTree) (path : String) : Option Place :=
  match tree.find? path with
  | some (place, .file _ _) => some place
  | _ => none

def isDirectory (tree : FileTree) (path : String) : Bool :=
  match tree.find? path with
  | some (_, .directory) => true
  | _ => false

/-- The place at which a file can be created under a path. A path that ends in a slash, a dot or
two dots asks for a directory, whatever stands there. -/
def creationPlace (tree : FileTree) (path : String) : Except Cause Place :=
  let path := path.toList
  match pathError? path with
  | some cause => .error cause
  | none =>
    match (names path).getLast? with
    | none => .error .isADirectory
    | some last =>
      match tree.descend (origin path) (names path).dropLast with
      | .error cause => .error cause
      | .ok place =>
        if last = hereName ∨ last = upName ∨ path.getLast? = some '/' then .error .isADirectory
        else if nameLimit < last.byteSize then .error .nameTooLong
        else
          match tree.node? (place ++ [last]) with
          | some .directory => .error .isADirectory
          | _ => .ok (place ++ [last])

/-- Makes the file at a place empty; a new one is not executable. -/
def truncate (tree : FileTree) (place : Place) : FileTree :=
  match tree.node? place with
  | some (.file _ executable) => tree.set place (.file .empty executable)
  | _ => tree.set place (.file .empty false)

/-- Bytes with others written over them from an offset on. A gap before the offset is filled with
zeros. -/
def overwrite (content : ByteArray) (offset : Nat) (bytes : ByteArray) : ByteArray :=
  let gap : ByteArray := ⟨(List.replicate (offset - content.size) 0).toArray⟩
  content.extract 0 offset ++ gap ++ bytes ++
    content.extract (offset + bytes.size) content.size

/-- Writes to the file at a place, which takes all bytes it is given. -/
def writeAt (tree : FileTree) (place : Place) (offset : Nat) (bytes : ByteArray) : FileTree :=
  match tree.node? place with
  | some (.file content executable) =>
    tree.set place (.file (overwrite content offset bytes) executable)
  | _ => tree

def makeExecutable (tree : FileTree) (place : Place) : FileTree :=
  match tree.node? place with
  | some (.file content _) => tree.set place (.file content true)
  | _ => tree

/-- A path with a name after it; an absolute name stands alone. -/
def join (path name : String) : String :=
  if name.toList.head? = some '/' then name
  else if path.toList = [] ∨ path.toList.getLast? = some '/' then path ++ name
  else path ++ "/" ++ name

/-- The name of a file without its extension: what stands before the last dot, unless that dot
comes first. -/
def stem (name : Text) : Text :=
  match name.reverse.dropWhile (· != '.') with
  | [] => name
  | _ :: front => if front = [] then name else front.reverse

/-- The stem of the last name of a path. -/
def pathStem? (path : String) : Option Text :=
  match ((names path.toList).filter (· != hereName)).getLast? with
  | none => none
  | some last => if last = upName then none else some (stem last)

end FileTree
end WikiDocs

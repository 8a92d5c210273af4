import WikiDocs.Text.Quoted

/-!
What can go wrong, as causes, and the one wording of each.
-/

namespace WikiDocs

inductive Cause where
  /-- A physical line is not well-formed UTF-8. -/
  | invalidUtf8
  /-- A step of a path names nothing. -/
  | noSuchEntry
  /-- A path goes on after a name that is no directory. -/
  | notADirectory
  | isADirectory
  /-- A name or a whole path is longer than the file system allows. -/
  | nameTooLong
  | nulInName
  /-- A sink refused to create this file. -/
  | refusedCreate (name : String)
  /-- A sink refused to finish this build script. -/
  | refusedFinish (name : String)
  /-- A cause that the surroundings describe in words of their own. -/
  | described (words : String)
  deriving DecidableEq

namespace Cause

def message : Cause → String
  | invalidUtf8 => "stream did not contain valid UTF-8"
  | noSuchEntry => "No such file or directory (os error 2)"
  | notADirectory => "Not a directory (os error 20)"
  | isADirectory => "Is a directory (os error 21)"
  | nameTooLong => "File name too long (os error 36)"
  | nulInName => "file name contained an unexpected NUL byte"
  | refusedCreate name => "cannot create " ++ name
  | refusedFinish name => "cannot finish " ++ name
  | described words => words

end Cause

/-- Why a conversion, or an operation on its documents, failed. -/
inductive Error where
  | io (cause : Cause)
  | inputNotFound (path : String)
  | outputDirNotFound (path : String)
  /-- The input ended inside the table that was opened on this line. -/
  | unterminatedTable (line : Nat)
  /-- A character beyond Latin-1 was to be written after this many lines were read. -/
  | notLatin1 (line : Nat) (char : Char)
  | noOpenDocument
  /-- Any other failure, in words of its own. -/
  | other (words : String)
  deriving DecidableEq

namespace Error

/-- A code point in upper-case hexadecimal digits, at least four. -/
def codePoint (c : Char) : String :=
  let digits := (Text.hexDigits c).map Char.toUpper
  String.ofList (List.replicate (4 - digits.length) '0' ++ digits)

def message : Error → String
  | io cause => "I/O error: " ++ cause.message
  | inputNotFound path => "File " ++ path ++ " not found"
  | outputDirNotFound path => "Directory " ++ path ++ " not found"
  | unterminatedTable line => "Table never closed (opened at line " ++ toString line ++ ")"
  | notLatin1 line char =>
    "Character " ++ String.ofList (Text.quotedChar char) ++ " (U+" ++ codePoint char ++
      ") at line " ++ toString line ++ " cannot be encoded as Latin-1"
  | noOpenDocument => "No output document is open"
  | other words => words

end Error
end WikiDocs

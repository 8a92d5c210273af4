import WikiDocs.Json
import WikiDocs.Table
import WikiDocs.Token

/-!
Summaries of conversions: the documents that were written, and a tally of
lines, tokens and tables.
-/

namespace WikiDocs

/-- A tally of what a conversion met. -/
structure Tally where
  lines : Nat := 0
  /-- The numbers of tokens of the kinds that occurred, in order of priority. -/
  tokens : List (Token.Kind × Nat) := []
  tables : Nat := 0
  tableRows : Nat := 0
  deriving DecidableEq

namespace Tally

/-- Counts one more of a kind among counts in order of priority. -/
def increment (kind : Token.Kind) : List (Token.Kind × Nat) → List (Token.Kind × Nat)
  | [] => [(kind, 1)]
  | (k, n) :: counts =>
    if k = kind then (k, n + 1) :: counts
    else if kind.priority < k.priority then (kind, 1) :: (k, n) :: counts
    else (k, n) :: increment kind counts

def addLine (tally : Tally) : Tally := { tally with lines := tally.lines + 1 }

def addToken (tally : Tally) (kind : Token.Kind) : Tally :=
  { tally with tokens := increment kind tally.tokens }

def addTable (tally : Tally) (rows : Nat) : Tally :=
  { tally with tables := tally.tables + 1, tableRows := tally.tableRows + rows }

def tokenCount (tally : Tally) (kind : Token.Kind) : Nat := (tally.tokens.lookup kind).getD 0

def toJson (tally : Tally) : Json :=
  .object [
    ("input_lines", .number tally.lines),
    ("tokens", .object (tally.tokens.map fun (kind, n) => (kind.key, .number n))),
    ("table_count", .number tally.tables),
    ("table_row_count", .number tally.tableRows)]

end Tally

structure Document where
  title : String
  fileName : String
  /-- The file that the build script makes of the document. -/
  renderedName : String
  /-- The number of lines written, the banner included. -/
  lineCount : Nat := 0
  deriving DecidableEq

def Document.toJson (document : Document) : Json :=
  .object [
    ("title", .string document.title),
    ("file_name", .string document.fileName),
    ("rendered_name", .string document.renderedName),
    ("line_count", .number document.lineCount)]

structure Summary where
  /-- The documents, in the order in which they were opened. -/
  documents : List Document
  scriptName : String
  tally : Tally
  deriving DecidableEq

namespace Summary

def titles (summary : Summary) : List String := summary.documents.map Document.title

def toJson (summary : Summary) : Json :=
  .object [
    ("documents", .array (summary.documents.map Document.toJson)),
    ("build_script", .string summary.scriptName),
    ("stats", summary.tally.toJson)]

/-- The mark before the name of a document; the last one closes the list. -/
def branch (isLast : Bool) : String := if isLast then "\u2514\u2500" else "\u251c\u2500"

def documentLines : List Document → String
  | [] => ""
  | document :: documents =>
    "  " ++ branch documents.isEmpty ++ " " ++ document.fileName ++ " (" ++
      toString document.lineCount ++ " lines)\n" ++ documentLines documents

/-- A summary in words, for files in the directory `output`. -/
def words (output : String) (summary : Summary) : String :=
  "Output files in " ++ output ++ "\n" ++ documentLines summary.documents ++
    "  build script: " ++ summary.scriptName ++ "\n\nDone! " ++
    toString summary.documents.length ++ " documents, " ++ toString summary.tally.tables ++
    " tables, " ++ toString summary.tally.lines ++ " input lines\n"

end Summary
end WikiDocs

import WikiDocs.Text.Quoted
import WikiDocs.Token

/-!
Notices: what a conversion tells about its work beside the documents.
-/

namespace WikiDocs

/-- How much a notice matters. -/
inductive Notice.Level where
  | debug
  | info
  | warn
  deriving DecidableEq

def Notice.Level.name : Notice.Level → String
  | debug => "DEBUG"
  | info => "INFO"
  | warn => "WARN"

/-- Something worth telling. -/
inductive Notice where
  | parsing (title : String)
  /-- A document is about to be written over an earlier one with the same title. -/
  | overwriting (fileName : String)
  /-- A table line asks for a span that it cannot get. -/
  | badSpan (line : Text)
  | token (kind : Token.Kind) (taken : Text)
  | table (rows columns : Nat) (merged : Bool)
  deriving DecidableEq

namespace Notice

/-- How much a notice matters. Tokens and tables are details, a lost document or span is not. -/
def level : Notice → Level
  | parsing _ => .info
  | overwriting _ | badSpan _ => .warn
  | token _ _ | table _ _ _ => .debug

def message : Notice → String
  | parsing title => "Parsing " ++ title
  | overwriting fileName => "Document " ++ fileName ++ " appears more than once; overwriting"
  | badSpan line => "Malformed colspan directive: " ++ String.ofList line
  | token kind taken => kind.name ++ " " ++ String.ofList (Text.quoted taken)
  | table rows columns merged =>
    "table: " ++ toString rows ++ " rows, " ++ toString columns ++ " columns, merged cells: " ++
      (if merged then "true" else "false")

end Notice
end WikiDocs

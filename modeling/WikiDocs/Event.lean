import WikiDocs.Table
import WikiDocs.Token

/-!
Events: what a conversion does, one after the other. They say all that later
stages need: the documents are made of the openings and the written lines, the
counts and the notices of all the others.
-/

namespace WikiDocs

inductive Event where
  /-- A physical line is read and joined to what is pending, `joint` standing between. -/
  | read (joint line : Text)
  | token (found : Token.Match)
  /-- A line of a table asks for a span that it cannot get. -/
  | badSpan (line : Text)
  | table (source : Text) (table : Table)
  | openDocument (title : Text)
  | write (line : Text)
  deriving DecidableEq

namespace Event

/-- Whether an event goes into the documents. -/
def isOutput : Event → Bool
  | openDocument _ | write _ => true
  | read _ _ | token _ | badSpan _ | table _ _ => false

def token? : Event → Option Token.Match
  | token m => some m
  | _ => none

def line? : Event → Option Text
  | read _ line => some line
  | _ => none

def table? : Event → Option Table
  | table _ set => some set
  | _ => none

@[simp] theorem token?_token (m : Token.Match) : (token m).token? = some m := rfl

@[simp] theorem line?_token (m : Token.Match) : (token m).line? = none := rfl

@[simp] theorem token?_read (joint line : Text) : (read joint line).token? = none := rfl

@[simp] theorem line?_read (joint line : Text) : (read joint line).line? = some line := rfl

end Event

end WikiDocs

import WikiDocs.Conversion
import WikiDocs.Line.Source
import WikiDocs.Registry

/-!
Sessions: the events of a conversion carried out on a registry of documents,
with a tally of them. A session reads its input piece by piece and fails at the
first event that cannot be carried out.
-/

namespace WikiDocs

structure Session (σ ω : Type) where
  registry : Registry σ ω
  state : Conversion.State := {}
  tally : Tally := {}

namespace Session

variable {σ ω : Type} [Sink σ ω]

/-- The first character of a line beyond Latin-1. -/
def foreign? (line : Text) : Option Char := line.find? fun c => 0xFF < c.toNat

/-- Changes the registry of a session by an operation on it. -/
def onRegistry (session : Session σ ω) (o : Outcome (Registry σ ω) Unit) :
    Outcome (Session σ ω) Unit :=
  { o with state := { session with registry := o.state } }

/-- Changes only the tally, and gives notices. -/
def count (session : Session σ ω) (tally : Tally) (notices : List Notice) :
    Outcome (Session σ ω) Unit :=
  { state := { session with tally }, notices, answer := .ok () }

/-- Writes a line to the open document. A strict session refuses a line that is not Latin-1. -/
def write (session : Session σ ω) (line : Text) : Outcome (Session σ ω) Unit :=
  let lax := session.onRegistry (session.registry.writeLine line)
  if session.registry.options.strictLatin1 then
    match foreign? line with
    | some char => { state := session, answer := .error (.notLatin1 session.tally.lines char) }
    | none => lax
  else lax

/-- Carries out one event. Tokens and tables are noticed only if they are traced. -/
def perform (session : Session σ ω) : Event → Outcome (Session σ ω) Unit
  | .read _ _ => session.count session.tally.addLine []
  | .token found =>
    session.count (session.tally.addToken found.token.kind)
      (if session.registry.options.traceTokens then [.token found.token.kind found.taken] else [])
  | .badSpan line => session.count session.tally [.badSpan line]
  | .table _ table =>
    session.count (session.tally.addTable table.rowCount)
      (if session.registry.options.traceTokens then
        [.table table.rowCount table.columnCount table.hasMerged] else [])
  | .openDocument title =>
    session.onRegistry (session.registry.openDocument (String.ofList title))
  | .write line => session.write line

/-- Carries out events up to the first that fails. -/
def performAll (session : Session σ ω) : List Event → Outcome (Session σ ω) Unit
  | [] => { state := session, answer := .ok () }
  | event :: events =>
    (session.perform event).andThen id fun session _ => session.performAll events

/-- Reads one piece of the input, a physical line with its terminator. -/
def read (session : Session σ ω) (piece : List UInt8) : Outcome (Session σ ω) Unit :=
  let options := session.registry.options
  match Line.ofPiece options.expandEscapes piece with
  | .error cause => { state := session, answer := .error (.io cause) }
  | .ok line =>
    let (events, state) := Conversion.feed options.imageDirectory.toList session.state line
    { session with state }.performAll events

def release (session : Session σ ω) : σ := session.registry.release

def finish (session : Session σ ω) : Outcome σ Summary :=
  match Conversion.finish session.state with
  | .error e => { state := session.release, answer := .error e }
  | .ok events =>
    (session.performAll events).andThen release fun session _ =>
      session.registry.finish.andThen id fun sink documents =>
        { state := sink
          answer := .ok
            { documents
              scriptName := session.registry.options.scriptName
              tally := session.tally } }

/-- Reads the pieces of the input one after the other, to its end. -/
def readAll (session : Session σ ω) : List (List UInt8) → Outcome σ Summary
  | [] => session.finish
  | piece :: pieces =>
    (session.read piece).andThen release fun session _ => session.readAll pieces

end Session

/-- Converts the bytes of an input into documents of a sink. -/
def convert {σ ω : Type} [Sink σ ω] (sink : σ) (options : Options) (input : List UInt8) :
    Outcome σ Summary :=
  (Registry.start sink options (options.firstTitle.getD Options.defaultTitle)).andThen id
    fun _ registry => Session.readAll { registry } (Line.pieces input)

end WikiDocs

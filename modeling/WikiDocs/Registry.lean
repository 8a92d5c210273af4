import WikiDocs.Options
import WikiDocs.Outcome
import WikiDocs.Rst
import WikiDocs.Sink
import WikiDocs.Summary

/-!
The registry of documents over a sink. One document at most is open at a time;
each is closed before the next one is created, and each creation adds a line
to the build script.
-/

namespace WikiDocs

/-- The documents of a sink and its build script. -/
structure Registry (σ ω : Type) where
  sink : σ
  options : Options
  script : ω
  /-- The open document and its file. -/
  current : Option (Document × ω) := none
  /-- The documents closed so far, in order. -/
  closed : List Document := []
  /-- The titles that were asked for so far. -/
  titles : List String := []

namespace Registry

variable {σ ω : Type} [Sink σ ω]

def writeScript (registry : Registry σ ω) (line : Text) : Registry σ ω :=
  let (sink, script) := Sink.writeLine registry.sink registry.script line
  { registry with sink, script }

def close (registry : Registry σ ω) : Registry σ ω :=
  match registry.current with
  | none => registry
  | some (document, file) =>
    { registry with
      sink := (Sink.flush registry.sink file).1
      current := none
      closed := registry.closed ++ [document] }

def writeLine (registry : Registry σ ω) (line : Text) : Outcome (Registry σ ω) Unit :=
  match registry.current with
  | none => { state := registry, answer := .error .noOpenDocument }
  | some (document, file) =>
    let (sink, file) := Sink.writeLine registry.sink file line
    let document := { document with lineCount := document.lineCount + 1 }
    { state := { registry with sink, current := some (document, file) }, answer := .ok () }

def writeLines (registry : Registry σ ω) : List Text → Outcome (Registry σ ω) Unit
  | [] => { state := registry, answer := .ok () }
  | line :: lines =>
    (registry.writeLine line).andThen id fun registry _ => registry.writeLines lines

/-- The document with a given title, before anything is written to it. -/
def documentOf (options : Options) (title : String) : Document :=
  { title
    fileName := title ++ options.sourceExtension
    renderedName := title ++ options.renderedExtension }

/-- The line of the build script for a document. -/
def scriptLine (options : Options) (document : Document) : Text :=
  Rst.buildCommand options.renderCommand.toList document.fileName.toList
    document.renderedName.toList

/-- Closes the open document and opens a new one. If its file cannot be created, no document is
open afterwards. -/
def openDocument (registry : Registry σ ω) (title : String) : Outcome (Registry σ ω) Unit :=
  let document := documentOf registry.options title
  let registry := registry.close
  let notices := if title ∈ registry.titles then [.overwriting document.fileName] else []
  let registry := { registry with titles := title :: registry.titles }
  match Sink.create registry.sink document.fileName with
  | .error cause => { state := registry, notices, answer := .error (.io cause) }
  | .ok (sink, file) =>
    let registry := { registry with sink }.writeScript (scriptLine registry.options document)
    let registry := { registry with current := some (document, file) }
    let banner := registry.writeLines (Rst.banner title.toList)
    { banner with notices := notices ++ .parsing title :: banner.notices }

/-- Gives up a registry: what was written is brought to its place, the build script first. -/
def release (registry : Registry σ ω) : σ :=
  let sink := (Sink.flush registry.sink registry.script).1
  match registry.current with
  | none => sink
  | some (_, file) => (Sink.flush sink file).1

/-- Creates the build script and opens the first document. -/
def start (sink : σ) (options : Options) (title : String) : Outcome σ (Registry σ ω) :=
  match Sink.create sink options.scriptName with
  | .error cause => { state := sink, answer := .error (.io cause) }
  | .ok (sink, script) =>
    let registry : Registry σ ω := { sink, options, script }
    let registry :=
      match options.scriptHeader with
      | none => registry
      | some header => registry.writeScript header.toList
    (registry.openDocument title).andThen release fun registry _ =>
      { state := registry.sink, answer := .ok registry }

/-- Closes everything and tells which documents were written. -/
def finish (registry : Registry σ ω) : Outcome σ (List Document) :=
  let registry := registry.close
  let sink := (Sink.flush registry.sink registry.script).1
  let (sink, answer) := Sink.finishScript sink registry.options.scriptName
  match answer with
  | .error cause => { state := sink, answer := .error (.io cause) }
  | .ok () => { state := sink, answer := .ok registry.closed }

end Registry
end WikiDocs

import WikiDocs.Error
import WikiDocs.Event
import WikiDocs.Rst
import WikiDocs.Table.Layout
import WikiDocs.Table.Markup
import WikiDocs.Token.Scan.Lemmas

/-!
The conversion of lines into events. Lines are joined into a pending text; its
tokens are taken out from the left, each after the text before it, until none
is left and the next line is needed. A table keeps all lines up to its end.
-/

namespace WikiDocs

open Token

namespace Conversion

inductive Pending where
  | nothing
  | text (buffer : Text)
  /-- A table that is not closed yet: where it was found, its markup so far, and the number of
  the line on which it was found. -/
  | table (opening : Match) (source : Text) (line : Nat)
  deriving DecidableEq

structure State where
  /-- The number of lines read. -/
  lineNumber : Nat := 0
  pending : Pending := .nothing
  deriving DecidableEq

/-- What stands between a pending text and a line that is joined to it. A blank line breaks the
paragraph, and a line that starts a block stands on its own. -/
def joint (buffer line : Text) : Text :=
  if line = [] then ['\n', '\n']
  else if buffer = [] then []
  else if startsBlock line then ['\n']
  else [' ']

def writeText (text : Text) : List Event := if text = [] then [] else [.write text]

/-- What a table with the given markup, found as `opening`, comes to. -/
def tableEvents (opening : Match) (source : Text) : List Event :=
  (Table.badSpans source).map .badSpan ++ [.table source (Table.ofMarkup source)] ++
    writeText opening.before ++ (Table.ofMarkup source).render.map .write

/-- Goes on with a table, once its markup is complete. -/
def closeTable (opening : Match) (source : Text) (line : Nat) : List Event × Pending :=
  match cutTable? source with
  | none => ([], .table opening source line)
  | some (source, rest) => (tableEvents opening source, .text rest)

/-- Takes a token out of the text in which it was found, on the given line. The text before the
token is written; only that of a list item stays pending, behind its marker. -/
def handle (imageDirectory : Text) (line : Nat) (m : Match) : List Event × Pending :=
  match m.token with
  | .pageBreak title => (writeText m.before ++ [.openDocument title], .text m.after)
  | .heading level text =>
    (writeText m.before ++ (Rst.heading level text).map .write, .text m.after)
  | .listItem depth => ([], .text (m.before ++ Rst.listMarker depth ++ m.after))
  | .literalBlock => (writeText m.before ++ [.write [':', ':']], .text m.after)
  | .tableStart => closeTable m (m.taken ++ m.after) line
  | .image width label path =>
    ((if m.before.all Text.isBlank then [] else [.write m.before]) ++
      (Rst.image imageDirectory path width label).map .write, .text m.after)
  | .newline => ([.write (Rst.finishLine m.before)], .text m.after)

theorem substance_listMarker (depth : Nat) : (Rst.listMarker depth).substance = 0 := by
  simp [Rst.listMarker, Text.substance, List.countP_append, List.countP_replicate]

/-- Taking a token out leaves a text of less substance, so the tokens of a text run out. -/
theorem substance_lt_of_handle {imageDirectory : Text} {line : Nat} {buffer rest : Text}
    {m : Match} (hf : find? buffer = some m)
    (hh : (handle imageDirectory line m).2 = .text rest) : rest.substance < buffer.substance := by
  have hlt := substance_lt_of_find? hf
  unfold handle at hh
  split at hh
  case h_3 => cases hh; simp only [Text.substance_append, substance_listMarker]; omega
  case h_5 =>
    unfold closeTable at hh
    split at hh
    · cases hh
    · rename_i source rest' hc
      cases hh
      have h := substance_lt_of_cutTable? hc
      have hw := congrArg Text.substance (whole_of_find? hf)
      simp only [Match.whole, Text.substance_append] at h hw
      omega
  all_goals cases hh; omega

/-- Takes the tokens out of a pending text, from the left, until none is left or a table is not
closed. -/
def drain (imageDirectory : Text) (line : Nat) (buffer : Text) : List Event × Pending :=
  match _hf : find? buffer with
  | none => ([], .text buffer)
  | some m =>
    match _hh : handle imageDirectory line m with
    | (events, .text rest) =>
      let (later, pending) := drain imageDirectory line rest
      (.token m :: events ++ later, pending)
    | (events, pending) => (.token m :: events, pending)
termination_by buffer.substance
decreasing_by exact substance_lt_of_handle _hf (by rw [_hh])

/-- Goes on with what is pending after a table may have been closed. -/
def resume (imageDirectory : Text) (line : Nat) : List Event × Pending → List Event × Pending
  | (events, .text buffer) =>
    let (later, pending) := drain imageDirectory line buffer
    (events ++ later, pending)
  | (events, pending) => (events, pending)

def attach (imageDirectory : Text) (line : Text) (number : Nat) : Pending → List Event × Pending
  | .nothing => resume imageDirectory number ([.read [] line], .text line)
  | .text buffer =>
    let between := joint buffer line
    resume imageDirectory number ([.read between line], .text (buffer ++ between ++ line))
  | .table opening source opened =>
    let (events, pending) := closeTable opening (source ++ ' ' :: line) opened
    resume imageDirectory number (.read [' '] line :: events, pending)

def feed (imageDirectory : Text) (state : State) (line : Text) : List Event × State :=
  let number := state.lineNumber + 1
  let (events, pending) := attach imageDirectory line number state.pending
  (events, { lineNumber := number, pending })

def feedAll (imageDirectory : Text) (state : State) : List Text → List Event × State
  | [] => ([], state)
  | line :: lines =>
    let (events, state) := feed imageDirectory state line
    let (later, state) := feedAll imageDirectory state lines
    (events ++ later, state)

/-- Ends the input: a pending text is written as it is, and a table must be closed. -/
def finish (state : State) : Except Error (List Event) :=
  match state.pending with
  | .nothing => .ok []
  | .text buffer => .ok (writeText buffer)
  | .table _ _ line => .error (.unterminatedTable line)

end Conversion
end WikiDocs

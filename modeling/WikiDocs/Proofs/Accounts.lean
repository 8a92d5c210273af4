import WikiDocs.Proofs.LineCounts
import WikiDocs.Proofs.Tracing

/-!
The account that a summary gives of its run. Lines are counted where they are
read, tokens and tables where they are handled, and written lines in the
document that is open then; in the end each is counted once.
-/

namespace WikiDocs

open Conversion Token

/-- The lines that an event adds to the documents. One that opens a document adds the banner. -/
def Event.lineCount : Event → Nat
  | .openDocument _ => 4
  | .write _ => 1
  | .read _ _ | .token _ | .badSpan _ | .table _ _ => 0

/-- All lines of some documents. -/
def lineTotal (documents : List Document) : Nat := (documents.map Document.lineCount).sum

theorem lineTotal_append (documents more : List Document) :
    lineTotal (documents ++ more) = lineTotal documents + lineTotal more := by
  rw [lineTotal, List.map_append, List.sum_append]
  rfl

variable {σ ω : Type} [Sink σ ω]

namespace Registry

/-- The documents that were opened so far, the one that is open at last. -/
def documents (registry : Registry σ ω) : List Document :=
  registry.closed ++ registry.current.toList.map Prod.fst

variable {registry : Registry σ ω}

theorem closed_close : registry.close.closed = registry.documents := by
  simp only [close, documents]
  split
  · rename_i hcurrent
    rw [hcurrent, Option.toList_none, List.map_nil, List.append_nil]
  · rename_i hcurrent
    rw [hcurrent]
    rfl

theorem documents_finish {documents : List Document} (h : registry.finish.answer = .ok documents) :
    documents = registry.documents := by
  simp only [finish] at h
  split at h
  · cases h
  · cases h
    exact closed_close

theorem documents_writeLine {line : Text} (h : (registry.writeLine line).answer = .ok ()) :
    lineTotal (registry.writeLine line).state.documents = lineTotal registry.documents + 1 ∧
      (registry.writeLine line).state.documents.length = registry.documents.length := by
  simp only [writeLine] at h ⊢
  split at h
  · cases h
  · rename_i hcurrent
    simp only [documents, hcurrent, lineTotal_append, List.length_append]
    exact ⟨rfl, rfl⟩

theorem documents_writeLines {lines : List Text} (h : (registry.writeLines lines).answer = .ok ()) :
    lineTotal (registry.writeLines lines).state.documents =
        lineTotal registry.documents + lines.length ∧
      (registry.writeLines lines).state.documents.length = registry.documents.length := by
  induction lines generalizing registry with
  | nil => exact ⟨rfl, rfl⟩
  | cons line lines ih =>
      obtain ⟨_, hline, hlines⟩ := Outcome.answer_andThen h
      obtain ⟨htotal, hlength⟩ := documents_writeLine hline
      obtain ⟨htotal', hlength'⟩ := ih hlines
      rw [writeLines, Outcome.andThen_ok hline, List.length_cons]
      exact ⟨by rw [htotal', htotal, Nat.add_assoc, Nat.add_comm 1], hlength'.trans hlength⟩

theorem documents_created (title : String) (sink : σ) (file : ω) :
    (registry.created title sink file).documents =
      registry.documents ++ [documentOf registry.options title] := by
  simp only [created, documents, writeScript, closed_close, close_options]
  rfl

/-- A document that is opened begins with the four lines of its banner. -/
theorem documents_openDocument {title : String}
    (h : (registry.openDocument title).answer = .ok ()) :
    lineTotal (registry.openDocument title).state.documents = lineTotal registry.documents + 4 ∧
      (registry.openDocument title).state.documents.length = registry.documents.length + 1 := by
  cases hcreate : Sink.create registry.close.sink
      (documentOf registry.close.options title).fileName with
  | error cause =>
      rw [openDocument_error hcreate] at h
      cases h
  | ok opened =>
      obtain ⟨sink, file⟩ := opened
      rw [openDocument_ok hcreate] at h ⊢
      obtain ⟨htotal, hlength⟩ := documents_writeLines h
      rw [documents_created] at htotal hlength
      rw [List.length_append] at hlength
      rw [lineTotal_append] at htotal
      exact ⟨htotal, hlength⟩

theorem documents_of_start {sink : σ} {options : Options} {title : String}
    (h : (start sink options title).answer = .ok registry) :
    lineTotal registry.documents = 4 ∧ registry.documents.length = 1 := by
  obtain ⟨sink', script, -, hopen, rfl⟩ := of_start h
  have hnone : (prepared sink' options script).documents = [] := by
    simp only [prepared]
    split <;> rfl
  obtain ⟨htotal, hlength⟩ := documents_openDocument hopen
  rw [hnone] at htotal hlength
  exact ⟨htotal, hlength⟩

end Registry

namespace Session

variable {session : Session σ ω}

theorem documents_perform {event : Event} (h : (session.perform event).answer = .ok ()) :
    lineTotal (session.perform event).state.registry.documents =
        lineTotal session.registry.documents + event.lineCount ∧
      (session.perform event).state.registry.documents.length =
        session.registry.documents.length + event.opened?.toList.length := by
  cases event with
  | read _ _ | token _ | badSpan _ | table _ _ => exact ⟨rfl, rfl⟩
  | openDocument title =>
      simp only [perform, onRegistry] at h ⊢
      exact Registry.documents_openDocument h
  | write line =>
      have hwrite := perform_write_ok h
      rw [hwrite] at h ⊢
      exact Registry.documents_writeLine h

/-- The documents of a session have all the lines that its events add. -/
theorem documents_performAll {events : List Event}
    (h : (session.performAll events).answer = .ok ()) :
    lineTotal (session.performAll events).state.registry.documents =
        lineTotal session.registry.documents + (events.map Event.lineCount).sum ∧
      (session.performAll events).state.registry.documents.length =
        session.registry.documents.length + (events.filterMap Event.opened?).length := by
  induction events generalizing session with
  | nil => exact ⟨rfl, rfl⟩
  | cons event events ih =>
      obtain ⟨_, hevent, hevents⟩ := Outcome.answer_andThen h
      obtain ⟨htotal, hlength⟩ := documents_perform hevent
      obtain ⟨htotal', hlength'⟩ := ih hevents
      rw [performAll, Outcome.andThen_ok hevent, htotal', htotal, hlength', hlength]
      simp only [List.map_cons, List.sum_cons, List.filterMap_eq_flatMap_toList,
        List.flatMap_cons, List.length_append, Nat.add_assoc, and_self]

end Session

/-- Whether the text before a token is written as a line of its own. A newline takes it for its own
line, and an item keeps it. -/
def Token.Match.flushes (m : Match) : Bool :=
  match m.token with
  | .listItem _ | .newline => false
  | .image _ _ _ => !m.before.all Text.isBlank
  | .pageBreak _ | .heading _ _ | .literalBlock | .tableStart => !m.before.isEmpty

/-- The lines that a token of some kind comes to, those of a table left out. -/
def Token.Kind.lineCount : Kind → Nat
  | .pageBreak => 4
  | .title | .subtitle | .minorTitle => 3
  | .image => 5
  | .literalBlock | .newline => 1
  | .listItem | .tableStart => 0

theorem Token.sum_lineCount (kinds : List Kind) :
    (kinds.map Kind.lineCount).sum =
      4 * kinds.count .pageBreak +
        3 * (kinds.count .title + kinds.count .subtitle + kinds.count .minorTitle) +
        5 * kinds.count .image + kinds.count .literalBlock + kinds.count .newline := by
  induction kinds with
  | nil => rfl
  | cons kind kinds ih =>
      rw [List.map_cons, List.sum_cons, ih]
      cases kind with
      | listItem | tableStart => simp [Kind.lineCount]
      | pageBreak | title | subtitle | minorTitle | literalBlock | image | newline =>
          simp [Kind.lineCount]
          omega

theorem lineCount_writes (lines : List Text) :
    ((lines.map Event.write).map Event.lineCount).sum = lines.length := by
  simp [Function.comp_def, Event.lineCount]

theorem lineCount_writeText (text : Text) :
    ((writeText text).map Event.lineCount).sum = if !text.isEmpty then 1 else 0 := by
  cases text <;> rfl

namespace Passage

theorem lineCount_output (imageDirectory : Text) (p : Passage) :
    ((p.output imageDirectory).map Event.lineCount).sum =
      p.found.token.kind.lineCount + (p.table?.map (·.render.length)).getD 0 +
        if p.found.flushes then 1 else 0 := by
  rw [output, List.map_append, List.sum_append]
  cases hm : p.found.token with
  | pageBreak _ | literalBlock =>
      simp only [lead, own, table?, Match.flushes, hm, lineCount_writeText]
      exact Nat.add_comm _ _
  | heading level _ =>
      simp only [lead, own, table?, Match.flushes, hm, lineCount_writeText, lineCount_writes]
      cases level <;> exact Nat.add_comm _ _
  | tableStart =>
      simp only [lead, own, table?, Match.flushes, hm, lineCount_writeText, lineCount_writes]
      rw [Nat.add_comm]
      congr 1
      exact (Nat.zero_add _).symm
  | image _ _ _ =>
      simp only [lead, own, table?, Match.flushes, hm, lineCount_writes]
      rw [Nat.add_comm]
      congr 1
      cases p.found.before.all Text.isBlank <;> rfl
  | listItem _ | newline =>
      simp only [lead, own, table?, Match.flushes, hm]
      rfl

theorem lineCount_outputs (imageDirectory : Text) (passages : List Passage) :
    ((passages.flatMap (output imageDirectory)).map Event.lineCount).sum =
      ((passages.map (·.found.token.kind)).map Kind.lineCount).sum +
        ((passages.filterMap table?).map (·.render.length)).sum +
        (passages.map found).countP Match.flushes := by
  induction passages with
  | nil => rfl
  | cons p passages ih =>
      have htables : (((p :: passages).filterMap table?).map (·.render.length)).sum =
          (p.table?.map (·.render.length)).getD 0 +
            ((passages.filterMap table?).map (·.render.length)).sum := by
        simp only [List.filterMap_eq_flatMap_toList, List.flatMap_cons, List.map_append,
          List.sum_append]
        cases p.table? <;> rfl
      rw [List.flatMap_cons, List.map_append, List.sum_append, lineCount_output, ih, htables]
      simp only [List.map_cons, List.sum_cons, List.countP_cons]
      omega

end Passage

/-- Only what is written adds lines. -/
theorem lineCount_isOutput (events : List Event) :
    (events.map Event.lineCount).sum =
      ((events.filter Event.isOutput).map Event.lineCount).sum := by
  induction events with
  | nil => rfl
  | cons event events ih =>
      rw [List.map_cons, List.sum_cons, ih]
      cases event with
      | openDocument _ | write _ => rfl
      | read _ _ | token _ | badSpan _ | table _ _ => exact Nat.zero_add _

/-- What a summary says of the run that it is about. The text `rest` is written at the end. -/
structure Summary.Tells (summary : Summary) (imageDirectory : Text) (input : List UInt8)
    (rest : Text) (run : List Event) : Prop where
  lines_eq : summary.tally.lines = Line.total input
  tokens_eq (kind : Kind) :
    summary.tally.tokenCount kind =
      ((run.filterMap Event.token?).map (·.token.kind)).count kind
  tokens_pos : ∀ count ∈ summary.tally.tokens, 0 < count.2
  /-- What is written is what the tokens write, each behind the text before it, and the rest. -/
  output_eq :
    run.filter Event.isOutput =
      (ledgerOf run).passages.flatMap (Passage.output imageDirectory) ++ writeText rest
  passages_eq : (ledgerOf run).passages.map Passage.found = run.filterMap Event.token?
  /-- Each table is set from the markup that one token took. -/
  parsed_eq : run.filterMap Event.table? = (ledgerOf run).passages.filterMap Passage.table?
  tables_eq : summary.tally.tables = (run.filterMap Event.table?).length
  tables_found : summary.tally.tokenCount .tableStart = summary.tally.tables
  rows_eq : summary.tally.tableRows = ((run.filterMap Event.table?).map Table.rowCount).sum
  documents_eq : summary.tally.tokenCount .pageBreak + 1 = summary.documents.length
  /-- Each line of a document is one of its banner or of a token, or it is a text that is written
  before a token or at the end. -/
  total_eq :
    lineTotal summary.documents =
      4 * summary.documents.length +
        3 * (summary.tally.tokenCount .title + summary.tally.tokenCount .subtitle +
          summary.tally.tokenCount .minorTitle) +
        5 * summary.tally.tokenCount .image + summary.tally.tokenCount .literalBlock +
        summary.tally.tokenCount .newline +
        ((run.filterMap Event.table?).map (·.render.length)).sum +
        (run.filterMap Event.token?).countP Match.flushes + if rest = [] then 0 else 1

section Accounts

variable {sink : σ} {options : Options} {input : List UInt8} {summary : Summary}
  (h : (convert sink options input).answer = .ok summary)
include h

theorem tally_of_convert_ok :
    summary.tally = (runEvents sink options input).foldl Tally.enter {} := by
  obtain ⟨registry, hstart, -, -, hall⟩ := started_of_convert_ok h
  obtain ⟨-, -, -, -, htally⟩ := convert_of_ok h hstart
  rw [htally, Session.performAll_tally hall]

theorem lines_tallied : summary.tally.lines = Line.total input := by
  obtain ⟨lines, hlines, hread⟩ := lines_of_convert_ok h
  have hlength := congrArg List.length hlines
  rw [List.length_map, List.length_map, Line.length_pieces] at hlength
  rw [tally_of_convert_ok h, Tally.lines_foldl, hread, hlength]
  exact Nat.zero_add _

/-- The tables that a run counts are those of its table tokens. -/
theorem tables_tallied :
    let run := runEvents sink options input
    run.filterMap Event.table? = (ledgerOf run).passages.filterMap Passage.table? ∧
      summary.tally.tables = (run.filterMap Event.table?).length ∧
      summary.tally.tokenCount .tableStart = summary.tally.tables ∧
      summary.tally.tableRows = ((run.filterMap Event.table?).map Table.rowCount).sum := by
  intro run
  obtain ⟨htables, hrows⟩ := Tally.tables_foldl {} run
  have hparsed : run.filterMap Event.table? =
      (ledgerOf run).passages.filterMap Passage.table? :=
    (Ledger.tables_enterAll (agreesAll_runEvents sink options input) fun _ hnone => by
      cases hnone).symm
  rw [← tally_of_convert_ok h, Nat.zero_add] at htables hrows
  refine ⟨hparsed, htables, ?_, hrows⟩
  rw [tokenCount_of_convert_ok h, ← (passages_of_convert_ok h).1, htables, hparsed,
    List.length_filterMap_eq_countP, List.count_eq_countP, List.countP_map, List.countP_map]
  exact List.countP_congr fun p _ => by rw [p.isSome_table?]; rfl

/-- The documents have the banners and the lines that the run wrote. -/
theorem documents_total :
    lineTotal summary.documents =
        4 + ((runEvents sink options input).map Event.lineCount).sum ∧
      summary.documents.length = summary.tally.tokenCount .pageBreak + 1 := by
  obtain ⟨registry, hstart, -, -, hall⟩ := started_of_convert_ok h
  obtain ⟨hfinish, -⟩ := convert_of_ok h hstart
  obtain ⟨hfirst, hone⟩ := Registry.documents_of_start hstart
  obtain ⟨htotal, hlength⟩ := Session.documents_performAll hall
  rw [opened_runEvents h, length_pageTitles, hone, Nat.add_comm] at hlength
  rw [hfirst] at htotal
  rw [Registry.documents_finish hfinish, tokenCount_of_convert_ok h, List.count_eq_countP,
    List.countP_map]
  exact ⟨htotal, hlength⟩

/-- What a run wrote, by the tokens that wrote it. -/
theorem written_total {rest : Text}
    (hrest : (runEvents sink options input).filter Event.isOutput =
      (ledgerOf (runEvents sink options input)).passages.flatMap
        (Passage.output options.imageDirectory.toList) ++ writeText rest) :
    let run := runEvents sink options input
    (run.map Event.lineCount).sum =
      ((run.filterMap Event.token?).map (·.token.kind.lineCount)).sum +
        ((run.filterMap Event.table?).map (·.render.length)).sum +
        (run.filterMap Event.token?).countP Match.flushes + if rest = [] then 0 else 1 := by
  intro run
  have hlast : ((writeText rest).map Event.lineCount).sum = if rest = [] then 0 else 1 := by
    rw [lineCount_writeText]
    cases rest <;> rfl
  rw [lineCount_isOutput, hrest, List.map_append, List.sum_append, Passage.lineCount_outputs,
    hlast, ← (passages_of_convert_ok h).1, (tables_tallied h).1, List.map_map, List.map_map]
  rfl

end Accounts

/-- A run that succeeds is told by its summary: how much was read, handled and written. If it is
traced, the same is told and written, and there is a record of each token and each table besides. -/
theorem summary_tells {sink : σ} {options : Options} {input : List UInt8} {summary : Summary}
    (h : (convert sink options input).answer = .ok summary) :
    (∃ rest, find? rest = none ∧
        summary.Tells options.imageDirectory.toList input rest (runEvents sink options input)) ∧
      Traced (convert sink (options.withTrace false) input)
        (convert sink (options.withTrace true) input) (runEvents sink options input) := by
  obtain ⟨hfound, rest, houtput, hrest⟩ := passages_of_convert_ok h
  obtain ⟨hparsed, htables, hfirst, hrows⟩ := tables_tallied h
  obtain ⟨htotal, hdocuments⟩ := documents_total h
  have hcount := tokenCount_of_convert_ok h
  refine ⟨⟨rest, hrest, lines_tallied h, hcount, ?_, houtput, hfound, hparsed, htables, hfirst,
    hrows, hdocuments.symm, ?_⟩, traced_convert sink options input⟩
  · rw [tally_of_convert_ok h]
    exact Tally.pos_foldl (List.forall_mem_nil _) _
  · have hkinds := sum_lineCount
      (((runEvents sink options input).filterMap Event.token?).map (·.token.kind))
    simp only [List.map_map, Function.comp_def, ← hcount] at hkinds
    rw [htotal, written_total h houtput, hdocuments, hkinds]
    omega

theorem summary_tells_pages :
    let input := "= T =\na\n\nP 20200101\nb".toUTF8.data.toList
    let run := runEvents ({} : MemoryFiles) {} input
    let summary : Summary :=
      { documents := [⟨"index", "index.rst", "index.html", 9⟩, ⟨"P", "P.rst", "P.html", 5⟩]
        scriptName := "make.sh"
        tally :=
          { lines := 5, tokens := [(.pageBreak, 1), (.minorTitle, 1), (.newline, 2)] } }
    (convert ({} : MemoryFiles) {} input).answer = .ok summary ∧
      (∃ rest, find? rest = none ∧ summary.Tells "images/".toList input rest run) ∧
      Traced (convert ({} : MemoryFiles) (Options.withTrace false {}) input)
        (convert ({} : MemoryFiles) (Options.withTrace true {}) input) run := by
  have hok :
      (convert ({} : MemoryFiles) {} "= T =\na\n\nP 20200101\nb".toUTF8.data.toList).answer =
      .ok
        { documents := [⟨"index", "index.rst", "index.html", 9⟩, ⟨"P", "P.rst", "P.html", 5⟩]
          scriptName := "make.sh"
          tally :=
            { lines := 5, tokens := [(.pageBreak, 1), (.minorTitle, 1), (.newline, 2)] } } := by
    decide +kernel
  exact ⟨hok, summary_tells hok⟩

end WikiDocs

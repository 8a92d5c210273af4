import WikiDocs.Proofs.Conservation
import WikiDocs.Proofs.Memory

/-!
The documents of a run into memory. What is written between two openings makes
a section; the build script has a line for each of them, and the file of a title
holds the last section with that title.
-/

namespace WikiDocs

open Conversion Token

/-- A part of the output: the title under which it is opened, and what is written to it behind the
banner. -/
structure Section where
  title : String
  lines : List Text := []

namespace Section

def fileName (options : Options) (s : Section) : String :=
  (Registry.documentOf options s.title).fileName

/-- What is written to the file of a section from its opening on. -/
def content (s : Section) : List Text := Rst.banner s.title.toList ++ s.lines

def document (options : Options) (s : Section) : Document :=
  { Registry.documentOf options s.title with lineCount := s.content.length }

theorem fileName_inj {options : Options} {s t : Section} :
    s.fileName options = t.fileName options ↔ s.title = t.title :=
  String.append_left_inj options.sourceExtension

end Section

/-- The sections of a run so far. -/
structure Shelf where
  closed : List Section := []
  current : Section

namespace Shelf

def sections (shelf : Shelf) : List Section := shelf.closed ++ [shelf.current]

def enter (shelf : Shelf) : Event → Shelf
  | .openDocument title => ⟨shelf.sections, { title := String.ofList title }⟩
  | .write line =>
      { shelf with current := { shelf.current with lines := shelf.current.lines ++ [line] } }
  | .read _ _ | .token _ | .badSpan _ | .table _ _ => shelf

/-- Only outputs change a shelf. -/
theorem foldl_outputs (shelf : Shelf) (events : List Event) :
    events.foldl enter shelf = (events.filter Event.isOutput).foldl enter shelf := by
  induction events generalizing shelf with
  | nil => rfl
  | cons event events ih =>
      cases event with
      | openDocument _ | write _ => exact ih _
      | read _ _ | token _ | badSpan _ | table _ _ => exact ih shelf

theorem foldl_writes (shelf : Shelf) (lines : List Text) :
    (lines.map Event.write).foldl enter shelf =
      { shelf with current := { shelf.current with lines := shelf.current.lines ++ lines } } := by
  induction lines generalizing shelf with
  | nil => simp
  | cons line lines ih => simp [ih, enter]

end Shelf

/-- The sections that events make, where a document with the given title is open at first. -/
def sectionsOf (title : String) (events : List Event) : List Section :=
  (events.foldl Shelf.enter { current := { title } }).sections

theorem Text.unlines_append (lines more : List Text) :
    unlines (lines ++ more) = unlines lines ++ unlines more := List.flatMap_append

theorem Text.unlines_singleton (line : Text) : unlines [line] = line ++ ['\n'] := by
  simp [unlines]

theorem eraseDups_concat (names : List String) (name : String) :
    (names ++ [name]).eraseDups =
      if name ∈ names then names.eraseDups else names.eraseDups ++ [name] := by
  rw [List.eraseDups_append]
  by_cases h : name ∈ names
  · simp [List.removeAll, h]
  · simp [List.removeAll, h, List.eraseDups_cons]

/-- The last section of its title, where `s` comes at the end: it is `s`, or it has another title and
was the last one before. -/
theorem Section.last_concat {sections before after : List Section} {s t : Section}
    (h : sections ++ [s] = before ++ t :: after) (hlast : t.title ∉ after.map title) :
    (before = sections ∧ t = s) ∨
      ∃ after', sections = before ++ t :: after' ∧ t.title ∉ after'.map title ∧
        t.title ≠ s.title := by
  obtain rfl | ⟨after, last, rfl⟩ := List.eq_nil_or_concat after
  · obtain ⟨hbefore, hs⟩ := List.append_inj' h rfl
    exact .inl ⟨hbefore.symm, (List.cons.inj hs).1.symm⟩
  · rw [List.concat_eq_append] at h hlast
    rw [← List.cons_append, ← List.append_assoc] at h
    obtain ⟨hsections, hs⟩ := List.append_inj' h rfl
    cases hs
    rw [List.map_append, List.mem_append, not_or] at hlast
    exact .inr ⟨after, hsections, hlast.1, fun heq => hlast.2 (heq ▸ List.mem_singleton_self _)⟩

/-- The lines of the build script for some sections. -/
def scriptOf (options : Options) (sections : List Section) : List Text :=
  options.scriptHeader.toList.map String.toList ++
    sections.map fun s => Registry.scriptLine options (s.document options)

/-- The files of some sections: the build script and the document files, each once. A file holds
the last section with its title. -/
structure MemoryFiles.Holds (store : MemoryFiles) (options : Options) (sections : List Section) :
    Prop where
  names_eq : store.names = options.scriptName :: (sections.map (Section.fileName options)).eraseDups
  script_eq :
    store.bytes? options.scriptName =
      some (Text.Utf8.encode (Text.unlines (scriptOf options sections)))
  content_eq : ∀ before s after, sections = before ++ s :: after →
    s.title ∉ after.map Section.title →
    store.bytes? (s.fileName options) = some (Text.Utf8.encode (Text.unlines s.content))

namespace MemoryFiles.Holds

variable {store : MemoryFiles} {options : Options} {sections closed : List Section}

theorem prepared (options : Options) :
    ((({} : MemoryFiles).create options.scriptName).append options.scriptName
      (Text.Utf8.encode (Text.unlines (options.scriptHeader.toList.map String.toList)))).Holds
      options [] := by
  refine ⟨?_, ?_, ?_⟩
  · rw [names_append, names_create]
    rfl
  · rw [bytes?_append, if_pos rfl, bytes?_create, if_pos rfl, scriptOf, List.map_nil,
      List.append_nil]
    exact congrArg some ByteArray.empty_append
  · intro before s after h
    simp at h

/-- A new document gets an empty file and its banner, and the build script its line. -/
theorem opened (h : store.Holds options sections) {s : Section} (hs : s.lines = [])
    (hscript : options.scriptName ∉ (sections ++ [s]).map (Section.fileName options)) :
    (((store.create (s.fileName options)).append options.scriptName
      (Text.Utf8.encode (Registry.scriptLine options (s.document options) ++ ['\n']))).append
      (s.fileName options) (Text.Utf8.encode (Text.unlines (Rst.banner s.title.toList)))).Holds
      options (sections ++ [s]) := by
  have hne : ∀ t ∈ sections ++ [s], t.fileName options ≠ options.scriptName :=
    fun t ht heq => hscript (heq ▸ List.mem_map_of_mem ht)
  have hnew : s.fileName options ≠ options.scriptName := hne s (by simp)
  refine ⟨?_, ?_, ?_⟩
  · have hmem : s.fileName options ∈ store.names ↔
        s.fileName options ∈ sections.map (Section.fileName options) := by
      rw [h.names_eq, List.mem_cons, List.mem_eraseDups]
      exact or_iff_right hnew
    rw [names_append, names_append, names_create, List.map_append, List.map_singleton,
      eraseDups_concat]
    simp only [hmem]
    split
    · exact h.names_eq
    · rw [h.names_eq]
      rfl
  · rw [bytes?_append, if_neg hnew.symm, bytes?_append, if_pos rfl, bytes?_create,
      if_neg hnew.symm, h.script_eq, Option.map_some, ← Text.Utf8.encode_append,
      ← Text.unlines_singleton, ← Text.unlines_append, scriptOf, List.append_assoc]
    simp [scriptOf]
  · intro before t after hsplit hlast
    obtain ⟨-, rfl⟩ | ⟨after, hsections, hlast, htitle⟩ := Section.last_concat hsplit hlast
    · rw [bytes?_append, if_pos rfl, bytes?_append, if_neg hnew, bytes?_create, if_pos rfl,
        Section.content, hs, List.append_nil]
      exact congrArg some ByteArray.empty_append
    · have hfile : t.fileName options ≠ s.fileName options := mt Section.fileName_inj.1 htitle
      have hscript : t.fileName options ≠ options.scriptName := hne t (by simp [hsections])
      rw [bytes?_append, if_neg hfile, bytes?_append, if_neg hscript, bytes?_create, if_neg hfile]
      exact h.content_eq before t after hsections hlast

/-- A line that is written goes to the file of the last section. -/
theorem written {s : Section} (h : store.Holds options (closed ++ [s]))
    (hne : s.fileName options ≠ options.scriptName) (line : Text) :
    (store.append (s.fileName options) (Text.Utf8.encode (line ++ ['\n']))).Holds options
      (closed ++ [{ s with lines := s.lines ++ [line] }]) := by
  refine ⟨?_, ?_, ?_⟩
  · rw [names_append, h.names_eq, List.map_append, List.map_append]
    rfl
  · rw [bytes?_append, if_neg hne.symm, h.script_eq, scriptOf, scriptOf, List.map_append,
      List.map_append]
    rfl
  · intro before t after hsplit hlast
    obtain ⟨-, rfl⟩ | ⟨after, rfl, hlast, htitle⟩ := Section.last_concat hsplit hlast
    · have hbytes := h.content_eq closed s [] rfl List.not_mem_nil
      change (store.append (s.fileName options) _).bytes? (s.fileName options) = _
      rw [bytes?_append, if_pos rfl, hbytes, Option.map_some, ← Text.Utf8.encode_append,
        ← Text.unlines_singleton, ← Text.unlines_append, Section.content, List.append_assoc]
      rfl
    · have hfile : t.fileName options ≠ s.fileName options := mt Section.fileName_inj.1 htitle
      rw [bytes?_append, if_neg hfile]
      refine h.content_eq before t (after ++ [s]) (by simp) ?_
      simp only [List.map_append, List.mem_append, List.map_singleton, List.mem_singleton, not_or]
      exact ⟨hlast, htitle⟩

end MemoryFiles.Holds

/-- A registry in memory that has made the sections of a shelf. Its files are as they should be if
no document takes the place of the build script. -/
structure Registry.Tracks (registry : Registry MemoryFiles MemoryFile) (options : Options)
    (shelf : Shelf) : Prop where
  options_eq : registry.options = options
  script_eq : registry.script = ⟨options.scriptName⟩
  current_eq :
    registry.current =
      some (shelf.current.document options, ⟨shelf.current.fileName options⟩)
  closed_eq : registry.closed = shelf.closed.map (Section.document options)
  holds : options.scriptName ∉ shelf.sections.map (Section.fileName options) →
    registry.sink.Holds options shelf.sections

namespace Registry

variable {registry : Registry MemoryFiles MemoryFile} {options : Options} {shelf : Shelf}

theorem Tracks.openDocument (h : registry.Tracks options shelf) (title : Text) :
    (registry.openDocument (String.ofList title)).state.Tracks options
      (shelf.enter (.openDocument title)) := by
  rw [openDocument_memory]
  simp only [h.options_eq, h.script_eq, h.current_eq, h.closed_eq]
  refine ⟨rfl, rfl, ?_, ?_, ?_⟩
  · simp [Shelf.enter, Section.document, Section.content, Section.fileName, documentOf]
  · simp [Shelf.enter, Shelf.sections]
  · intro hscript
    have hold : options.scriptName ∉ shelf.sections.map (Section.fileName options) := by
      intro hmem
      exact hscript (by
        rw [Shelf.enter, Shelf.sections, List.map_append]
        exact List.mem_append_left _ hmem)
    exact (h.holds hold).opened (s := { title := String.ofList title }) rfl hscript

theorem Tracks.writeLine (h : registry.Tracks options shelf) (line : Text) :
    (registry.writeLine line).state.Tracks options (shelf.enter (.write line)) := by
  have hnames : (shelf.enter (.write line)).sections.map (Section.fileName options) =
      shelf.sections.map (Section.fileName options) := by
    simp [Shelf.enter, Shelf.sections, Section.fileName]
  simp only [Registry.writeLine, h.current_eq, Sink.writeLine]
  refine ⟨h.options_eq, h.script_eq, ?_, h.closed_eq, ?_⟩
  · simp [Shelf.enter, Section.document, Section.content, Section.fileName, Nat.add_assoc]
  · intro hscript
    rw [hnames] at hscript
    have hmem : shelf.current.fileName options ∈
        shelf.sections.map (Section.fileName options) := by
      rw [Shelf.sections, List.map_append]
      exact List.mem_append_right _ (List.mem_singleton_self _)
    have hcurrent : shelf.current.fileName options ≠ options.scriptName :=
      fun heq => hscript (heq ▸ hmem)
    exact (h.holds hscript).written hcurrent line

theorem writeLine_refused {line : Text} {e : Error}
    (h : (registry.writeLine line).answer = .error e) :
    (registry.writeLine line).state = registry := by
  simp only [Registry.writeLine] at h ⊢
  split at h
  · rfl
  · cases h

end Registry

namespace Session

variable {session : Session MemoryFiles MemoryFile} {options : Options} {shelf : Shelf}

theorem perform_tracks (h : session.registry.Tracks options shelf) {event : Event}
    (hok : (session.perform event).answer = .ok ()) :
    (session.perform event).state.registry.Tracks options (shelf.enter event) := by
  cases event with
  | read _ _ | token _ | badSpan _ | table _ _ => exact h
  | openDocument title =>
      simp only [perform, onRegistry]
      exact h.openDocument title
  | write line =>
      rw [perform_write_ok hok]
      exact h.writeLine line

/-- Every run keeps its registry and its files in step with the sections of its events. -/
theorem performAll_tracks (session : Session MemoryFiles MemoryFile)
    (h : session.registry.Tracks options shelf) {events : List Event}
    (hok : (session.performAll events).answer = .ok ()) :
    (session.performAll events).state.registry.Tracks options
      (events.foldl Shelf.enter shelf) := by
  induction events generalizing session shelf with
  | nil => exact h
  | cons event events ih =>
      obtain ⟨_, hp, hs⟩ := Outcome.answer_andThen hok
      rw [performAll, Outcome.andThen_ok hp]
      exact ih _ (perform_tracks h hp) hs

/-- What is refused in memory changes nothing. -/
theorem perform_refused_memory {event : Event} {e : Error}
    (h : (session.perform event).answer = .error e) : (session.perform event).state = session := by
  cases event with
  | read _ _ | token _ | badSpan _ | table _ _ => cases h
  | openDocument title =>
      simp only [perform, onRegistry, Registry.answer_openDocument_memory] at h
      cases h
  | write line =>
      have hline : (session.registry.writeLine line).answer = .error e →
          (session.onRegistry (session.registry.writeLine line)).state = session := by
        intro herror
        simp only [onRegistry, Registry.writeLine_refused herror]
      simp only [perform, write] at h ⊢
      split at h
      · rename_i hstrict
        rw [if_pos hstrict]
        split at h
        · rfl
        · exact hline h
      · rename_i hlax
        rw [if_neg hlax]
        exact hline h

/-- What is left of a run into memory is what its events that were carried out have made. -/
theorem performAll_done (session : Session MemoryFiles MemoryFile) (events : List Event) :
    (session.performAll (session.done events)).answer = .ok () ∧
      (session.performAll (session.done events)).state = (session.performAll events).state := by
  induction events generalizing session with
  | nil => exact ⟨rfl, rfl⟩
  | cons event events ih =>
      cases hanswer : (session.perform event).answer with
      | error e =>
          have hstate := perform_refused_memory hanswer
          simp only [done, hanswer, performAll]
          rw [Outcome.andThen_error hanswer]
          exact ⟨trivial, hstate.symm⟩
      | ok _ =>
          simp only [done, hanswer, performAll]
          rw [Outcome.andThen_ok hanswer, Outcome.andThen_ok hanswer]
          exact ih _

end Session

theorem Registry.tracks_of_start {options : Options} {title : String}
    {registry : Registry MemoryFiles MemoryFile}
    (h : (start ({} : MemoryFiles) options title).answer = .ok registry) :
    registry.Tracks options { current := { title } } := by
  obtain ⟨sink, script, hcreate, -, rfl⟩ := of_start h
  cases hcreate
  rw [prepared_memory, openDocument_memory]
  refine ⟨rfl, rfl, ?_, rfl, ?_⟩
  · simp [Section.document, Section.content, Section.fileName, documentOf]
  · intro hscript
    exact (MemoryFiles.Holds.prepared options).opened (s := { title }) rfl hscript

def Event.opened? : Event → Option Text
  | .openDocument title => some title
  | _ => none

/-- The titles of the documents that a run opens, the first one included. -/
def openedTitles (options : Options) (input : List UInt8) : List String :=
  options.title ::
    ((runEvents ({} : MemoryFiles) options input).filterMap Event.opened?).map String.ofList

@[simp] theorem Event.opened?_openDocument (title : Text) :
    (openDocument title).opened? = some title := rfl

@[simp] theorem Event.opened?_write (line : Text) : (write line).opened? = none := rfl

@[simp] theorem Event.opened?_token (m : Match) : (token m).opened? = none := rfl

@[simp] theorem Event.opened?_read (joint line : Text) : (read joint line).opened? = none := rfl

def Token.pageTitle? : Token → Option Text
  | .pageBreak title => some title
  | _ => none

theorem Token.isSome_pageTitle? (token : Token) :
    token.pageTitle?.isSome = (token.kind == .pageBreak) := by
  cases token with
  | heading level text => cases level <;> rfl
  | pageBreak _ | listItem _ | literalBlock | tableStart | image _ _ _ | newline => rfl

theorem length_pageTitles (found : List Match) :
    (found.filterMap fun m => m.token.pageTitle?).length =
      found.countP fun m => m.token.kind == .pageBreak := by
  simp only [List.length_filterMap_eq_countP, Token.isSome_pageTitle?]

theorem Shelf.titles_foldl (shelf : Shelf) (events : List Event) :
    (events.foldl enter shelf).sections.map Section.title =
      shelf.sections.map Section.title ++ (events.filterMap Event.opened?).map String.ofList := by
  induction events generalizing shelf with
  | nil => simp
  | cons event events ih =>
      rw [List.foldl_cons, ih]
      cases event with
      | read _ _ | token _ | badSpan _ | table _ _ => rfl
      | openDocument title => simp [enter, sections]
      | write line => simp [enter, sections, List.filterMap_cons]

theorem titles_sectionsOf (title : String) (events : List Event) :
    (sectionsOf title events).map Section.title =
      title :: (events.filterMap Event.opened?).map String.ofList :=
  Shelf.titles_foldl _ _

namespace Conversion

theorem opened_writes (lines : List Text) : (lines.map Event.write).filterMap Event.opened? = [] := by
  simp [List.filterMap_map, Function.comp_def]

theorem opened_writeText (text : Text) : (writeText text).filterMap Event.opened? = [] := by
  simp only [writeText]
  split <;> rfl

theorem opened_closeTable (opening : Match) (source : Text) (line : Nat) :
    (closeTable opening source line).1.filterMap Event.opened? = [] := by
  simp only [closeTable]
  split
  · rfl
  · simp only [tableEvents, List.filterMap_append, opened_writes, opened_writeText]
    simp [List.filterMap_map, Function.comp_def, Event.opened?]

/-- Only a page break opens a document, and it opens one. -/
theorem opened_handle (imageDirectory : Text) (line : Nat) (m : Match) :
    (handle imageDirectory line m).1.filterMap Event.opened? = m.token.pageTitle?.toList := by
  cases hm : m.token with
  | tableStart =>
      simp only [handle, hm]
      exact opened_closeTable m _ line
  | pageBreak title => simp [handle, hm, opened_writeText, Token.pageTitle?]
  | heading level text =>
      simp only [handle, hm, List.filterMap_append, opened_writeText, opened_writes]
      rfl
  | literalBlock => simp [handle, hm, opened_writeText, Token.pageTitle?]
  | image width label path =>
      simp only [handle, hm, List.filterMap_append, opened_writes, List.append_nil]
      split <;> rfl
  | listItem _ | newline => simp [handle, hm, Token.pageTitle?]

theorem turn_opened {imageDirectory : Text} {first last : Course} {events : List Event}
    (h : Turn imageDirectory first events last) :
    events.filterMap Event.opened? =
      (events.filterMap Event.token?).filterMap fun m => m.token.pageTitle? := by
  cases h with
  | @token line buffer m unread found =>
      rw [List.filterMap_cons_none (Event.opened?_token m),
        List.filterMap_cons_some (Event.token?_token m), (handle_quiet imageDirectory line m).2,
        opened_handle]
      cases hm : m.token.pageTitle? <;> simp [hm]
  | start | join _ => rfl
  | @extend number opened opening source line unread =>
      rw [List.filterMap_cons_none (Event.opened?_read [' '] line),
        List.filterMap_cons_none (Event.token?_read [' '] line), (closeTable_quiet _ _ _).2]
      exact opened_closeTable ..

theorem opened_finish {state : State} {later : List Event} (h : finish state = .ok later) :
    later.filterMap Event.opened? = [] := by
  simp only [finish] at h
  split at h
  · cases h
    rfl
  · cases h
    exact opened_writeText _
  · cases h

/-- The documents opened by turns are those of the page breaks, in the same order. -/
theorem turns_opened {imageDirectory : Text} {first last : Course} {count : Nat}
    {events : List Event} (h : Turns imageDirectory first count events last) :
    events.filterMap Event.opened? =
      (events.filterMap Event.token?).filterMap fun m => m.token.pageTitle? := by
  induction h with
  | none => rfl
  | more _ turn ih => simp only [List.filterMap_append, ih, turn_opened turn]

end Conversion

/-- In a run that succeeds the documents after the first are those of the page breaks. -/
theorem opened_runEvents {σ ω : Type} [Sink σ ω] {sink : σ} {options : Options}
    {input : List UInt8} {summary : Summary}
    (h : (convert sink options input).answer = .ok summary) :
    (runEvents sink options input).filterMap Event.opened? =
      ((runEvents sink options input).filterMap Event.token?).filterMap
        fun m => m.token.pageTitle? := by
  obtain ⟨_, lines, later, -, -, hfin, hrun, -⟩ := convert_ok h
  obtain ⟨_, turns, -⟩ := feedAll_turns options.imageDirectory.toList State.settled_start lines
  obtain ⟨-, hquiet⟩ := quiet_of_isOutput (finish_isOutput hfin)
  rw [hrun, List.filterMap_append, List.filterMap_append, turns_opened turns, hquiet,
    opened_finish hfin, List.append_nil, List.append_nil]

/-- Whether a notice tells that a document is written over. -/
def Notice.isOverwriting : Notice → Bool
  | overwriting _ => true
  | parsing _ | badSpan _ | token _ _ | table _ _ _ => false

/-- The titles that occur again, once for each time, where some occurred earlier. -/
def repeats (earlier : List String) : List String → List String
  | [] => []
  | title :: titles =>
      if title ∈ earlier then title :: repeats (title :: earlier) titles
      else repeats (title :: earlier) titles

namespace Session

/-- Of all events only openings give notice that a document is written over, and only those with
a title that occurred before. -/
theorem perform_overwriting (session : Session MemoryFiles MemoryFile) (event : Event) :
    (session.perform event).notices.filter Notice.isOverwriting =
        (repeats session.registry.titles (event.opened?.toList.map String.ofList)).map
          (fun title => .overwriting (title ++ session.registry.options.sourceExtension)) ∧
      (session.perform event).state.registry.titles =
        event.opened?.toList.map String.ofList ++ session.registry.titles := by
  cases event with
  | read _ _ | badSpan _ => exact ⟨rfl, rfl⟩
  | token _ | table _ _ =>
      simp only [perform, count]
      refine ⟨?_, rfl⟩
      split <;> rfl
  | openDocument title =>
      simp only [perform, onRegistry, Registry.openDocument_memory, Event.opened?_openDocument]
      refine ⟨?_, rfl⟩
      by_cases h : String.ofList title ∈ session.registry.titles
      · simp [h, repeats, List.filter_cons, Notice.isOverwriting, Registry.documentOf]
      · simp [h, repeats, Notice.isOverwriting]
  | write line =>
      simp only [perform, write, onRegistry, Registry.writeLine]
      split
      · split
        · exact ⟨rfl, rfl⟩
        · split <;> exact ⟨rfl, rfl⟩
      · split <;> exact ⟨rfl, rfl⟩

end Session

namespace Registry

theorem notices_of_start {options : Options} {title : String}
    {registry : Registry MemoryFiles MemoryFile}
    (h : (start ({} : MemoryFiles) options title).answer = .ok registry) :
    (start ({} : MemoryFiles) options title).notices = [.parsing title] ∧
      registry.titles = [title] := by
  obtain ⟨sink, script, hcreate, hopen, rfl⟩ := of_start h
  rw [start_ok hcreate, Outcome.andThen_ok hopen, prepared_memory, openDocument_memory]
  exact ⟨rfl, rfl⟩

end Registry

namespace Session

theorem state_conclude (session : Session MemoryFiles MemoryFile) (ending : Except Error Unit) :
    (session.conclude ending).state = session.registry.sink := by
  cases ending with
  | error _ => exact session.registry.release_memory
  | ok _ =>
      rw [conclude, Registry.finish_memory]
      rfl

end Session

/-- The files of a run into memory are those of its last registry, however the run ends. -/
theorem state_of_start {options : Options} {registry : Registry MemoryFiles MemoryFile}
    (h : (Registry.start ({} : MemoryFiles) options options.title).answer = .ok registry)
    (input : List UInt8) :
    (convert ({} : MemoryFiles) options input).state =
      (Session.performAll { registry }
        (outline options {} (Line.pieces input)).1).state.registry.sink := by
  rw [convert_eq, Outcome.andThen_ok h]
  cases hall : (Session.performAll { registry } (outline options {} (Line.pieces input)).1).answer with
  | error e =>
      rw [Outcome.andThen_error hall]
      exact Registry.release_memory _
  | ok _ =>
      rw [Outcome.andThen_ok hall]
      exact Session.state_conclude _ _

/-- What a run into memory comes to, whether or not it succeeds: its registry and files are in step
with the sections of its events. -/
theorem tracks_of_convert (options : Options) (input : List UInt8) :
    ∃ registry : Registry MemoryFiles MemoryFile,
      registry.Tracks options
        ((runEvents ({} : MemoryFiles) options input).foldl Shelf.enter
          { current := { title := options.title } }) ∧
      (convert ({} : MemoryFiles) options input).state = registry.sink := by
  obtain ⟨registry, hstart⟩ := started_memory options
  obtain ⟨hok, hstate⟩ := Session.performAll_done { registry }
    (outline options {} (Line.pieces input)).1
  have htracks := Session.performAll_tracks { registry } (Registry.tracks_of_start hstart) hok
  rw [runEvents_of_start hstart, state_of_start hstart, ← hstate]
  exact ⟨_, htracks, rfl⟩

/-- The files of a run into memory, whether or not it succeeds. -/
theorem holds_of_convert {options : Options} {input : List UInt8}
    (hscript : options.scriptName ∉
      (sectionsOf options.title (runEvents ({} : MemoryFiles) options input)).map
        (Section.fileName options)) :
    (convert ({} : MemoryFiles) options input).state.Holds options
      (sectionsOf options.title (runEvents ({} : MemoryFiles) options input)) := by
  obtain ⟨registry, htracks, hstate⟩ := tracks_of_convert options input
  rw [hstate]
  exact htracks.holds hscript

/-- The tally of a run that succeeds has the number of tokens of each kind. -/
theorem tokenCount_of_convert_ok {σ ω : Type} [Sink σ ω] {sink : σ} {options : Options}
    {input : List UInt8} {summary : Summary}
    (h : (convert sink options input).answer = .ok summary) (kind : Kind) :
    summary.tally.tokenCount kind =
      (((runEvents sink options input).filterMap Event.token?).map (·.token.kind)).count kind := by
  obtain ⟨registry, hstart, -, -, hall⟩ := started_of_convert_ok h
  obtain ⟨-, -, -, -, htally⟩ := convert_of_ok h hstart
  have hsorted : Tally.Sorted (Tally.tokens {}) := List.Pairwise.nil
  have hcount := Tally.tokenCount_foldl hsorted (runEvents sink options input) kind
  rw [htally, Session.performAll_tally hall, hcount, List.count_eq_countP, List.countP_map]
  exact Nat.zero_add _

variable {options : Options} {input : List UInt8} {summary : Summary}

theorem documents_of_convert_ok
    (h : (convert ({} : MemoryFiles) options input).answer = .ok summary) :
    summary.documents =
      (sectionsOf options.title (runEvents ({} : MemoryFiles) options input)).map
        (Section.document options) := by
  obtain ⟨registry, hstart, -, -, hall⟩ := started_of_convert_ok h
  obtain ⟨hfinish, -⟩ := convert_of_ok h hstart
  have htracks := Session.performAll_tracks { registry } (Registry.tracks_of_start hstart) hall
  rw [Registry.finish_memory, htracks.closed_eq, htracks.current_eq] at hfinish
  rw [← Except.ok.inj hfinish]
  simp [sectionsOf, Shelf.sections]

theorem fileNames_of_convert_ok
    (h : (convert ({} : MemoryFiles) options input).answer = .ok summary) :
    summary.documents.map Document.fileName =
      (sectionsOf options.title (runEvents ({} : MemoryFiles) options input)).map
        (Section.fileName options) := by
  rw [documents_of_convert_ok h, List.map_map]
  rfl

/-- The documents of a run are the first one and those of the page breaks. -/
theorem titles_of_convert_ok
    (h : (convert ({} : MemoryFiles) options input).answer = .ok summary) :
    summary.documents.map Document.title =
      options.title :: (((runEvents ({} : MemoryFiles) options input).filterMap
        Event.token?).filterMap fun m => m.token.pageTitle?).map String.ofList := by
  rw [← opened_runEvents h, documents_of_convert_ok h, List.map_map]
  exact titles_sectionsOf _ _

theorem holds_of_convert_ok
    (h : (convert ({} : MemoryFiles) options input).answer = .ok summary)
    (hscript : ∀ document ∈ summary.documents, document.fileName ≠ options.scriptName) :
    (convert ({} : MemoryFiles) options input).state.Holds options
      (sectionsOf options.title (runEvents ({} : MemoryFiles) options input)) := by
  apply holds_of_convert
  rw [← fileNames_of_convert_ok h]
  intro hmem
  obtain ⟨document, hd, heq⟩ := List.mem_map.1 hmem
  exact hscript document hd heq

end WikiDocs

import WikiDocs.Proofs.Documents
import WikiDocs.Proofs.Steady
import WikiDocs.Proofs.Views

/-!
The life of a registry whose sink refuses some names. A roll says which
documents were opened and what was written to each, from the operations and the
accepted names alone; the registry follows it through every operation, whether
the operation succeeds or fails.
-/

namespace WikiDocs

/-- The banner of a document counts as four lines. -/
theorem Section.document_eq (options : Options) :
    document options = fun s =>
      { Registry.documentOf options s.title with lineCount := 4 + s.lines.length } := by
  funext s
  rw [document, content, List.length_append]
  rfl

theorem scriptOf_concat (options : Options) (sections : List Section) (s : Section) :
    scriptOf options (sections ++ [s]) =
      scriptOf options sections ++ [Registry.scriptLine options (s.document options)] := by
  rw [scriptOf, List.map_append, ← List.append_assoc, scriptOf, List.map_singleton]

instance : Sink.InMemory RefusingFiles where
  files := RefusingFiles.store
  files_create h := by
    simp only [Sink.create, RefusingFiles.create] at h
    split at h <;> cases h
    exact ⟨rfl, rfl⟩
  files_writeLine _ _ _ := ⟨rfl, rfl⟩
  files_flush _ _ := rfl

/-- The documents opened so far, each with the lines written to it, and the one that is open. -/
structure Roll where
  closed : List Section := []
  current : Option Section := none

namespace Roll

def sections (roll : Roll) : List Section := roll.closed ++ roll.current.toList

end Roll

namespace Registry

inductive Operation where
  | openDocument (title : String)
  | writeLine (line : Text)

/-- The roll after an operation, where files with an accepted name can be created. Whether or not a
document can be opened, the one before it is closed. -/
def Operation.enter (options : Options) (accepted : String → Bool) (roll : Roll) :
    Operation → Roll
  | openDocument title =>
      { closed := roll.sections
        current :=
          if accepted (documentOf options title).fileName then some { title } else none }
  | writeLine line =>
      { roll with
        current := roll.current.map fun s => { s with lines := s.lines ++ [line] } }

end Registry

def Roll.after (options : Options) (accepted : String → Bool) (roll : Roll)
    (operations : List Registry.Operation) : Roll :=
  operations.foldl (fun roll operation => operation.enter options accepted roll) roll

namespace Registry

variable {σ : Type} [Sink σ MemoryFile]

def operate (registry : Registry σ MemoryFile) :
    Operation → Outcome (Registry σ MemoryFile) Unit
  | .openDocument title => registry.openDocument title
  | .writeLine line => registry.writeLine line

/-- The registry after some operations. It stays usable after one that fails. -/
def operateAll (registry : Registry σ MemoryFile) (operations : List Operation) :
    Registry σ MemoryFile :=
  operations.foldl (fun registry operation => (registry.operate operation).state) registry

variable [Sink.InMemory σ]

open Sink.InMemory (files)

theorem close_inMemory (registry : Registry σ MemoryFile) :
    ∃ sink, registry.close =
        { registry with
          sink
          current := none
          closed := registry.closed ++ registry.current.toList.map Prod.fst } ∧
      files sink = files registry.sink := by
  obtain ⟨sink, options, script, current, closed, titles⟩ := registry
  cases current with
  | none => exact ⟨sink, by simp [close], rfl⟩
  | some opened => exact ⟨_, rfl, Sink.InMemory.files_flush sink opened.2⟩

theorem created_inMemory {registry : Registry σ MemoryFile} {title : String} {sink : σ}
    {file : MemoryFile}
    (h : Sink.create registry.close.sink (documentOf registry.close.options title).fileName =
      .ok (sink, file)) :
    let document := documentOf registry.options title
    ∃ sink', registry.created title sink file =
        { registry with
          sink := sink'
          current := some (document, ⟨document.fileName⟩)
          closed := registry.closed ++ registry.current.toList.map Prod.fst
          titles := title :: registry.titles } ∧
      files sink' =
        ((files registry.sink).create document.fileName).append registry.script.name
          (Text.Utf8.encode (scriptLine registry.options document ++ ['\n'])) := by
  obtain ⟨flushed, hclose, hflushed⟩ := close_inMemory registry
  rw [hclose] at h
  obtain ⟨hcreated, rfl⟩ := Sink.InMemory.files_create h
  obtain ⟨hscript, hhandle⟩ := Sink.InMemory.files_writeLine sink registry.script
    (scriptLine registry.options (documentOf registry.options title))
  refine ⟨_, ?_, hscript.trans ?_⟩
  · rw [created, hclose]
    simp only [writeScript, hhandle]
  · rw [hcreated, hflushed]

/-- A document is opened at once: its file is made, the build script gets its line, and the banner
is written. -/
theorem openDocument_inMemory {registry : Registry σ MemoryFile} {title : String}
    {created : σ × MemoryFile}
    (h : Sink.create registry.close.sink (documentOf registry.close.options title).fileName =
      .ok created) :
    let document := documentOf registry.options title
    ∃ sink, (registry.openDocument title).answer = .ok () ∧
      (registry.openDocument title).state =
        { registry with
          sink
          current :=
            some ({ document with lineCount := (Rst.banner title.toList).length },
              ⟨document.fileName⟩)
          closed := registry.closed ++ registry.current.toList.map Prod.fst
          titles := title :: registry.titles } ∧
      files sink =
        (((files registry.sink).create document.fileName).append registry.script.name
          (Text.Utf8.encode (scriptLine registry.options document ++ ['\n']))).append
          document.fileName (Text.Utf8.encode (Text.unlines (Rst.banner title.toList))) := by
  obtain ⟨sink, file⟩ := created
  obtain ⟨sink', hcreated, hfiles⟩ := created_inMemory h
  have hcurrent : (registry.created title sink file).current =
      some (documentOf registry.options title,
        ⟨(documentOf registry.options title).fileName⟩) := by rw [hcreated]
  obtain ⟨last, hbanner, hlast⟩ := writeLines_inMemory hcurrent (Rst.banner title.toList)
  refine ⟨last, ?_, ?_, ?_⟩
  · rw [openDocument_ok h, hbanner]
  · rw [openDocument_ok h, hbanner, hcreated]
    simp [documentOf]
  · rw [hlast, hcreated, hfiles]

theorem openDocument_unchanged {registry : Registry σ MemoryFile} {title : String} {cause : Cause}
    (h : Sink.create registry.close.sink (documentOf registry.close.options title).fileName =
      .error cause) :
    ∃ sink, (registry.openDocument title).answer = .error (.io cause) ∧
      (registry.openDocument title).state =
        { registry with
          sink
          current := none
          closed := registry.closed ++ registry.current.toList.map Prod.fst
          titles := title :: registry.titles } ∧
      files sink = files registry.sink := by
  obtain ⟨sink, hclose, hfiles⟩ := close_inMemory registry
  refine ⟨sink, ?_, ?_, hfiles⟩
  · rw [openDocument_error h]
  · rw [openDocument_error h, hclose]

/-- What a registry and its files hold after the operations that made a roll. -/
structure Follows (registry : Registry σ MemoryFile) (options : Options)
    (accepted : String → Bool) (roll : Roll) : Prop where
  options_eq : registry.options = options
  script_eq : registry.script = ⟨options.scriptName⟩
  accepts_eq : ∀ name, Sink.accepts registry.sink name = accepted name
  closed_eq : registry.closed = roll.closed.map (Section.document options)
  current_eq :
    registry.current = roll.current.map fun s => (s.document options, ⟨s.fileName options⟩)
  script_content :
    (files registry.sink).bytes? options.scriptName =
      some (Text.Utf8.encode (Text.unlines (scriptOf options roll.sections)))
  content : ∀ s ∈ roll.current,
    s.fileName options ≠ options.scriptName ∧
      (files registry.sink).bytes? (s.fileName options) =
        some (Text.Utf8.encode (Text.unlines s.content))

/-- How a registry answers an operation, and what the operation leaves as it was. -/
def Responds (registry : Registry σ MemoryFile) (accepted : String → Bool) : Operation → Prop
  | .openDocument title =>
      if accepted (documentOf registry.options title).fileName then
        (registry.openDocument title).answer = .ok ()
      else
        (∃ cause, (registry.openDocument title).answer = .error (.io cause)) ∧
          files (registry.openDocument title).state.sink = files registry.sink
  | .writeLine line =>
      match registry.current with
      | none =>
          ∃ e, registry.writeLine line = { state := registry, answer := .error e } ∧
            e.message = "No output document is open"
      | some (document, file) =>
          ∃ sink, registry.writeLine line =
              { state :=
                  { registry with
                    sink
                    current :=
                      some ({ document with lineCount := document.lineCount + 1 }, file) }
                answer := .ok () } ∧
            ∀ name, (files sink).bytes? name =
              if name = file.name then
                ((files registry.sink).bytes? name).map
                  (· ++ Text.Utf8.encode (line ++ ['\n']))
              else (files registry.sink).bytes? name

variable {registry : Registry σ MemoryFile} {options : Options} {accepted : String → Bool}
  {roll : Roll}

theorem Follows.recorded (h : registry.Follows options accepted roll) :
    registry.closed ++ registry.current.toList.map Prod.fst =
      roll.sections.map (Section.document options) := by
  rw [h.closed_eq, h.current_eq, Roll.sections, List.map_append]
  cases roll.current <;> rfl

theorem Follows.finish (h : registry.Follows options accepted roll) :
    registry.finish.answer =
      ((Sink.finishScript (Sink.flush registry.close.sink registry.script).1
        options.scriptName).2.mapError Error.io).map
        fun _ => roll.sections.map (Section.document options) := by
  obtain ⟨sink, hclose, -⟩ := close_inMemory registry
  simp only [Registry.finish, hclose, h.recorded, h.options_eq]
  cases (Sink.finishScript (Sink.flush sink registry.script).1 options.scriptName).2 <;> rfl

variable [Sink.Steady σ]

theorem Follows.responds (h : registry.Follows options accepted roll) (operation : Operation) :
    registry.Responds accepted operation := by
  cases operation with
  | openDocument title =>
      simp only [Responds]
      cases ht : accepted (documentOf registry.options title).fileName with
      | true =>
          obtain ⟨created, hcreate⟩ := create_of_accepts ((h.accepts_eq _).trans ht)
          rw [← close_options registry] at hcreate
          obtain ⟨-, hanswer, -⟩ := openDocument_inMemory hcreate
          exact hanswer
      | false =>
          obtain ⟨cause, hcreate⟩ := create_of_refuses ((h.accepts_eq _).trans ht)
          rw [← close_options registry] at hcreate
          obtain ⟨sink, hanswer, hstate, hfiles⟩ := openDocument_unchanged hcreate
          exact ⟨⟨cause, hanswer⟩, by rw [hstate, hfiles]⟩
  | writeLine line =>
      simp only [Responds]
      split
      · rename_i hcurrent
        exact ⟨.noOpenDocument, by simp only [Registry.writeLine, hcurrent], rfl⟩
      · rename_i document file hcurrent
        obtain ⟨sink, hline, hfiles⟩ := writeLine_inMemory hcurrent line
        refine ⟨sink, hline, ?_⟩
        intro name
        rw [hfiles, MemoryFiles.bytes?_append]
        split
        · rename_i hname
          rw [hname]
        · rfl

theorem Follows.opened (h : registry.Follows options accepted roll) {title : String}
    (ht : accepted (documentOf options title).fileName = true)
    (hne : (documentOf options title).fileName ≠ options.scriptName) :
    (registry.openDocument title).state.Follows options accepted
      ((Operation.openDocument title).enter options accepted roll) := by
  have hname := ht
  rw [← h.options_eq] at hname
  have hready := (openDocument_accepted title h.accepts_eq hname).2
  obtain ⟨created, hcreate⟩ := create_of_accepts ((h.accepts_eq _).trans hname)
  rw [← close_options registry] at hcreate
  obtain ⟨sink, -, hstate, hfiles⟩ := openDocument_inMemory hcreate
  have hscript := scriptOf_concat options roll.sections { title }
  rw [h.options_eq, h.script_eq] at hfiles
  simp only [Operation.enter, ht, if_true]
  refine ⟨?_, ?_, hready.accepts_eq, ?_, ?_, ?_, ?_⟩
  · rw [hstate, h.options_eq]
  · rw [hstate, h.script_eq]
  · rw [hstate, h.recorded]
  · rw [hstate, h.options_eq]
    rfl
  · rw [hstate, hfiles, MemoryFiles.bytes?_append, if_neg hne.symm, MemoryFiles.bytes?_append,
      if_pos rfl, MemoryFiles.bytes?_create, if_neg hne.symm, h.script_content, Option.map_some,
      ← Text.Utf8.encode_append, ← Text.unlines_singleton, ← Text.unlines_append]
    exact congrArg (fun lines => some (Text.Utf8.encode (Text.unlines lines))) hscript.symm
  · intro s hs
    cases hs
    refine ⟨hne, ?_⟩
    rw [hstate, hfiles, Section.fileName, MemoryFiles.bytes?_append, if_pos rfl,
      MemoryFiles.bytes?_append, if_neg hne, MemoryFiles.bytes?_create, if_pos rfl,
      Section.content, List.append_nil]
    exact congrArg some ByteArray.empty_append

theorem Follows.refused (h : registry.Follows options accepted roll) {title : String}
    (ht : accepted (documentOf options title).fileName = false) :
    (registry.openDocument title).state.Follows options accepted
      ((Operation.openDocument title).enter options accepted roll) := by
  have hname := ht
  rw [← h.options_eq] at hname
  obtain ⟨cause, hcreate⟩ := create_of_refuses ((h.accepts_eq _).trans hname)
  rw [← close_options registry] at hcreate
  have haccepts : ∀ name, Sink.accepts (registry.openDocument title).state.sink name =
      accepted name := by
    intro name
    rw [openDocument_error hcreate]
    exact (accepts_close registry name).trans (h.accepts_eq name)
  obtain ⟨sink, -, hstate, hfiles⟩ := openDocument_unchanged hcreate
  simp only [Operation.enter, ht]
  refine ⟨?_, ?_, haccepts, ?_, ?_, ?_, ?_⟩
  · rw [hstate, h.options_eq]
  · rw [hstate, h.script_eq]
  · rw [hstate, h.recorded]
  · rw [hstate]
    rfl
  · rw [hstate, hfiles, h.script_content]
    simp [Roll.sections]
  · intro s hs
    cases hs

theorem Follows.written (h : registry.Follows options accepted roll) (line : Text) :
    (registry.writeLine line).state.Follows options accepted
      ((Operation.writeLine line).enter options accepted roll) := by
  cases hroll : roll.current with
  | none =>
      have hcurrent : registry.current = none := by rw [h.current_eq, hroll, Option.map_none]
      have henter : (Operation.writeLine line).enter options accepted roll = roll := by
        rw [Operation.enter, hroll, Option.map_none, ← hroll]
      rw [henter]
      simpa only [Registry.writeLine, hcurrent] using h
  | some s =>
      have hcurrent : registry.current = some (s.document options, ⟨s.fileName options⟩) := by
        rw [h.current_eq, hroll, Option.map_some]
      have hready : registry.Ready accepted :=
        ⟨h.accepts_eq, by rw [hcurrent, Option.isSome_some]⟩
      have haccepts := (hready.writeLine line).2.accepts_eq
      have hscript : scriptOf options (roll.closed ++ [{ s with lines := s.lines ++ [line] }]) =
          scriptOf options roll.sections := by
        rw [Roll.sections, hroll, Option.toList_some, scriptOf_concat, scriptOf_concat]
        rfl
      obtain ⟨sink, hline, hfiles⟩ := writeLine_inMemory hcurrent line
      obtain ⟨hne, hcontent⟩ := h.content s hroll
      refine ⟨?_, ?_, haccepts, ?_, ?_, ?_, ?_⟩
      · rw [hline, h.options_eq]
      · rw [hline, h.script_eq]
      · rw [hline, h.closed_eq]
        rfl
      · rw [hline, Operation.enter, hroll]
        simp [Section.document, Section.content, Section.fileName, Nat.add_assoc]
      · rw [hline, hfiles, MemoryFiles.bytes?_append, if_neg hne.symm, h.script_content,
          Operation.enter, hroll]
        exact congrArg (fun lines => some (Text.Utf8.encode (Text.unlines lines))) hscript.symm
      · intro t ht
        rw [Operation.enter, hroll] at ht
        cases ht
        refine ⟨hne, ?_⟩
        change (files (registry.writeLine line).state.sink).bytes? (s.fileName options) = _
        rw [hline, hfiles, MemoryFiles.bytes?_append, if_pos rfl, hcontent,
          Option.map_some, ← Text.Utf8.encode_append, ← Text.unlines_singleton,
          ← Text.unlines_append, Section.content, List.append_assoc]
        rfl

theorem Follows.operate (h : registry.Follows options accepted roll) {operation : Operation}
    (hne : ∀ title, operation = .openDocument title →
      (documentOf options title).fileName ≠ options.scriptName) :
    (registry.operate operation).state.Follows options accepted
      (operation.enter options accepted roll) := by
  cases operation with
  | openDocument title =>
      cases ht : accepted (documentOf options title).fileName with
      | true => exact h.opened ht (hne title rfl)
      | false => exact h.refused ht
  | writeLine line => exact h.written line

theorem Follows.operateAll (h : registry.Follows options accepted roll)
    {operations : List Operation}
    (hne : ∀ title, .openDocument title ∈ operations →
      (documentOf options title).fileName ≠ options.scriptName) :
    (registry.operateAll operations).Follows options accepted
      (roll.after options accepted operations) := by
  induction operations generalizing registry roll with
  | nil => exact h
  | cons operation operations ih =>
      refine ih (h.operate ?_) ?_
      · rintro title rfl
        exact hne title List.mem_cons_self
      · intro title hmem
        exact hne title (List.mem_cons_of_mem _ hmem)

theorem prepared_follows {sink sink' : σ} {script : MemoryFile}
    (h : Sink.create sink options.scriptName = .ok (sink', script)) :
    (prepared sink' options script).Follows options (Sink.accepts sink) {} := by
  have haccepts := accepts_prepared h
  obtain ⟨hfiles, rfl⟩ := Sink.InMemory.files_create h
  have hempty : (files sink').bytes? options.scriptName = some .empty := by
    rw [hfiles, MemoryFiles.bytes?_create, if_pos rfl]
  cases hheader : options.scriptHeader with
  | none =>
      have hprepared : prepared sink' options ⟨options.scriptName⟩ =
          { sink := sink', options, script := ⟨options.scriptName⟩ } := by
        simp only [prepared, hheader]
      rw [hprepared] at haccepts ⊢
      refine ⟨rfl, rfl, haccepts, rfl, rfl, ?_, ?_⟩
      · rw [hempty, scriptOf, hheader]
        rfl
      · intro s hs
        cases hs
  | some header =>
      obtain ⟨hline, hhandle⟩ :=
        Sink.InMemory.files_writeLine sink' ⟨options.scriptName⟩ header.toList
      have hprepared : prepared sink' options ⟨options.scriptName⟩ =
          { sink := (Sink.writeLine sink' (⟨options.scriptName⟩ : MemoryFile) header.toList).1
            options
            script := ⟨options.scriptName⟩ } := by
        simp only [prepared, hheader, writeScript, hhandle]
      rw [hprepared] at haccepts ⊢
      refine ⟨rfl, rfl, haccepts, rfl, rfl, ?_, ?_⟩
      · rw [hline, MemoryFiles.bytes?_append, if_pos rfl, hempty, Option.map_some,
          ByteArray.empty_append, ← Text.unlines_singleton, scriptOf, hheader]
        rfl
      · intro s hs
        cases hs

/-- A registry whose sink refuses some names, from its start on: after any operations its files, its
documents and its answers are those of the roll that the operations make. -/
theorem lifecycle (sink : σ) (options : Options) (first : String)
    (hscript : Sink.accepts sink options.scriptName = true)
    (hfirst : Sink.accepts sink (documentOf options first).fileName = true)
    (hne : (documentOf options first).fileName ≠ options.scriptName) :
    ∃ registry : Registry σ MemoryFile,
      (start sink options first).answer = .ok registry ∧
      ∀ operations : List Operation,
        (∀ title, .openDocument title ∈ operations →
          (documentOf options title).fileName ≠ options.scriptName) →
        let later := registry.operateAll operations
        let roll := ({ current := some { title := first } } : Roll).after options
          (Sink.accepts sink) operations
        later.Follows options (Sink.accepts sink) roll ∧
        (∀ operation, later.Responds (Sink.accepts sink) operation) ∧
        later.finish.answer =
          ((Sink.finishScript (Sink.flush later.close.sink later.script).1
            options.scriptName).2.mapError Error.io).map
            fun _ => roll.sections.map fun s =>
              { documentOf options s.title with lineCount := 4 + s.lines.length } := by
  obtain ⟨registry, hstart⟩ := start_accepted first hscript hfirst
  obtain ⟨sink', script, hcreate, -, rfl⟩ := of_start hstart
  refine ⟨_, hstart, ?_⟩
  intro operations hnames
  have hopened := (prepared_follows hcreate).opened hfirst hne
  rw [Operation.enter, hfirst, if_pos rfl] at hopened
  have hlater := hopened.operateAll hnames
  refine ⟨hlater, hlater.responds, ?_⟩
  rw [← Section.document_eq]
  exact hlater.finish

theorem lifecycle_refused :
    let sink : RefusingFiles := { refused := ["B.rst"] }
    let line := "text".toList
    ∃ registry : Registry RefusingFiles MemoryFile,
      (start sink {} "A").answer = .ok registry ∧
      (registry.operateAll [.writeLine line, .openDocument "B", .writeLine line,
        .openDocument "C", .openDocument "A", .writeLine line, .writeLine line]).finish.answer =
        .ok [
          { title := "A", fileName := "A.rst", renderedName := "A.html", lineCount := 5 },
          { title := "C", fileName := "C.rst", renderedName := "C.html", lineCount := 4 },
          { title := "A", fileName := "A.rst", renderedName := "A.html", lineCount := 6 }] := by
  intro sink line
  obtain ⟨registry, hstart, hlaws⟩ := lifecycle sink {} "A" (by decide) (by decide) (by decide)
  refine ⟨registry, hstart, ?_⟩
  obtain ⟨-, -, hfinish⟩ := hlaws [.writeLine line, .openDocument "B", .writeLine line,
    .openDocument "C", .openDocument "A", .writeLine line, .writeLine line] (by
      intro title hmem
      simp only [List.mem_cons, List.not_mem_nil, Operation.openDocument.injEq, reduceCtorEq,
        or_false, false_or] at hmem
      rcases hmem with rfl | rfl | rfl <;> decide)
  rw [hfinish]
  cases hstart
  decide

end Registry
end WikiDocs

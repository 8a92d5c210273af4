import WikiDocs.Proofs.Accounts
import WikiDocs.Proofs.FileRuns
import WikiDocs.Proofs.PageBreaks

/-!
The titles of page breaks. Each is a whole word, so in every run all documents
behind the first have one for their title; what writing lines and opening such
documents preserve holds in every run to its end.
-/

namespace WikiDocs

open Conversion Token Text

/-- A title that a page break can give. -/
structure PageTitle (title : Text) : Prop where
  ne_nil : title ≠ []
  word : ∀ c ∈ title, isWord c = true

namespace PageTitle

variable {title : Text}

theorem not_mem (h : PageTitle title) {c : Char} (hc : isWord c = false) : c ∉ title := by
  intro hmem
  rw [h.word c hmem] at hc
  cases hc

theorem no_slash (h : PageTitle title) : '/' ∉ title := h.not_mem (c := '/') (by decide)

theorem of_find? {s : Text} {m : Match} (hfind : find? s = some m)
    (htoken : m.token = .pageBreak title) : PageTitle title := by
  obtain ⟨start, hlexeme⟩ := lexeme?_of_findFrom? hfind
  rw [htoken] at hlexeme
  obtain ⟨title', _, _, _, hdated, hl⟩ := dated_of_pageBreak? hlexeme
  obtain rfl : title = title' := by
    have htitle := htoken.symm.trans (congrArg Lexeme.token hl)
    exact Token.pageBreak.inj htitle
  exact ⟨hdated.title_ne, hdated.word⟩

theorem of_pageTitle? {s : Text} {m : Match} (hfind : find? s = some m)
    (h : m.token.pageTitle? = some title) : PageTitle title :=
  of_find? hfind (eq_of_pageTitle? h)

end PageTitle

/-- Events that open documents only under titles that page breaks can give. -/
def OpenPages (events : List Event) : Prop :=
  ∀ title, .openDocument title ∈ events → PageTitle title

namespace OpenPages

variable {events later : List Event} {imageDirectory : Text}

theorem of_opened (h : ∀ title ∈ events.filterMap Event.opened?, PageTitle title) :
    OpenPages events :=
  fun title hmem => h title (List.mem_filterMap.2 ⟨_, hmem, rfl⟩)

theorem nil : OpenPages [] := fun _ hmem => absurd hmem List.not_mem_nil

theorem append (h : OpenPages events) (h' : OpenPages later) : OpenPages (events ++ later) :=
  fun title hmem => (List.mem_append.1 hmem).elim (h title) (h' title)

theorem turn {first last : Course} (h : Turn imageDirectory first events last) :
    OpenPages events := by
  refine of_opened fun title htitle => ?_
  rw [turn_opened h, List.mem_filterMap] at htitle
  obtain ⟨m, hm, hpage⟩ := htitle
  cases h with
  | @token line buffer m' unread found =>
      rw [List.filterMap_cons_some (Event.token?_token m'), (handle_quiet imageDirectory line m').2,
        List.mem_singleton] at hm
      exact PageTitle.of_pageTitle? found (hm ▸ hpage)
  | start | join _ => cases hm
  | @extend number opened opening source line unread =>
      rw [List.filterMap_cons_none (Event.token?_read [' '] line), (closeTable_quiet _ _ _).2] at hm
      cases hm

theorem feed {state : State} (hs : state.Settled) (line : Text) :
    OpenPages (Conversion.feed imageDirectory state line).1 := by
  obtain ⟨_, turns, -⟩ := feed_turns imageDirectory hs line []
  exact turns.invariant (P := fun events _ => OpenPages events) nil
    fun h hturn => h.append (turn hturn)

theorem finish {state : State} (h : Conversion.finish state = .ok later) : OpenPages later := by
  refine of_opened fun title htitle => ?_
  rw [opened_finish h] at htitle
  cases htitle

theorem outline {options : Options} {state : State} (hs : state.Settled)
    (pieces : List (List UInt8)) : OpenPages (Conversion.outline options state pieces).1 := by
  induction pieces generalizing state with
  | nil =>
      cases h : Conversion.finish state with
      | ok later =>
          rw [outline_nil_ok h]
          exact finish h
      | error e =>
          rw [outline_nil_error h]
          exact nil
  | cons piece pieces ih =>
      cases h : Line.ofPiece options.expandEscapes piece with
      | error cause =>
          rw [outline_cons_error h]
          exact nil
      | ok line =>
          obtain ⟨_, -, hsettled⟩ := feed_turns options.imageDirectory.toList hs line []
          rw [outline_cons_ok h]
          exact (feed hs line).append (ih hsettled)

end OpenPages

variable {σ ω : Type} [Sink σ ω]

theorem openPages_runEvents (sink : σ) (options : Options) (input : List UInt8) :
    OpenPages (runEvents sink options input) := fun title hmem =>
  have hmem := (runEvents_isPrefix sink options input).subset hmem
  OpenPages.outline State.settled_start _ title hmem

/-- What stays true of a registry while lines are written and page breaks open documents. -/
structure Registry.Stays (P : Registry σ ω → Prop) : Prop where
  writeLine : ∀ {registry}, P registry → ∀ line, P (registry.writeLine line).state
  openDocument : ∀ {registry}, P registry → ∀ title, PageTitle title →
    P (registry.openDocument (String.ofList title)).state

/-- How a run ends: its registry is given up, or it is finished and its documents are told. -/
def Outcome.EndsWith (P : Registry σ ω → Prop) (o : Outcome σ Summary) : Prop :=
  ∃ registry, P registry ∧ (o.state = registry.release ∨ o.state = registry.finish.state) ∧
    ∀ summary, o.answer = .ok summary → registry.finish.answer = .ok summary.documents

theorem Outcome.EndsWith.stopped {P : Registry σ ω → Prop} {o : Outcome σ Summary}
    {registry : Registry σ ω} {e : Error} (h : P registry) (hstate : o.state = registry.release)
    (hanswer : o.answer = .error e) : o.EndsWith P := by
  refine ⟨registry, h, .inl hstate, fun summary hok => ?_⟩
  rw [hanswer] at hok
  cases hok

namespace Registry.Stays

open Session

variable {P : Registry σ ω → Prop} {session : Session σ ω} {events : List Event}

theorem perform (hP : Stays P) (h : P session.registry) {event : Event}
    (hevent : OpenPages [event]) : P (session.perform event).state.registry := by
  cases event with
  | read _ _ | token _ | badSpan _ | table _ _ => exact h
  | openDocument title => exact hP.openDocument h title (hevent title List.mem_cons_self)
  | write line =>
      simp only [Session.perform, Session.write, onRegistry]
      split
      · split
        · exact h
        · exact hP.writeLine h line
      · exact hP.writeLine h line

theorem performAll (hP : Stays P) (h : P session.registry) (hevents : OpenPages events) :
    P (session.performAll events).state.registry := by
  induction events generalizing session with
  | nil => exact h
  | cons event events ih =>
      have hfirst : OpenPages [event] := fun title hmem =>
        hevents title (by rw [List.mem_singleton.1 hmem]; exact List.mem_cons_self)
      have hone := hP.perform h hfirst
      rw [Session.performAll]
      cases hanswer : (session.perform event).answer with
      | error e =>
          rw [Outcome.andThen_error hanswer]
          exact hone
      | ok _ =>
          rw [Outcome.andThen_ok hanswer]
          exact ih hone fun title hmem => hevents title (List.mem_cons_of_mem event hmem)

theorem read (hP : Stays P) (h : P session.registry) (hs : session.state.Settled)
    (piece : List UInt8) :
    P (session.read piece).state.registry ∧ (session.read piece).state.state.Settled := by
  simp only [Session.read]
  split
  · exact ⟨h, hs⟩
  · rename_i line hline
    obtain ⟨_, -, hsettled⟩ :=
      feed_turns session.registry.options.imageDirectory.toList hs line []
    rw [performAll_withState]
    exact ⟨hP.performAll h (OpenPages.feed hs line), hsettled⟩

theorem finish (hP : Stays P) (h : P session.registry) : session.finish.EndsWith P := by
  simp only [Session.finish]
  split
  · exact .stopped h rfl rfl
  · rename_i later hlater
    have hlast := hP.performAll h (OpenPages.finish hlater)
    cases hanswer : (session.performAll later).answer with
    | error e =>
        rw [Outcome.andThen_error hanswer]
        exact .stopped hlast rfl rfl
    | ok _ =>
        rw [Outcome.andThen_ok hanswer]
        cases hfinish : (session.performAll later).state.registry.finish.answer with
        | error e =>
            rw [Outcome.andThen_error hfinish]
            exact ⟨_, hlast, .inr rfl, fun _ hok => by cases hok⟩
        | ok documents =>
            rw [Outcome.andThen_ok hfinish]
            refine ⟨_, hlast, .inr rfl, fun summary hsummary => ?_⟩
            rw [← Except.ok.inj hsummary]
            exact hfinish

theorem readAll (hP : Stays P) (h : P session.registry) (hs : session.state.Settled)
    (pieces : List (List UInt8)) : (session.readAll pieces).EndsWith P := by
  induction pieces generalizing session with
  | nil => exact hP.finish h
  | cons piece pieces ih =>
      obtain ⟨hone, hsettled⟩ := hP.read h hs piece
      rw [Session.readAll]
      cases hanswer : (session.read piece).answer with
      | error e =>
          rw [Outcome.andThen_error hanswer]
          exact .stopped hone rfl rfl
      | ok _ =>
          rw [Outcome.andThen_ok hanswer]
          exact ih hone hsettled

/-- While a file is read, its lines are fed as those of any other input. -/
theorem readFile {P : Registry Directory BufferedFile → Prop}
    {session : Session Directory BufferedFile} (hP : Stays P) (h : P session.registry)
    (hs : session.state.Settled) (limit : Nat) (reader : Line.FileReader) :
    (FileConversion.readAll limit reader session).EndsWith P := by
  induction limit generalizing reader session with
  | zero => exact hP.finish h
  | succ limit ih =>
      rw [FileConversion.readAll]
      split
      · exact hP.finish h
      · rename_i piece reader' _
        obtain ⟨hone, hsettled⟩ := hP.read h hs piece
        cases hanswer : (session.read piece).answer with
        | error e =>
            rw [Outcome.andThen_error hanswer]
            exact .stopped hone rfl rfl
        | ok _ =>
            rw [Outcome.andThen_ok hanswer]
            exact ih hone hsettled reader'

end Registry.Stays

namespace Registry

variable {registry : Registry σ ω}

/-- All documents but the first have titles that page breaks can give. -/
def Paged (registry : Registry σ ω) : Prop :=
  ∀ title ∈ (registry.documents.map Document.title).tail, PageTitle title.toList

theorem titles_writeLine (registry : Registry σ ω) (line : Text) :
    (registry.writeLine line).state.documents.map Document.title =
      registry.documents.map Document.title := by
  simp only [writeLine]
  split
  · rfl
  · rename_i hcurrent
    simp [documents, hcurrent]

theorem titles_writeLines (registry : Registry σ ω) (lines : List Text) :
    (registry.writeLines lines).state.documents.map Document.title =
      registry.documents.map Document.title := by
  induction lines generalizing registry with
  | nil => rfl
  | cons line lines ih =>
      rw [writeLines]
      cases hanswer : (registry.writeLine line).answer with
      | error e =>
          rw [Outcome.andThen_error hanswer]
          exact titles_writeLine registry line
      | ok _ =>
          rw [Outcome.andThen_ok hanswer]
          exact (ih _).trans (titles_writeLine registry line)

/-- A document that is opened comes last; one that is refused leaves the others. -/
theorem titles_openDocument (registry : Registry σ ω) (title : String) :
    (registry.openDocument title).state.documents.map Document.title =
        registry.documents.map Document.title ∨
      (registry.openDocument title).state.documents.map Document.title =
        registry.documents.map Document.title ++ [title] := by
  cases hcreate : Sink.create registry.close.sink
      (documentOf registry.close.options title).fileName with
  | error cause =>
      left
      rw [openDocument_error hcreate]
      simp only [documents, current_close, closed_close]
      simp
  | ok opened =>
      right
      obtain ⟨sink, file⟩ := opened
      rw [openDocument_ok hcreate]
      dsimp only
      rw [titles_writeLines, documents_created, List.map_append]
      rfl

theorem stays_paged : Stays (Paged (σ := σ) (ω := ω)) where
  writeLine h line := by
    rw [Paged, titles_writeLine]
    exact h
  openDocument {registry} h title htitle := by
    obtain hsame | hmore := registry.titles_openDocument (String.ofList title)
    · rw [Paged, hsame]
      exact h
    · intro other hother
      rw [hmore] at hother
      rw [Paged] at h
      generalize registry.documents.map Document.title = titles at h hother
      cases titles with
      | nil => cases hother
      | cons first titles =>
          obtain hmem | hmem := List.mem_append.1 hother
          · exact h other hmem
          · rw [List.mem_singleton.1 hmem, String.toList_ofList]
            exact htitle

theorem paged_of_start {sink : σ} {options : Options} {title : String}
    (h : (start sink options title).answer = .ok registry) : registry.Paged := by
  obtain ⟨-, hlength⟩ := documents_of_start h
  intro other hother
  have hnil : (registry.documents.map Document.title).tail = [] := by
    rw [← List.length_eq_zero_iff, List.length_tail, List.length_map, hlength]
  rw [hnil] at hother
  cases hother

end Registry

theorem Outcome.EndsWith.pageTitle {o : Outcome σ Summary}
    (h : o.EndsWith (Registry.Paged (σ := σ) (ω := ω))) {summary : Summary}
    (hok : o.answer = .ok summary) {document : Document}
    (hmem : document ∈ summary.documents.tail) :
    PageTitle document.title.toList := by
  obtain ⟨registry, hpaged, -, hfinish⟩ := h
  rw [Registry.documents_finish (hfinish summary hok)] at hmem
  refine hpaged document.title ?_
  rw [← List.map_tail]
  exact List.mem_map_of_mem hmem

/-- In a run that succeeds all documents but the first have titles that page breaks can give. -/
theorem pageTitle_of_convert {sink : σ} {options : Options} {input : List UInt8}
    {summary : Summary} (h : (convert sink options input).answer = .ok summary)
    {document : Document} (hmem : document ∈ summary.documents.tail) :
    PageTitle document.title.toList := by
  obtain ⟨registry, hstart, hrun⟩ := Outcome.answer_andThen h
  have hends : (Session.readAll { registry } (Line.pieces input)).EndsWith Registry.Paged :=
    Registry.stays_paged.readAll (Registry.paged_of_start hstart) State.settled_start _
  exact hends.pageTitle hrun hmem

theorem pageTitle_of_convertFile {tree : FileTree} {options : Options} {input output : String}
    {summary : Summary} (h : (convertFile tree options input output).answer = .ok summary)
    {document : Document} (hmem : document ∈ summary.documents.tail) :
    PageTitle document.title.toList := by
  simp only [convertFile] at h
  split at h
  · cases h
  · split at h
    · obtain ⟨registry, hstart, hrun⟩ := Outcome.answer_andThen h
      have hends : ∀ limit reader,
          (FileConversion.readAll limit reader { registry }).EndsWith Registry.Paged :=
        Registry.stays_paged.readFile (Registry.paged_of_start hstart) State.settled_start
      exact (hends _ _).pageTitle hrun hmem
    · cases h

end WikiDocs

import WikiDocs.Session

/-!
A run is what it sets out to do, carried out in order. What it sets out to do
depends on the input and the options alone; how much of it is done depends on
the sink and on the check for Latin-1.
-/

namespace WikiDocs

open Conversion

namespace Outcome

variable {σ τ α β γ : Type}

theorem andThen_ok {o : Outcome σ α} {a : α} (h : o.answer = .ok a) (abandon : σ → τ)
    (next : σ → α → Outcome τ β) :
    o.andThen abandon next =
      { next o.state a with notices := o.notices ++ (next o.state a).notices } := by
  simp only [andThen, h]

theorem andThen_error {o : Outcome σ α} {e : Error} (h : o.answer = .error e) (abandon : σ → τ)
    (next : σ → α → Outcome τ β) :
    o.andThen abandon next =
      { state := abandon o.state, notices := o.notices, answer := .error e } := by
  simp only [andThen, h]

theorem answer_andThen {o : Outcome σ α} {abandon : σ → τ} {next : σ → α → Outcome τ β} {b : β}
    (h : (o.andThen abandon next).answer = .ok b) :
    ∃ a, o.answer = .ok a ∧ (next o.state a).answer = .ok b := by
  cases ha : o.answer with
  | error e =>
      rw [andThen_error ha] at h
      cases h
  | ok a =>
      rw [andThen_ok ha] at h
      exact ⟨a, rfl, h⟩

theorem andThen_assoc (o : Outcome σ α) (next : σ → α → Outcome σ β) (abandon : σ → τ)
    (last : σ → β → Outcome τ γ) :
    (o.andThen id next).andThen abandon last =
      o.andThen abandon fun s a => (next s a).andThen abandon last := by
  cases ha : o.answer with
  | error e => simp only [andThen, ha, id]
  | ok a =>
      cases hb : (next o.state a).answer with
      | error e => simp only [andThen, ha, hb]
      | ok b => simp only [andThen, ha, hb, List.append_assoc]

theorem andThen_congr {o : Outcome σ α} {abandon : σ → τ} {next next' : σ → α → Outcome τ β}
    (h : ∀ a, o.answer = .ok a → next o.state a = next' o.state a) :
    o.andThen abandon next = o.andThen abandon next' := by
  cases ha : o.answer with
  | error e => simp only [andThen, ha]
  | ok a => simp only [andThen, ha, h a ha]

end Outcome

namespace Conversion

/-- What a run sets out to do from a state on with the remaining pieces of its input, and how it
ends once that is done. -/
def outline (options : Options) (state : State) :
    List (List UInt8) → List Event × Except Error Unit
  | [] =>
      match finish state with
      | .ok events => (events, .ok ())
      | .error e => ([], .error e)
  | piece :: pieces =>
      match Line.ofPiece options.expandEscapes piece with
      | .error cause => ([], .error (.io cause))
      | .ok line =>
          let (events, state) := feed options.imageDirectory.toList state line
          let (later, ending) := outline options state pieces
          (events ++ later, ending)

theorem outline_nil_ok {options : Options} {state : State} {events : List Event}
    (h : finish state = .ok events) : outline options state [] = (events, .ok ()) := by
  simp only [outline, h]

theorem outline_nil_error {options : Options} {state : State} {e : Error}
    (h : finish state = .error e) : outline options state [] = ([], .error e) := by
  simp only [outline, h]

theorem outline_cons_error {options : Options} {state : State} {piece : List UInt8} {cause : Cause}
    (h : Line.ofPiece options.expandEscapes piece = .error cause) (pieces : List (List UInt8)) :
    outline options state (piece :: pieces) = ([], .error (.io cause)) := by
  simp only [outline, h]

theorem outline_cons_ok {options : Options} {state : State} {piece : List UInt8} {line : Text}
    (h : Line.ofPiece options.expandEscapes piece = .ok line) (pieces : List (List UInt8)) :
    outline options state (piece :: pieces) =
      ((feed options.imageDirectory.toList state line).1 ++
        (outline options (feed options.imageDirectory.toList state line).2 pieces).1,
        (outline options (feed options.imageDirectory.toList state line).2 pieces).2) := by
  simp only [outline, h]

/-- An outline depends on nothing but how lines are read and where images lie. -/
theorem outline_congr {options options' : Options} (he : options'.expandEscapes = options.expandEscapes)
    (hi : options'.imageDirectory = options.imageDirectory) (state : State)
    (pieces : List (List UInt8)) : outline options' state pieces = outline options state pieces := by
  induction pieces generalizing state with
  | nil => rfl
  | cons piece pieces ih => simp only [outline, he, hi, ih]

/-- An outline ends badly at a piece that cannot be read or in a table that is not closed. -/
theorem outline_ending {options : Options} {state : State}
    {pieces : List (List UInt8)} {e : Error} (h : (outline options state pieces).2 = .error e) :
    (∃ cause, e = .io cause) ∨ ∃ line, e = .unterminatedTable line := by
  induction pieces generalizing state with
  | nil =>
      cases hfinish : finish state with
      | ok events =>
          rw [outline_nil_ok hfinish] at h
          cases h
      | error e' =>
          rw [outline_nil_error hfinish] at h
          cases h
          simp only [finish] at hfinish
          split at hfinish
          all_goals cases hfinish
          exact .inr ⟨_, rfl⟩
  | cons piece pieces ih =>
      cases hpiece : Line.ofPiece options.expandEscapes piece with
      | error cause =>
          rw [outline_cons_error hpiece] at h
          cases h
          exact .inl ⟨cause, rfl⟩
      | ok line =>
          rw [outline_cons_ok hpiece] at h
          exact ih h

/-- An outline that ends well is the conversion of all lines of the input. -/
theorem lines_of_outline {options : Options} {state : State} {pieces : List (List UInt8)}
    (h : (outline options state pieces).2 = .ok ()) :
    ∃ lines later,
      pieces.map (Line.ofPiece options.expandEscapes) = lines.map .ok ∧
      finish (feedAll options.imageDirectory.toList state lines).2 = .ok later ∧
      (outline options state pieces).1 =
        (feedAll options.imageDirectory.toList state lines).1 ++ later := by
  induction pieces generalizing state with
  | nil =>
      cases hf : finish state with
      | error e =>
          rw [outline_nil_error hf] at h
          cases h
      | ok events => exact ⟨[], events, rfl, hf, by rw [outline_nil_ok hf]; rfl⟩
  | cons piece pieces ih =>
      cases hp : Line.ofPiece options.expandEscapes piece with
      | error cause =>
          rw [outline_cons_error hp] at h
          cases h
      | ok line =>
          rw [outline_cons_ok hp] at h ⊢
          obtain ⟨lines, later, hl, hf, he⟩ := ih h
          refine ⟨line :: lines, later, ?_, hf, ?_⟩
          · rw [List.map_cons, List.map_cons, hp, hl]
          · simp only [he, feedAll, List.append_assoc]

end Conversion

namespace Registry

variable {σ ω : Type} [Sink σ ω]

theorem writeLine_options (registry : Registry σ ω) (line : Text) :
    (registry.writeLine line).state.options = registry.options := by
  simp only [writeLine]
  split <;> rfl

theorem writeLines_options (registry : Registry σ ω) (lines : List Text) :
    (registry.writeLines lines).state.options = registry.options := by
  induction lines generalizing registry with
  | nil => rfl
  | cons line lines ih =>
      simp only [writeLines]
      cases h : (registry.writeLine line).answer with
      | error e =>
          rw [Outcome.andThen_error h]
          exact writeLine_options registry line
      | ok _ =>
          rw [Outcome.andThen_ok h]
          exact (ih _).trans (writeLine_options registry line)

theorem close_options (registry : Registry σ ω) : registry.close.options = registry.options := by
  simp only [close]
  split <;> rfl

theorem openDocument_options (registry : Registry σ ω) (title : String) :
    (registry.openDocument title).state.options = registry.options := by
  simp only [openDocument]
  split
  · exact close_options registry
  · exact (writeLines_options _ _).trans (close_options registry)

end Registry

namespace Session

variable {σ ω : Type} [Sink σ ω]

theorem performAll_append (session : Session σ ω) (events later : List Event) :
    session.performAll (events ++ later) =
      (session.performAll events).andThen id fun session _ => session.performAll later := by
  induction events generalizing session with
  | nil => simp [performAll, Outcome.andThen]
  | cons event events ih =>
      simp only [List.cons_append, performAll]
      rw [Outcome.andThen_assoc]
      apply Outcome.andThen_congr
      intro _ _
      exact ih _

/-- A line that a session does not refuse goes to its registry. -/
theorem perform_write_ok {session : Session σ ω} {line : Text}
    (h : (session.perform (.write line)).answer = .ok ()) :
    session.perform (.write line) = session.onRegistry (session.registry.writeLine line) := by
  simp only [perform, write] at h ⊢
  split
  · split
    · rename_i hstrict _ _ hforeign
      simp only [hstrict, hforeign, if_true] at h
      cases h
    · rfl
  · rfl

/-- Carrying out events neither reads nor changes the state of the conversion. -/
theorem perform_withState (session : Session σ ω) (state : State) (event : Event) :
    { session with state }.perform event =
      { session.perform event with
        state := { (session.perform event).state with state } } := by
  cases event with
  | read _ _ | token _ | badSpan _ | table _ _ | openDocument _ => rfl
  | write line =>
      simp only [perform, write, onRegistry]
      split
      · split <;> rfl
      · rfl

theorem performAll_withState (session : Session σ ω) (state : State) (events : List Event) :
    { session with state }.performAll events =
      { session.performAll events with
        state := { (session.performAll events).state with state } } := by
  induction events generalizing session with
  | nil => rfl
  | cons event events ih =>
      simp only [performAll]
      rw [perform_withState]
      cases h : (session.perform event).answer with
      | error e => simp only [Outcome.andThen, h, id]
      | ok _ => simp only [Outcome.andThen, h, ih]

theorem perform_options (session : Session σ ω) (event : Event) :
    (session.perform event).state.registry.options = session.registry.options := by
  cases event with
  | read _ _ | token _ | badSpan _ | table _ _ => rfl
  | openDocument title => exact Registry.openDocument_options _ _
  | write line =>
      simp only [perform, write, onRegistry]
      split
      · split
        · rfl
        · exact Registry.writeLine_options _ _
      · exact Registry.writeLine_options _ _

theorem performAll_options (session : Session σ ω) (events : List Event) :
    (session.performAll events).state.registry.options = session.registry.options := by
  induction events generalizing session with
  | nil => rfl
  | cons event events ih =>
      simp only [performAll]
      cases h : (session.perform event).answer with
      | error e =>
          rw [Outcome.andThen_error h]
          exact perform_options session event
      | ok _ =>
          rw [Outcome.andThen_ok h]
          exact (ih _).trans (perform_options session event)

/-- Ends a session once all is done that was set out to do. -/
def conclude (session : Session σ ω) : Except Error Unit → Outcome σ Summary
  | .error e => { state := session.release, answer := .error e }
  | .ok () =>
      session.registry.finish.andThen id fun sink documents =>
        { state := sink
          answer := .ok
            { documents
              scriptName := session.registry.options.scriptName
              tally := session.tally } }

/-- Reading piece by piece comes to the same as carrying out the outline of the whole input. -/
theorem readAll_eq (session : Session σ ω) (pieces : List (List UInt8)) :
    session.readAll pieces =
      (session.performAll (outline session.registry.options session.state pieces).1).andThen
        release fun last _ =>
          last.conclude (outline session.registry.options session.state pieces).2 := by
  induction pieces generalizing session with
  | nil =>
      cases hf : Conversion.finish session.state with
      | error e =>
          rw [outline_nil_error hf]
          simp [readAll, finish, hf, performAll, Outcome.andThen, conclude]
      | ok events =>
          rw [outline_nil_ok hf]
          simp only [readAll, finish, hf, conclude]
  | cons piece pieces ih =>
      cases hp : Line.ofPiece session.registry.options.expandEscapes piece with
      | error cause =>
          rw [outline_cons_error hp]
          simp [readAll, read, hp, performAll, Outcome.andThen, conclude]
      | ok line =>
          rw [outline_cons_ok hp]
          generalize hfeed : feed session.registry.options.imageDirectory.toList session.state line =
            fed
          obtain ⟨events, state⟩ := fed
          have hread : session.read piece = { session with state }.performAll events := by
            simp only [read, hp, hfeed]
          have hstate := performAll_withState session state events
          rw [readAll, hread, performAll_append, Outcome.andThen_assoc]
          cases h : (session.performAll events).answer with
          | error e =>
              have h' : ({ session with state }.performAll events).answer = .error e := by
                rw [hstate, h]
              rw [Outcome.andThen_error h', Outcome.andThen_error h, hstate]
              rfl
          | ok _ =>
              have h' : ({ session with state }.performAll events).answer = .ok () := by
                rw [hstate, h]
              rw [Outcome.andThen_ok h', Outcome.andThen_ok h, ih, hstate]
              simp only [performAll_options, performAll_withState]
              rfl

/-- The events that a session carries out: those before the first that fails. -/
def done (session : Session σ ω) : List Event → List Event
  | [] => []
  | event :: events =>
      match (session.perform event).answer with
      | .error _ => []
      | .ok () => event :: (session.perform event).state.done events

theorem done_of_ok {session : Session σ ω} {events : List Event}
    (h : (session.performAll events).answer = .ok ()) : session.done events = events := by
  induction events generalizing session with
  | nil => rfl
  | cons event events ih =>
      obtain ⟨_, hp, hs⟩ := Outcome.answer_andThen h
      simp only [done, hp, ih hs]

theorem done_withState (session : Session σ ω) (state : State) (events : List Event) :
    { session with state }.done events = session.done events := by
  induction events generalizing session with
  | nil => rfl
  | cons event events ih =>
      rw [done, perform_withState, done]
      cases (session.perform event).answer with
      | error _ => rfl
      | ok _ => exact congrArg (event :: ·) (ih _)

/-- Events that a session carries out do not keep it from those that come later. -/
theorem done_append {session : Session σ ω} {events : List Event}
    (h : (session.performAll events).answer = .ok ()) (later : List Event) :
    session.done (events ++ later) = events ++ (session.performAll events).state.done later := by
  induction events generalizing session with
  | nil => rfl
  | cons event events ih =>
      obtain ⟨_, hanswer, hrest⟩ := Outcome.answer_andThen h
      simp only [List.cons_append, done, hanswer, ih hrest, performAll]
      rw [Outcome.andThen_ok hanswer]

/-- Events behind one that fails are not carried out. -/
theorem done_append_error {session : Session σ ω} {events : List Event} {e : Error}
    (h : (session.performAll events).answer = .error e) (later : List Event) :
    session.done (events ++ later) = session.done events := by
  induction events generalizing session with
  | nil => cases h
  | cons event events ih =>
      cases hevent : (session.perform event).answer with
      | error _ => simp only [List.cons_append, done, hevent]
      | ok _ =>
          rw [performAll, Outcome.andThen_ok hevent] at h
          simp only [List.cons_append, done, hevent, ih h]

end Session

variable {σ ω : Type} [Sink σ ω]

namespace Registry

/-- A registry without documents: its build script holds the header, if there is one. -/
def prepared (sink : σ) (options : Options) (script : ω) : Registry σ ω :=
  match options.scriptHeader with
  | none => { sink, options, script }
  | some header => { sink, options, script : Registry σ ω }.writeScript header.toList

theorem prepared_options (sink : σ) (options : Options) (script : ω) :
    (prepared sink options script).options = options := by
  simp only [prepared]
  split <;> rfl

theorem start_error {sink : σ} {options : Options} {cause : Cause}
    (h : Sink.create sink options.scriptName = .error cause) (title : String) :
    start sink options title = { state := sink, answer := .error (.io cause) } := by
  simp only [start, h]

theorem start_ok {sink sink' : σ} {options : Options} {script : ω}
    (h : Sink.create sink options.scriptName = .ok (sink', script)) (title : String) :
    start sink options title =
      ((prepared sink' options script).openDocument title).andThen release fun registry _ =>
        { state := registry.sink, answer := .ok registry } := by
  simp only [start, h]
  rfl

/-- A run that has started has prepared its registry and opened the first document. -/
theorem of_start {sink : σ} {options : Options} {title : String} {registry : Registry σ ω}
    (h : (start sink options title).answer = .ok registry) :
    ∃ (sink' : σ) (script : ω), Sink.create sink options.scriptName = .ok (sink', script) ∧
      ((prepared sink' options script).openDocument title).answer = .ok () ∧
      ((prepared sink' options script).openDocument title).state = registry := by
  cases hc : Sink.create sink options.scriptName with
  | error cause =>
      rw [start_error hc] at h
      cases h
  | ok created =>
      obtain ⟨sink', script⟩ := created
      rw [start_ok hc] at h
      obtain ⟨_, hopen, hr⟩ := Outcome.answer_andThen h
      cases hr
      exact ⟨sink', script, rfl, hopen, rfl⟩

theorem options_of_start {sink : σ} {options : Options} {title : String}
    {registry : Registry σ ω} (h : (start sink options title).answer = .ok registry) :
    registry.options = options := by
  obtain ⟨sink', script, -, -, rfl⟩ := of_start h
  rw [openDocument_options, prepared_options]

end Registry

def Options.title (options : Options) : String := options.firstTitle.getD Options.defaultTitle

/-- The events that a run carries out once its build script and its first document are open. -/
def runEvents (sink : σ) (options : Options) (input : List UInt8) : List Event :=
  match (Registry.start sink options options.title).answer with
  | .error _ => []
  | .ok registry => Session.done { registry } (outline options {} (Line.pieces input)).1

theorem runEvents_of_start {sink : σ} {options : Options} {registry : Registry σ ω}
    (h : (Registry.start sink options options.title).answer = .ok registry) (input : List UInt8) :
    runEvents sink options input =
      Session.done { registry } (outline options {} (Line.pieces input)).1 := by
  simp only [runEvents, h]

theorem convert_eq (sink : σ) (options : Options) (input : List UInt8) :
    convert sink options input =
      (Registry.start sink options options.title).andThen id fun _ registry =>
        (Session.performAll { registry } (outline options {} (Line.pieces input)).1).andThen
          Session.release fun last _ =>
            last.conclude (outline options {} (Line.pieces input)).2 := by
  apply Outcome.andThen_congr
  intro registry h
  rw [Session.readAll_eq, Registry.options_of_start h]

/-- A run that succeeds has started and carried out all that it set out to do. -/
theorem started_of_convert_ok {sink : σ} {options : Options} {input : List UInt8}
    {summary : Summary} (h : (convert sink options input).answer = .ok summary) :
    ∃ registry : Registry σ ω,
      (Registry.start sink options options.title).answer = .ok registry ∧
      (outline options {} (Line.pieces input)).2 = .ok () ∧
      runEvents sink options input = (outline options {} (Line.pieces input)).1 ∧
      (Session.performAll { registry } (runEvents sink options input)).answer = .ok () := by
  rw [convert_eq] at h
  obtain ⟨registry, hstart, h⟩ := Outcome.answer_andThen h
  obtain ⟨_, hall, hend⟩ := Outcome.answer_andThen h
  have hrun : runEvents sink options input = (outline options {} (Line.pieces input)).1 := by
    rw [runEvents_of_start hstart]
    exact Session.done_of_ok hall
  refine ⟨registry, hstart, ?_, hrun, by rwa [hrun]⟩
  cases ho : (outline options {} (Line.pieces input)).2 with
  | error e =>
      rw [ho] at hend
      cases hend
  | ok _ => rfl

/-- What a run that succeeds comes to: its documents are closed once all events are carried out. -/
theorem convert_of_ok {sink : σ} {options : Options} {input : List UInt8} {summary : Summary}
    (h : (convert sink options input).answer = .ok summary) {registry : Registry σ ω}
    (hstart : (Registry.start sink options options.title).answer = .ok registry) :
    let done := Session.performAll { registry } (runEvents sink options input)
    let finished := done.state.registry.finish
    finished.answer = .ok summary.documents ∧
      (convert sink options input).state = finished.state ∧
      (convert sink options input).notices =
        (Registry.start sink options options.title).notices ++
          (done.notices ++ finished.notices) ∧
      summary.scriptName = options.scriptName ∧ summary.tally = done.state.tally := by
  obtain ⟨registry', hstart', hend, hrun, hall⟩ := started_of_convert_ok h
  cases hstart.symm.trans hstart'
  rw [convert_eq, Outcome.andThen_ok hstart, ← hrun, Outcome.andThen_ok hall, hend] at h ⊢
  obtain ⟨documents, hdocs, hsum⟩ := Outcome.answer_andThen h
  simp only [Session.conclude, Outcome.andThen_ok hdocs, List.append_nil]
  cases hsum
  refine ⟨hdocs, trivial, trivial, ?_, rfl⟩
  rw [Session.performAll_options, Registry.options_of_start hstart]

/-- A run that succeeds has read every line, carried out all events and closed all documents. -/
theorem convert_ok {sink : σ} {options : Options} {input : List UInt8} {summary : Summary}
    (h : (convert sink options input).answer = .ok summary) :
    ∃ (registry : Registry σ ω) (lines : List Text) (later : List Event),
      (Registry.start sink options options.title).answer = .ok registry ∧
      (Line.pieces input).map (Line.ofPiece options.expandEscapes) = lines.map .ok ∧
      finish (feedAll options.imageDirectory.toList {} lines).2 = .ok later ∧
      runEvents sink options input =
        (feedAll options.imageDirectory.toList {} lines).1 ++ later ∧
      (Session.performAll { registry } (runEvents sink options input)).answer = .ok () := by
  obtain ⟨registry, hstart, hend, hrun, hall⟩ := started_of_convert_ok h
  obtain ⟨lines, later, hlines, hfin, hev⟩ := lines_of_outline hend
  exact ⟨registry, lines, later, hstart, hlines, hfin, hrun.trans hev, hall⟩

end WikiDocs

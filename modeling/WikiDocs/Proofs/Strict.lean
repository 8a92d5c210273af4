import WikiDocs.Proofs.Composition
import WikiDocs.Proofs.Watching

/-!
Strict runs as filters. A strict run does what a lax one does, up to the first
line that is not Latin-1; there it stops before anything is done with that line.
-/

namespace WikiDocs

open Conversion

variable {σ ω : Type} [Sink σ ω]

/-- Events are cut before the first line that is not Latin-1. -/
theorem exists_foreign (events : List Event) :
    (∀ event ∈ events, event.foreign? = none) ∨
      ∃ front text char later, events = front ++ .write text :: later ∧
        (∀ event ∈ front, event.foreign? = none) ∧ Session.foreign? text = some char := by
  induction events with
  | nil => exact .inl (by simp)
  | cons event events ih =>
      cases hforeign : event.foreign? with
      | some char =>
          cases event with
          | write text => exact .inr ⟨[], text, char, events, rfl, by simp, hforeign⟩
          | read _ _ | token _ | badSpan _ | table _ _ | openDocument _ => cases hforeign
      | none =>
          obtain hnone | ⟨front, text, char, later, rfl, hfront, htext⟩ := ih
          · exact .inl (List.forall_mem_cons.2 ⟨hforeign, hnone⟩)
          · exact .inr ⟨event :: front, text, char, later, rfl,
              List.forall_mem_cons.2 ⟨hforeign, hfront⟩, htext⟩

theorem foreign?_eq_none {text : Text} :
    Session.foreign? text = none ↔ ∀ c ∈ text, c.toNat ≤ 0xFF := by
  simp [Session.foreign?]

theorem foreign?_eq_some {text : Text} {char : Char} (h : Session.foreign? text = some char) :
    ∃ front back, text = front ++ char :: back ∧ (∀ c ∈ front, c.toNat ≤ 0xFF) ∧
      0xFF < char.toNat := by
  obtain ⟨hchar, front, back, htext, hfront⟩ := List.find?_eq_some_iff_append.1 h
  exact ⟨front, back, htext, fun c hc => by simpa using hfront c hc, by simpa using hchar⟩

namespace Registry

theorem isSome_writeLine {registry : Registry σ ω} (h : registry.current.isSome) (line : Text) :
    (registry.writeLine line).answer = .ok () ∧
      (registry.writeLine line).state.current.isSome := by
  obtain ⟨⟨document, file⟩, hcurrent⟩ := Option.isSome_iff_exists.1 h
  simp [writeLine, hcurrent]

theorem isSome_writeLines {registry : Registry σ ω} (h : registry.current.isSome)
    (lines : List Text) : (registry.writeLines lines).state.current.isSome := by
  induction lines generalizing registry with
  | nil => exact h
  | cons line lines ih =>
      obtain ⟨hanswer, hcurrent⟩ := isSome_writeLine h line
      rw [writeLines, Outcome.andThen_ok hanswer]
      exact ih hcurrent

theorem isSome_openDocument {registry : Registry σ ω} {title : String}
    (h : (registry.openDocument title).answer = .ok ()) :
    (registry.openDocument title).state.current.isSome := by
  cases hc : Sink.create registry.close.sink
      (documentOf registry.close.options title).fileName with
  | error cause =>
      rw [openDocument_error hc] at h
      cases h
  | ok result =>
      obtain ⟨sink, file⟩ := result
      have hcurrent : (registry.created title sink file).current.isSome := rfl
      rw [openDocument_ok hc]
      exact isSome_writeLines hcurrent _

theorem isSome_of_start {sink : σ} {options : Options} {title : String}
    {registry : Registry σ ω} (h : (start sink options title).answer = .ok registry) :
    registry.current.isSome := by
  obtain ⟨sink', script, -, hopen, rfl⟩ := of_start h
  exact isSome_openDocument hopen

end Registry

namespace Session

/-- A document stays open as long as nothing fails. -/
theorem isSome_performAll {session : Session σ ω} (h : session.registry.current.isSome)
    {events : List Event} (hok : (session.performAll events).answer = .ok ()) :
    (session.performAll events).state.registry.current.isSome := by
  induction events generalizing session with
  | nil => exact h
  | cons event events ih =>
      obtain ⟨_, hevent, hrest⟩ := Outcome.answer_andThen hok
      rw [performAll, Outcome.andThen_ok hevent]
      refine ih ?_ hrest
      cases event with
      | read _ _ | token _ | badSpan _ | table _ _ => exact h
      | openDocument title => exact Registry.isSome_openDocument hevent
      | write line =>
          rw [perform_write_ok hevent]
          exact (Registry.isSome_writeLine h line).2

theorem write_lax {session : Session σ ω}
    (hlax : session.registry.options.strictLatin1 = false) (line : Text) :
    session.write line = session.onRegistry (session.registry.writeLine line) := by
  simp [write, hlax]

theorem write_refused {session : Session σ ω}
    (hstrict : session.registry.options.strictLatin1 = true) {line : Text} {char : Char}
    (h : foreign? line = some char) :
    session.write line =
      { state := session, answer := .error (.notLatin1 session.tally.lines char) } := by
  simp [write, hstrict, h]

end Session

/-- The lines read by events that begin an outline are those of the first pieces of the input. -/
theorem read_outline {options : Options} {state : State} (hs : state.Settled)
    (pieces : List (List UInt8)) {front later : List Event}
    (h : (outline options state pieces).1 = front ++ later) :
    (front.filterMap Event.line?).map .ok =
      (pieces.take (front.filterMap Event.line?).length).map
        (Line.ofPiece options.expandEscapes) := by
  induction pieces generalizing state front with
  | nil =>
      have hquiet : front.filterMap Event.line? = [] := by
        refine (quiet_of_isOutput fun event hevent => ?_).1
        cases hf : finish state with
        | error e =>
            rw [outline_nil_error hf] at h
            rw [(List.append_eq_nil_iff.1 h.symm).1] at hevent
            cases hevent
        | ok events =>
            rw [outline_nil_ok hf] at h
            have hall : events = front ++ later := h
            refine finish_isOutput hf event ?_
            rw [hall]
            exact List.mem_append_left later hevent
      rw [hquiet]
      rfl
  | cons piece pieces ih =>
      cases hp : Line.ofPiece options.expandEscapes piece with
      | error cause =>
          rw [outline_cons_error hp] at h
          rw [(List.append_eq_nil_iff.1 h.symm).1]
          rfl
      | ok line =>
          obtain ⟨_, turns, settled⟩ := feed_turns options.imageDirectory.toList hs line []
          have hread : (feed options.imageDirectory.toList state line).1.filterMap Event.line? =
              [line] := by simpa using (turns_reads turns).1
          rw [outline_cons_ok hp] at h
          obtain ⟨more, hfeed, -⟩ | ⟨more, rfl, hrest⟩ := List.append_eq_append_iff.1 h.symm
          · -- The events end within what one line comes to: it was read, or nothing was.
            rw [hfeed, List.filterMap_append] at hread
            obtain ⟨hnil, -⟩ | ⟨hline, -⟩ := List.append_eq_singleton_iff.1 hread
            · rw [hnil]
              rfl
            · rw [hline]
              simp [hp]
          · rw [List.filterMap_append, hread]
            simp [hp, ih settled hrest]

theorem runEvents_isPrefix (sink : σ) (options : Options) (input : List UInt8) :
    runEvents sink options input <+: (outline options {} (Line.pieces input)).1 := by
  simp only [runEvents]
  split
  · exact List.nil_prefix
  · exact Session.done_isPrefix _ _

/-- Whether or not a run succeeds, the lines that it reads are the first of its input. -/
theorem read_runEvents (sink : σ) (options : Options) (input : List UInt8) :
    ((runEvents sink options input).filterMap Event.line?).map .ok =
      ((Line.pieces input).take ((runEvents sink options input).filterMap Event.line?).length).map
        (Line.ofPiece options.expandEscapes) := by
  obtain ⟨rest, hrest⟩ := runEvents_isPrefix sink options input
  exact read_outline State.settled_start _ hrest.symm

theorem performAll_append_error {session : Session σ ω} {events : List Event} {e : Error}
    (h : (session.performAll events).answer = .error e) (later : List Event) :
    session.performAll (events ++ later) = session.performAll events := by
  rw [Session.performAll_append, Outcome.andThen_error h, ← h]
  rfl

section Line

variable {sink : σ} {options : Options} {input : List UInt8} {registry : Registry σ ω}
  {front later : List Event} {text : Text}
  (hstart : (Registry.start sink options options.title).answer = .ok registry)
  (hevents : (outline options {} (Line.pieces input)).1 = front ++ .write text :: later)
  (hok : (Session.performAll { registry } front).answer = .ok ())
include hstart hevents hok

/-- A strict run stops at a line that is not Latin-1, once all before it is done. -/
theorem stopped_of_strict (hstrict : options.strictLatin1 = true) {char : Char}
    (htext : Session.foreign? text = some char) :
    runEvents sink options input = front ∧
      (convert sink options input).answer =
        .error (.notLatin1 (front.filterMap Event.line?).length char) ∧
      (convert sink options input).state =
        (Session.performAll { registry } front).state.registry.release := by
  have hlast : (Session.performAll { registry } front).state.registry.options.strictLatin1 =
      true := by rw [Session.performAll_options, Registry.options_of_start hstart, hstrict]
  have hwrite : (Session.performAll { registry } front).state.perform (.write text) = _ :=
    Session.write_refused hlast htext
  have hlines : (Session.performAll { registry } front).state.tally.lines =
      (front.filterMap Event.line?).length := by
    rw [Session.performAll_tally hok, Tally.lines_foldl, Nat.zero_add]
  refine ⟨?_, ?_⟩
  · rw [runEvents_of_start hstart, hevents, Session.done_append hok, Session.done, hwrite]
    exact List.append_nil front
  · rw [convert_eq, Outcome.andThen_ok hstart, hevents, Session.performAll_append,
      Outcome.andThen_ok hok, Session.performAll, hwrite, hlines]
    exact ⟨rfl, rfl⟩

/-- A lax run goes on with the line. -/
theorem goes_on_of_lax (hlax : options.strictLatin1 = false) :
    (∃ more, runEvents sink options input = front ++ .write text :: more) ∧
      ∀ R : σ → σ → Prop, Sink.Carries R →
        R ((Session.performAll { registry } front).state.registry.writeLine text).state.sink
          (convert sink options input).state := by
  have hlast : (Session.performAll { registry } front).state.registry.options.strictLatin1 =
      false := by rw [Session.performAll_options, Registry.options_of_start hstart, hlax]
  have hwrite : (Session.performAll { registry } front).state.perform (.write text) = _ :=
    Session.write_lax hlast text
  have hopen := Session.isSome_performAll (Registry.isSome_of_start hstart) hok
  have hanswer : ((Session.performAll { registry } front).state.perform (.write text)).answer =
      .ok () := by
    rw [hwrite]
    exact (Registry.isSome_writeLine hopen text).1
  refine ⟨?_, fun R hR => ?_⟩
  · rw [runEvents_of_start hstart, hevents, Session.done_append hok, Session.done, hanswer]
    exact ⟨_, rfl⟩
  · rw [convert_eq, Outcome.andThen_ok hstart, hevents, Session.performAll_append,
      Outcome.andThen_assoc, Outcome.andThen_ok hok, Session.performAll, Outcome.andThen_assoc,
      Outcome.andThen_ok hanswer]
    have hsink := congrArg (Outcome.state · |>.registry.sink) hwrite
    have hrest := Session.carries_run hR
      ((Session.performAll { registry } front).state.perform (.write text)).state later
      (outline options {} (Line.pieces input)).2
    simp only [hsink] at hrest
    exact hrest

end Line

/-- A strict run comes to the same as a lax one that writes nothing but Latin-1, or it stops at the
first line that is not Latin-1, where the lax one goes on. -/
theorem strict_or_stopped (sink : σ) (options : Options) (input : List UInt8) :
    (convert sink (options.withStrict true) input = convert sink (options.withStrict false) input ∧
      ∀ event ∈ runEvents sink (options.withStrict false) input, event.foreign? = none) ∨
      ∃ (session : Session σ ω) (text : Text) (char : Char) (more : List Event),
        session.registry.current.isSome ∧ Session.foreign? text = some char ∧
        runEvents sink (options.withStrict false) input =
          runEvents sink (options.withStrict true) input ++ .write text :: more ∧
        (convert sink (options.withStrict true) input).answer = .error (.notLatin1
          ((runEvents sink (options.withStrict true) input).filterMap Event.line?).length char) ∧
        (convert sink (options.withStrict true) input).state = session.registry.release ∧
        ∀ R : σ → σ → Prop, Sink.Carries R → R (session.registry.writeLine text).state.sink
          (convert sink (options.withStrict false) input).state := by
  have htwin := Registry.seen_start (Sink.View.self σ) true sink (options.withStrict false)
    options.title
  obtain hnone | ⟨front, text, char, later, hevents, hfront, htext⟩ :=
    exists_foreign (outline (options.withStrict false) {} (Line.pieces input)).1
  · have hseen := seen_convert (Sink.View.self σ) true sink (.inr hnone)
    refine .inl ⟨hseen.trans (Outcome.map_id _), fun event hevent => hnone event ?_⟩
    exact (runEvents_isPrefix _ _ _).subset hevent
  by_cases hreached : ∃ registry : Registry σ ω,
      (Registry.start sink (options.withStrict false) options.title).answer = .ok registry ∧
        (Session.performAll { registry } front).answer = .ok ()
  · obtain ⟨registry, hstart, hok⟩ := hreached
    have hperform := Session.seen_performAll (Sink.View.self σ) true { registry } (.inr hfront)
    have hstart' : (Registry.start sink (options.withStrict true) options.title).answer =
        .ok (registry.seen (Sink.View.self σ) true) :=
      (congrArg Outcome.answer htwin).trans (Outcome.map_ok hstart)
    have hok' : ((Session.seen (Sink.View.self σ) true { registry }).performAll front).answer =
        .ok () := (congrArg Outcome.answer hperform).trans (Outcome.map_ok hok)
    have hexpand : (options.withStrict true).expandEscapes =
        (options.withStrict false).expandEscapes := rfl
    have hevents' := hevents
    rw [← outline_congr hexpand rfl] at hevents'
    obtain ⟨hrun, hanswer, hreleased⟩ := stopped_of_strict hstart' hevents' hok' rfl htext
    obtain ⟨⟨more, hmore⟩, hcarries⟩ := goes_on_of_lax hstart hevents hok rfl
    refine .inr ⟨(Session.performAll { registry } front).state, text, char, more,
      Session.isSome_performAll (Registry.isSome_of_start hstart) hok, htext, ?_, ?_, ?_, hcarries⟩
    · rw [hrun, hmore]
    · rw [hrun, hanswer]
    · have hlast := congrArg (Outcome.state · |>.registry) hperform
      rw [hreleased]
      exact (congrArg Registry.release hlast).trans (Registry.seen_release _ _ _)
  · -- The lax run fails before it comes to the line.
    have hseen : convert sink (options.withStrict true) input =
        (convert sink (options.withStrict false) input).map id id := by
      refine seen_convert_of_performAll (Sink.View.self σ) true sink (options.withStrict false)
        input fun registry hstart => ?_
      cases hanswer : (Session.performAll { registry } front).answer with
      | ok _ => exact absurd ⟨registry, hstart, hanswer⟩ hreached
      | error e =>
          have hperform := Session.seen_performAll (Sink.View.self σ) true { registry }
            (.inr hfront)
          have hanswer' := (congrArg Outcome.answer hperform).trans (Outcome.map_error hanswer)
          rw [hevents, performAll_append_error hanswer, performAll_append_error hanswer', hperform]
    refine .inl ⟨hseen.trans (Outcome.map_id _), fun event hevent => hfront event ?_⟩
    simp only [runEvents] at hevent
    split at hevent
    · cases hevent
    · rename_i registry hstart
      cases hanswer : (Session.performAll { registry } front).answer with
      | ok _ => exact absurd ⟨registry, hstart, hanswer⟩ hreached
      | error e =>
          rw [hevents, Session.done_append_error hanswer] at hevent
          exact (Session.done_isPrefix _ _).subset hevent

/-- A strict run is the lax run, of which all lines are Latin-1, or it fails at a line of it: all that
was done to the sink before it is the same, the next thing that the lax run does is to write that line,
and the error names its first character beyond Latin-1 and the number of lines that were read. Without
a journal both runs are the same as with one. -/
theorem strict_filters (sink : σ) (options : Options) (input : List UInt8) :
    let watched : Watched σ := ⟨sink, {}⟩
    let strict := convert watched (options.withStrict true) input
    let lax := convert watched (options.withStrict false) input
    let strictRun := runEvents watched (options.withStrict true) input
    let laxRun := runEvents watched (options.withStrict false) input
    let read := strictRun.filterMap Event.line?
    ((strict = lax ∧ ∀ line, .write line ∈ laxRun → ∀ c ∈ line, c.toNat ≤ 0xFF) ∨
      ∃ (file : Nat) (text front back : Text) (char : Char) (later : List Journal.Step)
        (more : List Event),
        strict.answer = .error (.notLatin1 read.length char) ∧
          lax.state.steps = strict.state.steps ++ .writeLine file text :: later ∧
          laxRun = strictRun ++ .write text :: more ∧
          text = front ++ char :: back ∧ (∀ c ∈ front, c.toNat ≤ 0xFF) ∧ 0xFF < char.toNat) ∧
      read.map .ok =
        ((Line.pieces input).take read.length).map (Line.ofPiece options.expandEscapes) ∧
      strict.map Watched.sink id = convert sink (options.withStrict true) input ∧
      lax.map Watched.sink id = convert sink (options.withStrict false) input := by
  intro watched strict lax strictRun laxRun read
  refine ⟨?_, read_runEvents watched (options.withStrict true) input,
    Watched.convert_view _ _ _, Watched.convert_view _ _ _⟩
  refine (strict_or_stopped watched options input).imp ?_ ?_
  · rintro ⟨heq, hlines⟩
    exact ⟨heq, fun line hline => foreign?_eq_none.1 (hlines _ hline)⟩
  rintro ⟨session, text, char, more, hopen, htext, hrun, hanswer, hstate, hcarries⟩
  obtain ⟨front, back, hsplit, hfront, hchar⟩ := foreign?_eq_some htext
  obtain ⟨file, hfile⟩ := Watched.steps_writeLine hopen text
  obtain ⟨later, hlater⟩ := hcarries _ Watched.carries_steps
  refine ⟨file, text, front, back, char, later, more, hanswer, ?_, hrun, hsplit, hfront, hchar⟩
  change lax.state.steps = (convert watched (options.withStrict true) input).state.steps ++ _
  rw [hstate, Watched.steps_release, ← hlater, hfile, List.append_assoc, List.singleton_append]

end WikiDocs

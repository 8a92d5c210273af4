import WikiDocs.Proofs.Run

/-!
Runs seen through a view. A view shows a sink as another sink and agrees with
all that can be done to it, so a run on what it shows is what it shows of a
run. Whether a run is strict makes no difference to it either, as long as no
line is written that a strict run would refuse.
-/

namespace WikiDocs

open Conversion

namespace Outcome

variable {σ τ υ χ α β γ δ : Type}

/-- An outcome with its state and its result shown otherwise. -/
def map (f : σ → τ) (g : α → β) (o : Outcome σ α) : Outcome τ β :=
  { state := f o.state, notices := o.notices, answer := o.answer.map g }

theorem map_id (o : Outcome σ α) : o.map id id = o := by
  rw [map, Except.map_id]
  rfl

theorem map_ok {f : σ → τ} {g : α → β} {o : Outcome σ α} {a : α} (h : o.answer = .ok a) :
    (o.map f g).answer = .ok (g a) := by
  rw [map, h]
  rfl

theorem map_error {f : σ → τ} {g : α → β} {o : Outcome σ α} {e : Error}
    (h : o.answer = .error e) : (o.map f g).answer = .error e := by
  rw [map, h]
  rfl

theorem andThen_map {f : σ → τ} {g : α → β} {f' : υ → χ} {g' : γ → δ} {o : Outcome σ α}
    {abandon : σ → υ} {abandon' : τ → χ} {next : σ → α → Outcome υ γ}
    {next' : τ → β → Outcome χ δ} (habandon : ∀ s, abandon' (f s) = f' (abandon s))
    (hnext : ∀ a, o.answer = .ok a → next' (f o.state) (g a) = (next o.state a).map f' g') :
    (o.map f g).andThen abandon' next' = (o.andThen abandon next).map f' g' := by
  cases ha : o.answer with
  | error e =>
      rw [andThen_error (map_error ha), andThen_error ha, map]
      exact congrArg (Outcome.mk · o.notices (.error e)) (habandon o.state)
  | ok a =>
      rw [andThen_ok (map_ok ha), andThen_ok ha]
      simp only [map] at hnext ⊢
      rw [hnext a ha]

end Outcome

namespace Registry

variable {σ ω : Type} [Sink σ ω]

/-- The notice given before a document takes the place of an earlier one. -/
def repeated (registry : Registry σ ω) (title : String) : List Notice :=
  if title ∈ registry.titles then [.overwriting (documentOf registry.options title).fileName]
  else []

/-- A registry right after a document was created, before its banner is written. -/
def created (registry : Registry σ ω) (title : String) (sink : σ) (file : ω) : Registry σ ω :=
  let document := documentOf registry.close.options title
  { { registry.close with sink, titles := title :: registry.close.titles }.writeScript
      (scriptLine registry.close.options document) with current := some (document, file) }

theorem openDocument_error {registry : Registry σ ω} {title : String} {cause : Cause}
    (h : Sink.create registry.close.sink (documentOf registry.close.options title).fileName =
      .error cause) :
    registry.openDocument title =
      { state := { registry.close with titles := title :: registry.close.titles }
        notices := registry.close.repeated title
        answer := .error (.io cause) } := by
  rw [close_options] at h
  simp only [openDocument, h, repeated, close_options]

theorem openDocument_ok {registry : Registry σ ω} {title : String} {sink : σ} {file : ω}
    (h : Sink.create registry.close.sink (documentOf registry.close.options title).fileName =
      .ok (sink, file)) :
    registry.openDocument title =
      let banner := (registry.created title sink file).writeLines (Rst.banner title.toList)
      { banner with
        notices := registry.close.repeated title ++ .parsing title :: banner.notices } := by
  rw [close_options] at h
  simp only [openDocument, h, repeated, created, close_options]

end Registry

/-- A view of a sink as another one. -/
structure Sink.View (σ τ : Type) {ω φ : Type} [Sink σ ω] [Sink τ φ] where
  sink : σ → τ
  file : ω → φ
  create_eq (s : σ) (name : String) :
    create (sink s) name = (create s name).map fun (s, f) => (sink s, file f)
  writeLine_eq (s : σ) (f : ω) (line : Text) :
    writeLine (sink s) (file f) line = (sink (writeLine s f line).1, file (writeLine s f line).2)
  flush_eq (s : σ) (f : ω) : (flush (sink s) (file f)).1 = sink (flush s f).1
  finishScript_eq (s : σ) (name : String) :
    finishScript (sink s) name = (sink (finishScript s name).1, (finishScript s name).2)

/-- The view that shows a sink as it is. -/
def Sink.View.self (σ : Type) {ω : Type} [Sink σ ω] : View σ σ where
  sink := id
  file := id
  create_eq s name := congrFun Except.map_id.symm (create s name)
  writeLine_eq _ _ _ := rfl
  flush_eq _ _ := rfl
  finishScript_eq _ _ := rfl

/-- The first character beyond Latin-1 that an event writes to a document as a line. -/
def Event.foreign? : Event → Option Char
  | .write line => Session.foreign? line
  | _ => none

def Options.withStrict (strict : Bool) (options : Options) : Options :=
  { options with strictLatin1 := strict }

section Seen

variable {σ τ ω φ : Type} [Sink σ ω] [Sink τ φ] (view : Sink.View σ τ) (strict : Bool)

namespace Registry

/-- A registry with its sink seen through a view, for a run that is strict or not. -/
def seen (registry : Registry σ ω) : Registry τ φ where
  sink := view.sink registry.sink
  options := registry.options.withStrict strict
  script := view.file registry.script
  current := registry.current.map fun (document, file) => (document, view.file file)
  closed := registry.closed
  titles := registry.titles

variable (registry : Registry σ ω)

theorem seen_close : (registry.seen view strict).close = registry.close.seen view strict := by
  cases hcurrent : registry.current with
  | none => simp [close, seen, hcurrent]
  | some open_ => simp [close, seen, hcurrent, view.flush_eq]

theorem seen_writeLine (line : Text) :
    (registry.seen view strict).writeLine line =
      (registry.writeLine line).map (seen view strict) id := by
  cases hcurrent : registry.current with
  | none => simp [writeLine, seen, hcurrent, Outcome.map, Except.map]
  | some open_ => simp [writeLine, seen, hcurrent, Outcome.map, Except.map, view.writeLine_eq]

theorem seen_writeLines (lines : List Text) :
    (registry.seen view strict).writeLines lines =
      (registry.writeLines lines).map (seen view strict) id := by
  induction lines generalizing registry with
  | nil => rfl
  | cons line lines ih =>
      rw [writeLines, writeLines, seen_writeLine]
      exact Outcome.andThen_map (fun _ => rfl) fun _ _ => ih _

theorem seen_created (title : String) (sink : σ) (file : ω) :
    (registry.seen view strict).created title (view.sink sink) (view.file file) =
      (registry.created title sink file).seen view strict := by
  simp only [created, seen_close]
  simp only [writeScript, seen, view.writeLine_eq]
  rfl

theorem seen_openDocument (title : String) :
    (registry.seen view strict).openDocument title =
      (registry.openDocument title).map (seen view strict) id := by
  have hclose := seen_close view strict registry
  have hcreate := view.create_eq registry.close.sink
    (documentOf registry.close.options title).fileName
  cases h : Sink.create registry.close.sink (documentOf registry.close.options title).fileName with
  | error cause =>
      rw [h] at hcreate
      rw [openDocument_error h, openDocument_error (by rw [hclose]; exact hcreate), hclose]
      rfl
  | ok created =>
      obtain ⟨sink, file⟩ := created
      rw [h] at hcreate
      rw [openDocument_ok h, openDocument_ok (by rw [hclose]; exact hcreate), seen_created,
        seen_writeLines, hclose]
      rfl

theorem seen_release : (registry.seen view strict).release = view.sink registry.release := by
  cases hcurrent : registry.current with
  | none => simp [release, seen, hcurrent, view.flush_eq]
  | some open_ => simp [release, seen, hcurrent, view.flush_eq]

theorem seen_finish :
    (registry.seen view strict).finish = registry.finish.map view.sink id := by
  simp only [finish, seen_close]
  simp only [seen, view.flush_eq, view.finishScript_eq, Options.withStrict]
  split <;> simp [Outcome.map, Except.map]

theorem seen_prepared (sink : σ) (options : Options) (script : ω) :
    prepared (view.sink sink) (options.withStrict strict) (view.file script) =
      (prepared sink options script).seen view strict := by
  cases h : options.scriptHeader with
  | none => simp [prepared, seen, Options.withStrict, h]
  | some header => simp [prepared, seen, writeScript, Options.withStrict, h, view.writeLine_eq]

theorem seen_start (sink : σ) (options : Options) (title : String) :
    start (view.sink sink) (options.withStrict strict) title =
      (start sink options title).map view.sink (seen view strict) := by
  have hcreate : Sink.create (view.sink sink) (options.withStrict strict).scriptName = _ :=
    view.create_eq sink options.scriptName
  cases h : Sink.create sink options.scriptName with
  | error cause =>
      rw [h] at hcreate
      rw [start_error h, start_error hcreate]
      rfl
  | ok created =>
      obtain ⟨sink', script⟩ := created
      rw [h] at hcreate
      rw [start_ok h, start_ok hcreate, seen_prepared, seen_openDocument]
      exact Outcome.andThen_map (seen_release view strict) fun _ _ => rfl

end Registry

namespace Session

/-- A session with its registry seen through a view. -/
def seen (session : Session σ ω) : Session τ φ where
  registry := session.registry.seen view strict
  state := session.state
  tally := session.tally

variable (session : Session σ ω)

theorem seen_perform {event : Event}
    (h : strict = session.registry.options.strictLatin1 ∨ event.foreign? = none) :
    (session.seen view strict).perform event =
      (session.perform event).map (seen view strict) id := by
  cases event with
  | read _ _ | token _ | badSpan _ | table _ _ => rfl
  | openDocument title =>
      simp only [perform, onRegistry, seen, Registry.seen_openDocument]
      rfl
  | write line =>
      have hlax : (session.seen view strict).onRegistry
          ((session.seen view strict).registry.writeLine line) =
          (session.onRegistry (session.registry.writeLine line)).map (seen view strict) id := by
        simp only [onRegistry, seen, Registry.seen_writeLine]
        rfl
      simp only [perform, write, hlax]
      cases hforeign : foreign? line with
      | none => simp only [ite_self]
      | some char =>
          obtain rfl | hnone := h
          · change (if session.registry.options.strictLatin1 = true then _ else _) = _
            by_cases hstrict : session.registry.options.strictLatin1 = true
            · rw [if_pos hstrict, if_pos hstrict]
              rfl
            · rw [if_neg hstrict, if_neg hstrict]
          · cases hforeign.symm.trans hnone

theorem seen_performAll {events : List Event}
    (h : strict = session.registry.options.strictLatin1 ∨
      ∀ event ∈ events, event.foreign? = none) :
    (session.seen view strict).performAll events =
      (session.performAll events).map (seen view strict) id := by
  induction events generalizing session with
  | nil => rfl
  | cons event events ih =>
      rw [List.forall_mem_cons] at h
      rw [performAll, performAll, seen_perform view strict session (h.imp_right And.left)]
      refine Outcome.andThen_map (fun _ => rfl) fun _ _ => ih _ ?_
      rw [perform_options]
      exact h.imp_right And.right

theorem seen_conclude (ending : Except Error Unit) :
    (session.seen view strict).conclude ending = (session.conclude ending).map view.sink id := by
  cases ending with
  | error e =>
      simp only [conclude, release]
      rw [seen, Registry.seen_release]
      rfl
  | ok _ =>
      simp only [conclude, seen, Registry.seen_finish]
      exact Outcome.andThen_map (fun _ => rfl) fun _ _ => rfl

end Session

/-- What is seen of a run is the run on what is seen of its sink, if that is so for its events. -/
theorem seen_convert_of_performAll (sink : σ) (options : Options) (input : List UInt8)
    (h : ∀ registry : Registry σ ω, (Registry.start sink options options.title).answer =
        .ok registry →
      (Session.seen view strict { registry }).performAll
          (outline options {} (Line.pieces input)).1 =
        (Session.performAll { registry } (outline options {} (Line.pieces input)).1).map
          (Session.seen view strict) id) :
    convert (view.sink sink) (options.withStrict strict) input =
      (convert sink options input).map view.sink id := by
  have hexpand : (options.withStrict strict).expandEscapes = options.expandEscapes := rfl
  have htitle : (options.withStrict strict).title = options.title := rfl
  rw [convert_eq, convert_eq, outline_congr hexpand rfl, htitle, Registry.seen_start]
  refine Outcome.andThen_map (fun _ => rfl) fun registry hstart => ?_
  change ((Session.seen view strict { registry }).performAll _).andThen _ _ = _
  rw [h registry hstart]
  exact Outcome.andThen_map (fun last => Registry.seen_release view strict last.registry)
    fun _ _ => Session.seen_conclude view strict _ _

/-- Whether a run is strict makes no difference if it writes no line that a strict run refuses. -/
theorem seen_convert (sink : σ) {options : Options} {input : List UInt8}
    (h : strict = options.strictLatin1 ∨
      ∀ event ∈ (outline options {} (Line.pieces input)).1, event.foreign? = none) :
    convert (view.sink sink) (options.withStrict strict) input =
      (convert sink options input).map view.sink id := by
  refine seen_convert_of_performAll view strict sink options input fun registry hstart => ?_
  refine Session.seen_performAll view strict _ (h.imp_left fun heq => heq.trans ?_)
  rw [Registry.options_of_start hstart]

end Seen
end WikiDocs

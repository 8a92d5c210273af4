import Mathlib.Data.List.Basic
import WikiDocs.Proofs.Views

/-!
Traced runs. A run that is traced records each token and each table, and does
the same as without that: its state and its answer are those of the run that is
not traced, and so are its notices without the records.
-/

namespace WikiDocs

open Conversion

/-- Whether a notice is a record of a trace. -/
def Notice.isRecord (notice : Notice) : Bool := notice.level = .debug

/-- What a traced run records of an event. -/
def Event.record? : Event → Option Notice
  | .token m => some (.token m.token.kind m.taken)
  | .table _ set => some (.table set.rowCount set.columnCount set.hasMerged)
  | .read _ _ | .badSpan _ | .openDocument _ | .write _ => none

def Options.withTrace (traced : Bool) (options : Options) : Options :=
  { options with traceTokens := traced }

namespace Outcome

variable {σ τ υ χ α β γ δ : Type}

/-- An outcome without its records, with its state and its result shown otherwise. -/
def unrecorded (f : σ → τ) (g : α → β) (o : Outcome σ α) : Outcome τ β :=
  { o.map f g with notices := o.notices.filter (!·.isRecord) }

theorem unrecorded_of_notices {f : σ → τ} {g : α → β} {o : Outcome σ α}
    (h : ∀ notice ∈ o.notices, notice.isRecord = false) : o.unrecorded f g = o.map f g := by
  have hall : o.notices.filter (!·.isRecord) = o.notices :=
    List.filter_eq_self.2 fun notice hnotice => by rw [h notice hnotice, Bool.not_false]
  rw [unrecorded, hall]
  rfl

theorem andThen_unrecorded {f : σ → τ} {g : α → β} {f' : υ → χ} {g' : γ → δ} {o : Outcome σ α}
    {abandon : σ → υ} {abandon' : τ → χ} {next : σ → α → Outcome υ γ}
    {next' : τ → β → Outcome χ δ} (habandon : ∀ s, abandon' (f s) = f' (abandon s))
    (hnext : ∀ a, o.answer = .ok a →
      next' (f o.state) (g a) = (next o.state a).unrecorded f' g') :
    (o.unrecorded f g).andThen abandon' next' = (o.andThen abandon next).unrecorded f' g' := by
  cases ha : o.answer with
  | error e =>
      have herror : (o.map f g).answer = .error e := map_error ha
      rw [andThen_error (o := o.unrecorded f g) herror, andThen_error ha, unrecorded]
      exact congrArg (Outcome.mk · _ (.error e)) (habandon o.state)
  | ok a =>
      have hok : (o.map f g).answer = .ok (g a) := map_ok ha
      rw [andThen_ok (o := o.unrecorded f g) hok, andThen_ok ha, unrecorded]
      simp only [unrecorded, map] at hnext ⊢
      rw [hnext a ha, List.filter_append]

end Outcome

variable {σ ω : Type} [Sink σ ω]

namespace Registry

/-- A registry for a run that is traced or not. -/
def withTrace (traced : Bool) (registry : Registry σ ω) : Registry σ ω :=
  { registry with options := registry.options.withTrace traced }

variable (traced : Bool) (registry : Registry σ ω)

theorem withTrace_close : (registry.withTrace traced).close = registry.close.withTrace traced := by
  simp only [close, withTrace]
  split <;> rfl

theorem withTrace_writeLine (line : Text) :
    (registry.withTrace traced).writeLine line =
      (registry.writeLine line).map (withTrace traced) id := by
  simp only [writeLine, withTrace]
  split <;> rfl

theorem withTrace_writeLines (lines : List Text) :
    (registry.withTrace traced).writeLines lines =
      (registry.writeLines lines).map (withTrace traced) id := by
  induction lines generalizing registry with
  | nil => rfl
  | cons line lines ih =>
      rw [writeLines, writeLines, withTrace_writeLine]
      exact Outcome.andThen_map (fun _ => rfl) fun _ _ => ih _

theorem withTrace_created (title : String) (sink : σ) (file : ω) :
    (registry.withTrace traced).created title sink file =
      (registry.created title sink file).withTrace traced := by
  simp only [created, withTrace_close]
  rfl

theorem withTrace_openDocument (title : String) :
    (registry.withTrace traced).openDocument title =
      (registry.openDocument title).map (withTrace traced) id := by
  have hclose := withTrace_close traced registry
  cases h : Sink.create registry.close.sink (documentOf registry.close.options title).fileName with
  | error cause =>
      rw [openDocument_error h, openDocument_error (by rw [hclose]; exact h), hclose]
      rfl
  | ok created =>
      obtain ⟨sink, file⟩ := created
      rw [openDocument_ok h, openDocument_ok (by rw [hclose]; exact h), withTrace_created,
        withTrace_writeLines, hclose]
      rfl

theorem withTrace_finish : (registry.withTrace traced).finish = registry.finish := by
  simp only [finish, withTrace_close]
  rfl

theorem withTrace_start (sink : σ) (options : Options) (title : String) :
    start sink (options.withTrace traced) title =
      (start sink options title).map id (withTrace traced) := by
  cases h : Sink.create sink options.scriptName with
  | error cause =>
      have h' : Sink.create sink (options.withTrace traced).scriptName = .error cause := h
      rw [start_error h, start_error h']
      rfl
  | ok created =>
      obtain ⟨sink', script⟩ := created
      have h' : Sink.create sink (options.withTrace traced).scriptName = .ok (sink', script) := h
      have hprepared : prepared sink' (options.withTrace traced) script =
          (prepared sink' options script).withTrace traced := by
        cases hheader : options.scriptHeader with
        | none => simp [prepared, withTrace, Options.withTrace, hheader]
        | some header => simp [prepared, withTrace, Options.withTrace, hheader, writeScript]
      rw [start_ok h, start_ok h', hprepared, withTrace_openDocument]
      exact Outcome.andThen_map (fun _ => rfl) fun _ _ => rfl

end Registry

namespace Registry

variable {registry : Registry σ ω}

theorem notices_writeLine (line : Text) : (registry.writeLine line).notices = [] := by
  rw [writeLine]
  split <;> rfl

theorem notices_writeLines (lines : List Text) : (registry.writeLines lines).notices = [] := by
  induction lines generalizing registry with
  | nil => rfl
  | cons line lines ih =>
      rw [writeLines]
      cases h : (registry.writeLine line).answer with
      | error _ => rw [Outcome.andThen_error h, notices_writeLine]
      | ok _ => rw [Outcome.andThen_ok h, notices_writeLine, ih, List.append_nil]

theorem notices_openDocument (title : String) :
    ∀ notice ∈ (registry.openDocument title).notices, notice.isRecord = false := by
  have hrepeated : ∀ notice ∈ registry.close.repeated title, notice.isRecord = false := by
    intro notice hnotice
    rw [repeated] at hnotice
    split at hnotice
    · rw [List.mem_singleton.1 hnotice]
      rfl
    · cases hnotice
  cases h : Sink.create registry.close.sink (documentOf registry.close.options title).fileName with
  | error cause =>
      rw [openDocument_error h]
      exact hrepeated
  | ok created =>
      rw [openDocument_ok h]
      simp only [notices_writeLines, List.forall_mem_append, List.forall_mem_singleton]
      exact ⟨hrepeated, rfl⟩

theorem notices_finish : registry.finish.notices = [] := by
  simp only [finish]
  split <;> rfl

theorem notices_start (sink : σ) (options : Options) (title : String) :
    ∀ notice ∈ (start sink options title).notices, notice.isRecord = false := by
  cases h : Sink.create sink options.scriptName with
  | error cause =>
      rw [start_error h]
      exact List.forall_mem_nil _
  | ok created =>
      obtain ⟨sink', script⟩ := created
      rw [start_ok h]
      cases hopen : ((prepared sink' options script).openDocument title).answer with
      | error _ =>
          rw [Outcome.andThen_error hopen]
          exact notices_openDocument title
      | ok _ =>
          rw [Outcome.andThen_ok hopen, List.append_nil]
          exact notices_openDocument title

end Registry

namespace Session

def withTrace (traced : Bool) (session : Session σ ω) : Session σ ω :=
  { session with registry := session.registry.withTrace traced }

variable (session : Session σ ω)

theorem notices_write (line : Text) : (session.write line).notices = [] := by
  simp only [write, onRegistry]
  split
  · split
    · rfl
    · exact Registry.notices_writeLine line
  · exact Registry.notices_writeLine line

/-- Of all events only tokens and tables are recorded. -/
theorem notices_perform {event : Event} (h : event.record? = none) :
    ∀ notice ∈ (session.perform event).notices, notice.isRecord = false := by
  cases event with
  | read _ _ => exact List.forall_mem_nil _
  | badSpan _ => exact List.forall_mem_singleton.2 rfl
  | token _ | table _ _ => cases h
  | openDocument title => exact Registry.notices_openDocument _
  | write line =>
      simp only [perform, notices_write]
      exact List.forall_mem_nil _

/-- A traced session records each token and each table. -/
theorem records_perform (event : Event) :
    (session.perform event).notices.filter Notice.isRecord =
      if session.registry.options.traceTokens then event.record?.toList else [] := by
  cases h : event.record? with
  | none =>
      rw [Option.toList_none, ite_self, List.filter_eq_nil_iff]
      exact fun notice hnotice => Bool.eq_false_iff.1 (session.notices_perform h notice hnotice)
  | some record =>
      cases event with
      | token _ | table _ _ =>
          cases h
          simp only [perform, count]
          split <;> rfl
      | read _ _ | badSpan _ | openDocument _ | write _ => cases h

theorem answer_perform {event : Event} {record : Notice} (h : event.record? = some record) :
    (session.perform event).answer = .ok () := by
  cases event with
  | token _ | table _ _ => rfl
  | read _ _ | badSpan _ | openDocument _ | write _ => cases h

theorem records_performAll (events : List Event) :
    (session.performAll events).notices.filter Notice.isRecord =
      if session.registry.options.traceTokens then (session.done events).filterMap Event.record?
      else [] := by
  induction events generalizing session with
  | nil => rw [done, List.filterMap_nil, ite_self]; rfl
  | cons event events ih =>
      have hrecords := session.records_perform event
      rw [performAll, done]
      cases hanswer : (session.perform event).answer with
      | error e =>
          have hnone : event.record? = none := by
            refine Option.eq_none_iff_forall_ne_some.2 fun record hrecord => ?_
            cases (session.answer_perform hrecord).symm.trans hanswer
          rw [Outcome.andThen_error hanswer, hrecords, hnone]
          rfl
      | ok _ =>
          rw [Outcome.andThen_ok hanswer, List.filter_append, hrecords, ih, perform_options]
          simp only [List.filterMap_eq_flatMap_toList, List.flatMap_cons]
          split <;> rfl

/-- A session that is not traced does the same, and gives the same notices but the records. -/
theorem withTrace_perform (event : Event) :
    (session.withTrace false).perform event =
      (session.perform event).unrecorded (withTrace false) id := by
  cases event with
  | read _ _ | badSpan _ => rfl
  | token _ | table _ _ =>
      have hquiet : (session.withTrace false).registry.options.traceTokens = false := rfl
      simp only [perform, count, hquiet, Outcome.unrecorded, Outcome.map]
      cases session.registry.options.traceTokens <;> rfl
  | openDocument title =>
      rw [Outcome.unrecorded_of_notices (session.notices_perform rfl)]
      simp only [perform, onRegistry, withTrace, Registry.withTrace_openDocument]
      rfl
  | write line =>
      rw [Outcome.unrecorded_of_notices (session.notices_perform rfl)]
      have hstrict : (session.withTrace false).registry.options.strictLatin1 =
          session.registry.options.strictLatin1 := rfl
      have hlax : (session.withTrace false).onRegistry
          ((session.withTrace false).registry.writeLine line) =
          (session.onRegistry (session.registry.writeLine line)).map (withTrace false) id := by
        simp only [onRegistry, withTrace, Registry.withTrace_writeLine]
        rfl
      simp only [perform, write, hstrict, hlax]
      split
      · split <;> rfl
      · rfl

theorem withTrace_performAll (events : List Event) :
    (session.withTrace false).performAll events =
      (session.performAll events).unrecorded (withTrace false) id := by
  induction events generalizing session with
  | nil => rfl
  | cons event events ih =>
      rw [performAll, performAll, withTrace_perform]
      exact Outcome.andThen_unrecorded (fun _ => rfl) fun _ _ => ih _

theorem withTrace_done (events : List Event) :
    (session.withTrace false).done events = session.done events := by
  induction events generalizing session with
  | nil => rfl
  | cons event events ih =>
      have hperform := session.withTrace_perform event
      have hanswer : ((session.withTrace false).perform event).answer =
          (session.perform event).answer := by
        rw [hperform]
        exact congrFun Except.map_id (session.perform event).answer
      rw [done, done, hanswer]
      cases (session.perform event).answer with
      | error _ => rfl
      | ok _ =>
          rw [hperform]
          exact congrArg (event :: ·) (ih _)

theorem withTrace_conclude (ending : Except Error Unit) :
    (session.withTrace false).conclude ending = session.conclude ending := by
  cases ending with
  | error _ => rfl
  | ok _ => simp only [conclude, withTrace, Registry.withTrace_finish]; rfl

theorem notices_conclude (ending : Except Error Unit) : (session.conclude ending).notices = [] := by
  cases ending with
  | error _ => rfl
  | ok _ =>
      rw [conclude]
      cases hanswer : session.registry.finish.answer with
      | error _ => rw [Outcome.andThen_error hanswer, Registry.notices_finish]
      | ok _ => rw [Outcome.andThen_ok hanswer, Registry.notices_finish]; rfl

end Session

variable (sink : σ) (options : Options) (input : List UInt8)

theorem start_withTrace :
    Registry.start sink (options.withTrace false) (options.withTrace false).title =
      (Registry.start sink options options.title).unrecorded id (Registry.withTrace false) := by
  rw [Outcome.unrecorded_of_notices (Registry.notices_start sink options options.title)]
  exact Registry.withTrace_start false sink options options.title

/-- A run that is not traced carries out the same events. -/
theorem runEvents_withTrace :
    runEvents sink (options.withTrace false) input = runEvents sink options input := by
  have hexpand : (options.withTrace false).expandEscapes = options.expandEscapes := rfl
  have hstart := start_withTrace sink options
  cases h : (Registry.start sink options options.title).answer with
  | error e =>
      have hquiet : (Registry.start sink (options.withTrace false)
          (options.withTrace false).title).answer = .error e := by
        rw [hstart]
        exact Outcome.map_error (f := id) h
      simp only [runEvents, h, hquiet]
  | ok registry =>
      have hquiet : (Registry.start sink (options.withTrace false)
          (options.withTrace false).title).answer = .ok (registry.withTrace false) := by
        rw [hstart]
        exact Outcome.map_ok (f := id) h
      rw [runEvents_of_start h, runEvents_of_start hquiet, outline_congr hexpand rfl]
      exact Session.withTrace_done { registry } _

/-- A run that is not traced has the same state, answer and notices but for the records. -/
theorem convert_withTrace :
    convert sink (options.withTrace false) input =
      (convert sink options input).unrecorded id id := by
  have hexpand : (options.withTrace false).expandEscapes = options.expandEscapes := rfl
  rw [convert_eq, convert_eq, outline_congr hexpand rfl, start_withTrace]
  refine Outcome.andThen_unrecorded (fun _ => rfl) fun registry _ => ?_
  change ((Session.withTrace false { registry }).performAll _).andThen _ _ = _
  rw [Session.withTrace_performAll]
  refine Outcome.andThen_unrecorded (fun _ => rfl) fun _ _ => ?_
  rw [Session.withTrace_conclude, Outcome.unrecorded_of_notices, Outcome.map_id]
  rw [Session.notices_conclude]
  exact List.forall_mem_nil _

/-- The records of a run are those of its events, if it is traced. -/
theorem records_convert :
    (convert sink options input).notices.filter Notice.isRecord =
      if options.traceTokens then (runEvents sink options input).filterMap Event.record?
      else [] := by
  have hfirst : (Registry.start sink options options.title).notices.filter Notice.isRecord = [] :=
    List.filter_eq_nil_iff.2 fun notice hnotice =>
      Bool.eq_false_iff.1 (Registry.notices_start sink options options.title notice hnotice)
  rw [convert_eq]
  cases hstart : (Registry.start sink options options.title).answer with
  | error e =>
      rw [Outcome.andThen_error hstart, hfirst, runEvents, hstart, List.filterMap_nil, ite_self]
  | ok registry =>
      have hrecords := Session.records_performAll { registry }
        (outline options {} (Line.pieces input)).1
      rw [Registry.options_of_start hstart, ← runEvents_of_start hstart] at hrecords
      rw [Outcome.andThen_ok hstart, List.filter_append, hfirst, List.nil_append, ← hrecords]
      cases hall : (Session.performAll { registry }
          (outline options {} (Line.pieces input)).1).answer with
      | error _ => rw [Outcome.andThen_error hall]
      | ok _ => rw [Outcome.andThen_ok hall, Session.notices_conclude, List.append_nil]

/-- What a run leaves behind when it is traced, against the same run when it is not. -/
structure Traced (quiet traced : Outcome σ Summary) (run : List Event) : Prop where
  state_eq : traced.state = quiet.state
  answer_eq : traced.answer = quiet.answer
  notices_eq : traced.notices.filter (!·.isRecord) = quiet.notices
  /-- There is a record for each token and each table, and no other. -/
  records_eq : traced.notices.filter Notice.isRecord = run.filterMap Event.record?

/-- Tracing adds the records of tokens and tables to the notices of a run, and nothing else. -/
theorem traced_convert :
    Traced (convert sink (options.withTrace false) input)
      (convert sink (options.withTrace true) input) (runEvents sink options input) := by
  have hquiet := convert_withTrace sink (options.withTrace true) input
  have hrun := (runEvents_withTrace sink (options.withTrace true) input).symm.trans
    (runEvents_withTrace sink options input)
  have hrecords := records_convert sink (options.withTrace true) input
  change convert sink (options.withTrace false) input = _ at hquiet
  rw [hrun] at hrecords
  rw [hquiet]
  refine ⟨rfl, ?_, rfl, hrecords⟩
  exact (congrFun Except.map_id (convert sink (options.withTrace true) input).answer).symm

end WikiDocs

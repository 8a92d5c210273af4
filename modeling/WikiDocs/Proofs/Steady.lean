import WikiDocs.Proofs.Restart
import WikiDocs.Proofs.Tally
import WikiDocs.Sink.Journal
import WikiDocs.Sink.Refusing

/-!
Steady sinks, and runs that go on alike. A steady sink accepts the same names
for ever, so what a run can do depends on its events alone once a document is
open, not on what it did before.
-/

namespace WikiDocs

namespace Sink

variable {σ ω : Type} [Sink σ ω]

def accepts (sink : σ) (name : String) : Bool := (create sink name).toBool

/-- What is done to a sink does not change which names it accepts. -/
class Steady (σ : Type) {ω : Type} [Sink σ ω] : Prop where
  accepts_create {sink sink' : σ} {file : ω} {name : String}
    (h : create sink name = .ok (sink', file)) (other : String) :
    accepts sink' other = accepts sink other
  accepts_writeLine (sink : σ) (file : ω) (line : Text) (other : String) :
    accepts (writeLine sink file line).1 other = accepts sink other
  accepts_flush (sink : σ) (file : ω) (other : String) :
    accepts (flush sink file).1 other = accepts sink other

end Sink

instance : Sink.Steady MemoryFiles where
  accepts_create _ _ := rfl
  accepts_writeLine _ _ _ _ := rfl
  accepts_flush _ _ _ := rfl

instance : Sink.Steady Journal where
  accepts_create _ _ := rfl
  accepts_writeLine _ _ _ _ := rfl
  accepts_flush _ _ _ := rfl

theorem RefusingFiles.accepts_eq (sink : RefusingFiles) (name : String) :
    Sink.accepts sink name = decide (name ∉ sink.refused) := by
  simp only [Sink.accepts, Sink.create, RefusingFiles.create]
  split
  · rename_i h
    simp [h, Except.toBool]
  · rename_i h
    simp [h, Except.toBool]

instance : Sink.Steady RefusingFiles where
  accepts_create := by
    intro sink sink' file name h other
    rw [RefusingFiles.accepts_eq, RefusingFiles.accepts_eq]
    simp only [Sink.create, RefusingFiles.create] at h
    split at h <;> cases h
    rfl
  accepts_writeLine _ _ _ _ := by rw [RefusingFiles.accepts_eq, RefusingFiles.accepts_eq]; rfl
  accepts_flush _ _ _ := rfl

variable {σ ω : Type} [Sink σ ω] {accepted : String → Bool}

namespace Registry

/-- The registry's sink accepts the names that are `accepted`, and a document is open. -/
structure Ready (registry : Registry σ ω) (accepted : String → Bool) : Prop where
  accepts_eq : ∀ name, Sink.accepts registry.sink name = accepted name
  isSome : registry.current.isSome

variable [Sink.Steady σ]

theorem Ready.writeLine {registry : Registry σ ω} (h : registry.Ready accepted) (line : Text) :
    (registry.writeLine line).answer = .ok () ∧ (registry.writeLine line).state.Ready accepted := by
  obtain ⟨⟨document, file⟩, hcurrent⟩ := Option.isSome_iff_exists.1 h.isSome
  simp only [Registry.writeLine, hcurrent]
  refine ⟨trivial, ?_, rfl⟩
  intro name
  exact (Sink.Steady.accepts_writeLine _ _ _ _).trans (h.accepts_eq name)

theorem Ready.writeLines {registry : Registry σ ω} (h : registry.Ready accepted)
    (lines : List Text) :
    (registry.writeLines lines).answer = .ok () ∧
      (registry.writeLines lines).state.Ready accepted := by
  induction lines generalizing registry with
  | nil => exact ⟨rfl, h⟩
  | cons line lines ih =>
      obtain ⟨hanswer, hready⟩ := h.writeLine line
      rw [Registry.writeLines, Outcome.andThen_ok hanswer]
      exact ih hready

theorem accepts_close (registry : Registry σ ω) (name : String) :
    Sink.accepts registry.close.sink name = Sink.accepts registry.sink name := by
  simp only [close]
  split
  · rfl
  · exact Sink.Steady.accepts_flush _ _ _

theorem create_of_accepts {registry : Registry σ ω} {name : String}
    (h : Sink.accepts registry.sink name = true) :
    ∃ created, Sink.create registry.close.sink name = .ok created := by
  rw [← accepts_close, Sink.accepts] at h
  cases hc : Sink.create registry.close.sink name with
  | error cause =>
      rw [hc] at h
      cases h
  | ok created => exact ⟨created, rfl⟩

theorem create_of_refuses {registry : Registry σ ω} {name : String}
    (h : Sink.accepts registry.sink name = false) :
    ∃ cause, Sink.create registry.close.sink name = .error cause := by
  rw [← accepts_close, Sink.accepts] at h
  cases hc : Sink.create registry.close.sink name with
  | error cause => exact ⟨cause, rfl⟩
  | ok created =>
      rw [hc] at h
      cases h

theorem openDocument_accepted {registry : Registry σ ω} (title : String)
    (h : ∀ name, Sink.accepts registry.sink name = accepted name)
    (ht : accepted (documentOf registry.options title).fileName = true) :
    (registry.openDocument title).answer = .ok () ∧
      (registry.openDocument title).state.Ready accepted := by
  obtain ⟨⟨sink, file⟩, hc⟩ := create_of_accepts ((h _).trans ht)
  simp only [openDocument, hc]
  refine Ready.writeLines ⟨?_, rfl⟩ _
  intro name
  refine (Sink.Steady.accepts_writeLine _ _ _ _).trans ?_
  refine (Sink.Steady.accepts_create hc name).trans ?_
  exact (accepts_close registry name).trans (h name)

theorem openDocument_refused {registry : Registry σ ω} (title : String)
    (h : ∀ name, Sink.accepts registry.sink name = accepted name)
    (ht : accepted (documentOf registry.options title).fileName = false) :
    ∃ cause, (registry.openDocument title).answer = .error (.io cause) := by
  obtain ⟨cause, hc⟩ := create_of_refuses ((h _).trans ht)
  exact ⟨cause, by simp only [openDocument, hc]⟩

theorem accepts_prepared {sink sink' : σ} {options : Options} {script : ω}
    (h : Sink.create sink options.scriptName = .ok (sink', script)) (name : String) :
    Sink.accepts (prepared sink' options script).sink name = Sink.accepts sink name := by
  have hcreate := Sink.Steady.accepts_create h name
  simp only [prepared]
  split
  · exact hcreate
  · exact (Sink.Steady.accepts_writeLine _ _ _ _).trans hcreate

/-- A run starts if the sink accepts the build script and the first document. -/
theorem start_accepted {sink : σ} {options : Options} (title : String)
    (hs : Sink.accepts sink options.scriptName = true)
    (ht : Sink.accepts sink (documentOf options title).fileName = true) :
    ∃ registry : Registry σ ω, (start sink options title).answer = .ok registry := by
  cases hc : Sink.create sink options.scriptName with
  | error cause =>
      rw [Sink.accepts, hc] at hs
      cases hs
  | ok created =>
      obtain ⟨sink', script⟩ := created
      obtain ⟨hanswer, -⟩ := openDocument_accepted title (accepts_prepared hc)
        (by rwa [prepared_options])
      exact ⟨_, by rw [start_ok hc, Outcome.andThen_ok hanswer]⟩

/-- Once a run has started, a document is open and the sink accepts what it accepted before. -/
theorem ready_of_start {sink : σ} {options : Options} {title : String} {registry : Registry σ ω}
    (h : (start sink options title).answer = .ok registry) :
    registry.Ready (Sink.accepts sink) := by
  obtain ⟨sink', script, hc, hopen, rfl⟩ := of_start h
  cases ht : Sink.accepts sink (documentOf options title).fileName with
  | true => exact (openDocument_accepted title (accepts_prepared hc) (by rwa [prepared_options])).2
  | false =>
      obtain ⟨cause, herror⟩ := openDocument_refused title (accepts_prepared hc)
        (by rwa [prepared_options])
      rw [hopen] at herror
      cases herror

end Registry

namespace Session

/-- Two sessions that carry out events alike, where the second has read `n` more lines. -/
structure Alike (accepted : String → Bool) (n : Nat) (session other : Session σ ω) : Prop where
  ready : session.registry.Ready accepted
  ready_other : other.registry.Ready accepted
  strict_eq : other.registry.options.strictLatin1 = session.registry.options.strictLatin1
  extension_eq : other.registry.options.sourceExtension = session.registry.options.sourceExtension
  lines_eq : other.tally.lines = session.tally.lines + n

/-- Two operations end alike: both go well, or both fail, and with one error if it is about a line,
which is `n` lines later. -/
def EndAlike (accepted : String → Bool) (n : Nat) (o o' : Outcome (Session σ ω) Unit) : Prop :=
  (o.answer = .ok () ∧ o'.answer = .ok () ∧ Alike accepted n o.state o'.state) ∨
    ∃ e e', o.answer = .error e ∧ o'.answer = .error e' ∧ (e.line?.isSome → e' = e.later n)

variable {n : Nat} {session other : Session σ ω}

variable [Sink.Steady σ]

theorem Alike.writeLine (h : Alike accepted n session other) (line : Text) :
    EndAlike accepted n (session.onRegistry (session.registry.writeLine line))
      (other.onRegistry (other.registry.writeLine line)) := by
  obtain ⟨hanswer, hready⟩ := h.ready.writeLine line
  obtain ⟨hanswer', hready'⟩ := h.ready_other.writeLine line
  refine .inl ⟨hanswer, hanswer', hready, hready', ?_, ?_, h.lines_eq⟩
  · simp only [onRegistry, Registry.writeLine_options, h.strict_eq]
  · simp only [onRegistry, Registry.writeLine_options, h.extension_eq]

/-- Sessions that are alike stay so with every event, or both fail at it. -/
theorem Alike.perform (h : Alike accepted n session other) (event : Event) :
    EndAlike accepted n (session.perform event) (other.perform event) := by
  cases event with
  | token _ | badSpan _ | table _ _ =>
      exact .inl ⟨rfl, rfl, h.ready, h.ready_other, h.strict_eq, h.extension_eq, h.lines_eq⟩
  | read _ _ =>
      refine .inl ⟨rfl, rfl, h.ready, h.ready_other, h.strict_eq, h.extension_eq, ?_⟩
      change other.tally.lines + 1 = session.tally.lines + 1 + n
      have hlines := h.lines_eq
      omega
  | openDocument title =>
      have hname : (Registry.documentOf other.registry.options (String.ofList title)).fileName =
          (Registry.documentOf session.registry.options (String.ofList title)).fileName := by
        simp only [Registry.documentOf, h.extension_eq]
      cases ht : accepted
          (Registry.documentOf session.registry.options (String.ofList title)).fileName with
      | true =>
          obtain ⟨hanswer, hready⟩ := Registry.openDocument_accepted _ h.ready.accepts_eq ht
          obtain ⟨hanswer', hready'⟩ :=
            Registry.openDocument_accepted _ h.ready_other.accepts_eq (hname ▸ ht)
          refine .inl ⟨hanswer, hanswer', hready, hready', ?_, ?_, h.lines_eq⟩
          · simp only [Session.perform, onRegistry, Registry.openDocument_options, h.strict_eq]
          · simp only [Session.perform, onRegistry, Registry.openDocument_options, h.extension_eq]
      | false =>
          obtain ⟨cause, hanswer⟩ := Registry.openDocument_refused _ h.ready.accepts_eq ht
          obtain ⟨cause', hanswer'⟩ :=
            Registry.openDocument_refused _ h.ready_other.accepts_eq (hname ▸ ht)
          exact .inr ⟨_, _, hanswer, hanswer', Bool.noConfusion⟩
  | write line =>
      simp only [Session.perform, write, h.strict_eq]
      split
      · split
        · refine .inr ⟨_, _, rfl, rfl, ?_⟩
          intro _
          rw [h.lines_eq]
          rfl
        · exact h.writeLine line
      · exact h.writeLine line

theorem Alike.performAll (h : Alike accepted n session other) (events : List Event) :
    EndAlike accepted n (session.performAll events) (other.performAll events) := by
  induction events generalizing session other with
  | nil => exact .inl ⟨rfl, rfl, h⟩
  | cons event events ih =>
      simp only [Session.performAll]
      obtain ⟨hanswer, hanswer', hnext⟩ | ⟨e, e', hanswer, hanswer', hlater⟩ := h.perform event
      · rw [Outcome.andThen_ok hanswer, Outcome.andThen_ok hanswer']
        exact ih hnext
      · rw [Outcome.andThen_error hanswer, Outcome.andThen_error hanswer']
        exact .inr ⟨e, e', rfl, rfl, hlater⟩

/-- Sessions that are alike carry out the same events. -/
theorem Alike.done_eq (h : Alike accepted n session other) (events : List Event) :
    other.done events = session.done events := by
  induction events generalizing session other with
  | nil => rfl
  | cons event events ih =>
      obtain ⟨hanswer, hanswer', hnext⟩ | ⟨e, e', hanswer, hanswer', -⟩ := h.perform event
      · simp only [done, hanswer, hanswer', ih hnext]
      · simp only [done, hanswer, hanswer']

end Session
end WikiDocs

import WikiDocs.Proofs.Views
import WikiDocs.Sink.Journal

/-!
Sinks with a journal of what is done to them. The journal only grows, whatever
a run does, and a run that is watched does what it does without a journal.
-/

namespace WikiDocs

/-- A sink and a journal of what was done to it. -/
structure Watched (σ : Type) where
  sink : σ
  journal : Journal := {}

namespace Watched

variable {σ ω : Type} [Sink σ ω]

instance : Sink (Watched σ) (ω × Nat) where
  create watched name := do
    let (sink, file) ← Sink.create watched.sink name
    let (journal, number) ← Sink.create watched.journal name
    pure (⟨sink, journal⟩, (file, number))
  writeLine watched file line :=
    let (sink, own) := Sink.writeLine watched.sink file.1 line
    let (journal, number) := Sink.writeLine watched.journal file.2 line
    (⟨sink, journal⟩, (own, number))
  flush watched file :=
    let (sink, own) := Sink.flush watched.sink file.1
    let (journal, number) := Sink.flush watched.journal file.2
    (⟨sink, journal⟩, (own, number))
  finishScript watched name :=
    let (sink, answer) := Sink.finishScript watched.sink name
    (⟨sink, (Sink.finishScript watched.journal name).1⟩, answer)

/-- What was done to the sink so far. -/
def steps (watched : Watched σ) : List Journal.Step := watched.journal.steps

/-- The view of a watched sink as the sink alone. -/
def view : Sink.View (Watched σ) σ where
  sink := sink
  file := Prod.fst
  create_eq watched name := by
    simp only [Sink.create]
    cases Sink.create watched.sink name <;> rfl
  writeLine_eq _ _ _ := rfl
  flush_eq _ _ := rfl
  finishScript_eq _ _ := rfl

end Watched

/-- A relation of a sink to all that can become of it. -/
structure Sink.Carries {σ ω : Type} [Sink σ ω] (R : σ → σ → Prop) : Prop where
  refl (s : σ) : R s s
  trans {s t u : σ} : R s t → R t u → R s u
  create {s t : σ} {file : ω} {name : String} : create s name = .ok (t, file) → R s t
  writeLine (s : σ) (file : ω) (line : Text) : R s (writeLine s file line).1
  flush (s : σ) (file : ω) : R s (flush s file).1
  finishScript (s : σ) (name : String) : R s (finishScript s name).1

section Carries

variable {σ ω : Type} [Sink σ ω] {R : σ → σ → Prop} (h : Sink.Carries R)
include h

namespace Registry

variable (registry : Registry σ ω)

theorem carries_close : R registry.sink registry.close.sink := by
  simp only [close]
  split
  · exact h.refl _
  · exact h.flush _ _

theorem carries_writeLine (line : Text) :
    R registry.sink (registry.writeLine line).state.sink := by
  simp only [writeLine]
  split
  · exact h.refl _
  · exact h.writeLine _ _ _

theorem carries_writeLines (lines : List Text) :
    R registry.sink (registry.writeLines lines).state.sink := by
  induction lines generalizing registry with
  | nil => exact h.refl _
  | cons line lines ih =>
      have hline := carries_writeLine h registry line
      rw [writeLines]
      cases ha : (registry.writeLine line).answer with
      | error e =>
          rw [Outcome.andThen_error ha]
          exact hline
      | ok _ =>
          rw [Outcome.andThen_ok ha]
          exact h.trans hline (ih _)

theorem carries_openDocument (title : String) :
    R registry.sink (registry.openDocument title).state.sink := by
  have hclose := carries_close h registry
  cases hc : Sink.create registry.close.sink
      (documentOf registry.close.options title).fileName with
  | error cause =>
      rw [openDocument_error hc]
      exact hclose
  | ok result =>
      obtain ⟨sink, file⟩ := result
      have hscript : R sink (registry.created title sink file).sink := h.writeLine _ _ _
      rw [openDocument_ok hc]
      exact h.trans (h.trans hclose (h.create hc))
        (h.trans hscript (carries_writeLines h _ _))

theorem carries_release : R registry.sink registry.release := by
  simp only [release]
  split
  · exact h.flush _ _
  · exact h.trans (h.flush _ _) (h.flush _ _)

theorem carries_finish : R registry.sink registry.finish.state := by
  have hdone := h.trans (carries_close h registry)
    (h.flush registry.close.sink registry.close.script)
  have hfinish := h.trans hdone (h.finishScript _ registry.close.options.scriptName)
  simp only [finish]
  split <;> exact hfinish

end Registry

namespace Session

variable (session : Session σ ω)

theorem carries_perform (event : Event) :
    R session.registry.sink (session.perform event).state.registry.sink := by
  cases event with
  | read _ _ | token _ | badSpan _ | table _ _ => exact h.refl _
  | openDocument title => exact Registry.carries_openDocument h _ _
  | write line =>
      have hline := Registry.carries_writeLine h session.registry line
      simp only [perform, write]
      split
      · split
        · exact h.refl _
        · exact hline
      · exact hline

theorem carries_performAll (events : List Event) :
    R session.registry.sink (session.performAll events).state.registry.sink := by
  induction events generalizing session with
  | nil => exact h.refl _
  | cons event events ih =>
      have hevent := carries_perform h session event
      rw [performAll]
      cases ha : (session.perform event).answer with
      | error e =>
          rw [Outcome.andThen_error ha]
          exact hevent
      | ok _ =>
          rw [Outcome.andThen_ok ha]
          exact h.trans hevent (ih _)

theorem carries_conclude (ending : Except Error Unit) :
    R session.registry.sink (session.conclude ending).state := by
  cases ending with
  | error e => exact Registry.carries_release h _
  | ok _ =>
      have hfinish := Registry.carries_finish h session.registry
      simp only [conclude]
      cases ha : session.registry.finish.answer with
      | error e =>
          rw [Outcome.andThen_error ha]
          exact hfinish
      | ok _ =>
          rw [Outcome.andThen_ok ha]
          exact hfinish

/-- All that a session does, up to its end. -/
theorem carries_run (events : List Event) (ending : Except Error Unit) :
    R session.registry.sink ((session.performAll events).andThen release fun last _ =>
      last.conclude ending).state := by
  have hevents := carries_performAll h session events
  cases ha : (session.performAll events).answer with
  | error e =>
      rw [Outcome.andThen_error ha]
      exact h.trans hevents (Registry.carries_release h _)
  | ok _ =>
      rw [Outcome.andThen_ok ha]
      exact h.trans hevents (carries_conclude h _ _)

end Session
end Carries

namespace Watched

variable {σ ω : Type} [Sink σ ω]

/-- A file that is created is noted and gets the next number. -/
theorem of_create {watched later : Watched σ} {name : String} {file : ω × Nat}
    (h : Sink.create watched name = .ok (later, file)) :
    later.steps = watched.steps ++ [.create name] ∧
      later.journal.created = watched.journal.created + 1 ∧
      file.2 = watched.journal.created := by
  simp only [Sink.create] at h
  cases hs : Sink.create watched.sink name with
  | error cause =>
      rw [hs] at h
      cases h
  | ok created =>
      rw [hs] at h
      cases h
      exact ⟨List.reverse_cons, rfl, rfl⟩

theorem steps_append (watched : Watched σ) (file : ω × Nat) (line : Text) :
    (Sink.writeLine watched file line).1.steps = watched.steps ++ [.writeLine file.2 line] :=
  List.reverse_cons

theorem steps_finishScript (watched : Watched σ) (name : String) :
    (Sink.finishScript watched name).1.steps = watched.steps ++ [.finishScript name] :=
  List.reverse_cons

/-- A journal is only ever added to. -/
theorem carries_steps :
    Sink.Carries fun watched later : Watched σ => watched.steps <+: later.steps where
  refl _ := List.prefix_refl _
  trans := List.IsPrefix.trans
  create hcreate := ⟨_, (of_create hcreate).1.symm⟩
  writeLine watched file line := ⟨_, (watched.steps_append file line).symm⟩
  flush _ _ := List.prefix_refl _
  finishScript watched name := ⟨_, (watched.steps_finishScript name).symm⟩

theorem steps_release (registry : Registry (Watched σ) (ω × Nat)) :
    registry.release.steps = registry.sink.steps := by
  simp only [Registry.release]
  split <;> rfl

theorem steps_writeLine {registry : Registry (Watched σ) (ω × Nat)}
    (h : registry.current.isSome) (line : Text) :
    ∃ file, (registry.writeLine line).state.sink.steps =
      registry.sink.steps ++ [.writeLine file line] := by
  obtain ⟨⟨document, file⟩, hcurrent⟩ := Option.isSome_iff_exists.1 h
  simp only [Registry.writeLine, hcurrent]
  exact ⟨file.2, Watched.steps_append _ _ _⟩

/-- A run that is watched does what it does without a journal. -/
theorem convert_view (watched : Watched σ) (options : Options) (input : List UInt8) :
    (convert watched options input).map sink id = convert watched.sink options input :=
  (seen_convert view options.strictLatin1 watched (.inl rfl)).symm

end Watched
end WikiDocs

import WikiDocs.Proofs.Ledger
import WikiDocs.Proofs.Watching

/-!
What a run asks of its sink. A line that is written goes to the file created
last, an opening creates the next one, and the build script gets a line for
it; nothing else is asked of the sink until the run ends.
-/

namespace WikiDocs

open Conversion Token

namespace Journal.Step

end Journal.Step

namespace Registry

/-- What is asked of a sink to open a document whose file gets a number. The build script has number
0. -/
def openingSteps (options : Options) (number : Nat) (title : String) : List Journal.Step :=
  .create (documentOf options title).fileName ::
    .writeLine 0 (scriptLine options (documentOf options title)) ::
      (Rst.banner title.toList).map (.writeLine number)

end Registry

namespace Event

/-- What is asked of a sink for an event, given the number of the file that is open. -/
def steps (options : Options) (number : Nat) : Event → List Journal.Step
  | openDocument title => Registry.openingSteps options (number + 1) (String.ofList title)
  | write line => [.writeLine number line]
  | read _ _ | token _ | badSpan _ | table _ _ => []

end Event

namespace Passage

end Passage

section Watched

variable {σ ω : Type} [Sink σ ω] {options : Options} {number : Nat} {steps : List Journal.Step}

/-- A registry over a watched sink that has asked for steps and created a number of files, the build
script first. -/
structure Registry.Noted (registry : Registry (Watched σ) (ω × Nat)) (options : Options)
    (created : Nat) (steps : List Journal.Step) : Prop where
  options_eq : registry.options = options
  script_eq : registry.script.2 = 0
  created_eq : registry.sink.journal.created = created
  steps_eq : registry.sink.steps = steps

/-- The open document has the file that was created last. -/
structure Registry.Posted (registry : Registry (Watched σ) (ω × Nat)) (options : Options)
    (number : Nat) (steps : List Journal.Step) : Prop
    extends registry.Noted options (number + 1) steps where
  current_eq : ∃ document file, registry.current = some (document, (file, number))

namespace Registry

variable {registry : Registry (Watched σ) (ω × Nat)}

theorem Noted.close (h : registry.Noted options number steps) :
    registry.close.Noted options number steps := by
  simp only [Registry.close]
  split
  · exact h
  · exact ⟨h.options_eq, h.script_eq, h.created_eq, h.steps_eq⟩

theorem Posted.writeLine (h : registry.Posted options number steps) (line : Text) :
    (registry.writeLine line).answer = .ok () ∧
      (registry.writeLine line).state.Posted options number
        (steps ++ [.writeLine number line]) := by
  obtain ⟨document, file, hcurrent⟩ := h.current_eq
  simp only [Registry.writeLine, hcurrent]
  refine ⟨trivial, ⟨h.options_eq, h.script_eq, h.created_eq, ?_⟩, _, _, rfl⟩
  rw [Watched.steps_append, h.steps_eq]

theorem Posted.writeLines (h : registry.Posted options number steps) (lines : List Text) :
    (registry.writeLines lines).state.Posted options number
      (steps ++ lines.map (.writeLine number)) := by
  induction lines generalizing registry steps with
  | nil =>
      rw [List.map_nil, List.append_nil]
      exact h
  | cons line lines ih =>
      obtain ⟨hanswer, hline⟩ := h.writeLine line
      have hlines := ih hline
      rw [List.append_assoc] at hlines
      rw [Registry.writeLines, Outcome.andThen_ok hanswer]
      exact hlines

theorem Noted.created (h : registry.Noted options number steps) {title : String}
    {sink : Watched σ} {file : ω × Nat}
    (hc : Sink.create registry.close.sink (documentOf registry.close.options title).fileName =
      .ok (sink, file)) :
    (registry.created title sink file).Posted options number
      (steps ++ [.create (documentOf options title).fileName,
        .writeLine 0 (scriptLine options (documentOf options title))]) := by
  have hclose := h.close
  obtain ⟨hsteps, hcreated, hfile⟩ := Watched.of_create hc
  rw [hclose.created_eq] at hcreated hfile
  rw [hclose.steps_eq, hclose.options_eq] at hsteps
  simp only [Registry.created, writeScript, hclose.options_eq]
  refine ⟨⟨rfl, hclose.script_eq, hcreated, ?_⟩, documentOf options title, file.1, ?_⟩
  · rw [Watched.steps_append, hsteps, hclose.script_eq, List.append_assoc]
    rfl
  · rw [← hfile]

theorem Noted.openDocument (h : registry.Noted options number steps) {title : String}
    (hok : (registry.openDocument title).answer = .ok ()) :
    (registry.openDocument title).state.Posted options number
      (steps ++ openingSteps options number title) := by
  cases hc : Sink.create registry.close.sink
      (documentOf registry.close.options title).fileName with
  | error cause =>
      rw [openDocument_error hc] at hok
      cases hok
  | ok result =>
      obtain ⟨sink, file⟩ := result
      have hcreated := h.created hc
      rw [openDocument_ok hc]
      have hbanner := hcreated.writeLines (Rst.banner title.toList)
      rw [List.append_assoc] at hbanner
      exact hbanner

theorem Posted.finish (h : registry.Posted options number steps) :
    registry.finish.state.steps = steps ++ [.finishScript options.scriptName] := by
  have hclose := h.close
  have hfinish : registry.finish.state =
      (Sink.finishScript (Sink.flush registry.close.sink registry.close.script).1
        registry.close.options.scriptName).1 := by
    simp only [Registry.finish]
    split <;> rfl
  rw [hfinish, Watched.steps_finishScript, hclose.options_eq, ← hclose.steps_eq]
  rfl

end Registry

namespace Session

variable {session : Session (Watched σ) (ω × Nat)}

end Session

end Watched
end WikiDocs

import WikiDocs.Proofs.Deliveries
import WikiDocs.Proofs.Front
import WikiDocs.Sink.Memory

/-!
No text is lost, doubled or moved in a run: what its tokens take, one after the
other, and what is written at the end make up all that was read. The sink is
asked to write the text before a token once, to the file of the document that
is open then and before all that the token writes, and for nothing besides.
-/

namespace WikiDocs

open Conversion Token

variable {σ ω : Type} [Sink σ ω]

theorem finish_isOutput {state : State} {events : List Event} (h : finish state = .ok events) :
    ∀ event ∈ events, event.isOutput := by
  simp only [finish] at h
  split at h
  · cases h
    intro event he
    cases he
  · cases h
    exact writeText_isOutput _
  · cases h

/-- At the end of the input nothing is open, and the rest of the text is written. -/
theorem rest_of_finish {ledger : Ledger} {state : State} {later : List Event}
    (hs : state.Settled) (hb : ledger.Balanced state.pending) (h : finish state = .ok later) :
    ∃ rest, find? rest = none ∧ (ledger.opening = none ∧ ledger.text = ledger.spent ++ rest) ∧
      later = writeText rest := by
  obtain ⟨number, pending⟩ := state
  cases pending with
  | nothing =>
      cases h
      exact ⟨[], find?_nil, ⟨hb.1, by rw [hb.2.2, List.append_nil]⟩, rfl⟩
  | text buffer =>
      cases h
      exact ⟨buffer, hs, ⟨hb.1, hb.2.2⟩, rfl⟩
  | table opening source opened => cases h

/-- What a run sets out to do agrees with the ledger at every point. -/
theorem agreesAll_outline {options : Options} {state : State} {ledger : Ledger}
    (hs : state.Settled) (hb : ledger.Balanced state.pending) (pieces : List (List UInt8)) :
    ledger.AgreesAll (outline options state pieces).1 := by
  induction pieces generalizing state ledger with
  | nil =>
      cases hf : finish state with
      | error e => rw [outline_nil_error hf]; trivial
      | ok events =>
          rw [outline_nil_ok hf]
          exact (Ledger.enterAll_of_output (finish_isOutput hf) ledger).2
  | cons piece pieces ih =>
      cases hp : Line.ofPiece options.expandEscapes piece with
      | error cause => rw [outline_cons_error hp]; trivial
      | ok line =>
          rw [outline_cons_ok hp]
          obtain ⟨_, turns, settled⟩ :=
            feed_turns options.imageDirectory.toList hs line []
          have hr := Ledger.turns_reaches turns hb
          exact Ledger.agreesAll_append.2 ⟨hr.agrees, ih settled hr.balanced⟩

theorem Session.done_isPrefix (session : Session σ ω) (events : List Event) :
    session.done events <+: events := by
  induction events generalizing session with
  | nil => exact List.prefix_refl _
  | cons event events ih =>
      simp only [done]
      split
      · exact List.nil_prefix
      · exact List.cons_prefix_cons.2 ⟨rfl, ih _⟩

/-- What a run does agrees with the ledger at every point, whether or not the run succeeds. -/
theorem agreesAll_runEvents (sink : σ) (options : Options) (input : List UInt8) :
    Ledger.AgreesAll {} (runEvents sink options input) := by
  simp only [runEvents]
  split
  · trivial
  · rename_i registry _
    obtain ⟨rest, hrest⟩ :=
      Session.done_isPrefix { registry } (outline options {} (Line.pieces input)).1
    have h : Ledger.AgreesAll {} (outline options {} (Line.pieces input)).1 :=
      agreesAll_outline State.settled_start ⟨rfl, rfl, rfl⟩ _
    rw [← hrest] at h
    exact (Ledger.agreesAll_append.1 h).1

/-- The ledger after events that begin a run. -/
def ledgerOf (events : List Event) : Ledger := Ledger.enterAll {} events

/-- A run that succeeds reads every line of its input. -/
theorem lines_of_convert_ok {sink : σ} {options : Options} {input : List UInt8}
    {summary : Summary} (h : (convert sink options input).answer = .ok summary) :
    ∃ lines : List Text,
      (Line.pieces input).map (Line.ofPiece options.expandEscapes) = lines.map .ok ∧
      (runEvents sink options input).filterMap Event.line? = lines := by
  obtain ⟨_, lines, later, -, hlines, hfin, hrun, -⟩ := convert_ok h
  obtain ⟨_, turns, -⟩ := feedAll_turns options.imageDirectory.toList
    State.settled_start lines
  obtain ⟨hquiet, -⟩ := quiet_of_isOutput (finish_isOutput hfin)
  refine ⟨lines, hlines, ?_⟩
  rw [hrun, List.filterMap_append, hquiet, List.append_nil]
  simpa using (turns_reads turns).1

/-- The account of a run: what it read against what its tokens took and what it wrote. -/
structure Accounted (imageDirectory : Text) (lines : List Text) (rest : Text)
    (run : List Event) : Prop where
  lines_eq : (ledgerOf run).lines = lines
  agrees : Ledger.AgreesAll {} run
  tokens_eq : (ledgerOf run).passages.map Passage.found = run.filterMap Event.token?
  /-- Nothing of the text is lost, doubled or moved. -/
  text_eq : (ledgerOf run).passages.flatMap Passage.spent ++ rest = (ledgerOf run).text
  /-- The outputs of the run, in order: for each token that of the text before it and then its own,
  and that of the rest at the end. -/
  output_eq :
    run.filter Event.isOutput =
      (ledgerOf run).passages.flatMap (Passage.output imageDirectory) ++ writeText rest

/-- The account of a run that succeeds: at its end no table is open, and what is pending holds no
token and is written. -/
theorem accounted_of_convert_ok {sink : σ} {options : Options} {input : List UInt8}
    {summary : Summary} (h : (convert sink options input).answer = .ok summary) :
    ∃ lines rest,
      (Line.pieces input).map (Line.ofPiece options.expandEscapes) = lines.map .ok ∧
      find? rest = none ∧
      Accounted options.imageDirectory.toList lines rest (runEvents sink options input) := by
  obtain ⟨_, lines, later, -, hlines, hfin, hrun, -⟩ := convert_ok h
  obtain ⟨count, turns, settled⟩ := feedAll_turns options.imageDirectory.toList
    State.settled_start lines
  have hbalanced : Ledger.Balanced {} .nothing := ⟨rfl, rfl, rfl⟩
  have hr := Ledger.turns_reaches turns hbalanced
  obtain ⟨rest, hfree, hrest, hlater⟩ := rest_of_finish settled hr.balanced hfin
  -- The end of the input writes the rest and changes nothing in the ledger.
  have hledger : ledgerOf (runEvents sink options input) =
      Ledger.enterAll {} (feedAll options.imageDirectory.toList {} lines).1 := by
    rw [hrun, ledgerOf, Ledger.enterAll_append,
      (Ledger.enterAll_of_output (finish_isOutput hfin) _).1]
  have hfound := Ledger.found_enterAll hr.agrees
  refine ⟨lines, rest, hlines, hfree, ?_, agreesAll_runEvents sink options input, ?_, ?_, ?_⟩
  · rw [hledger, Ledger.lines_enterAll]
    simpa using (turns_reads turns).1
  · obtain ⟨-, hquiet⟩ := quiet_of_isOutput (finish_isOutput hfin)
    have hopen : (Ledger.enterAll {} (feedAll options.imageDirectory.toList {} lines).1).found =
        (Ledger.enterAll {} (feedAll options.imageDirectory.toList {} lines).1).passages.map
          Passage.found := by
      simp only [Ledger.found, hrest.1, Option.toList_none, List.append_nil]
    rw [hledger, ← hopen, hfound, hrun, List.filterMap_append, hquiet, List.append_nil]
    rfl
  · rw [hledger, hrest.2]
    rfl
  · obtain ⟨passages, hp, ho⟩ := hr.output
    rw [hledger, hp, hrun, List.filter_append, ho, List.filter_eq_self.2 (finish_isOutput hfin),
      hlater]
    rfl

end WikiDocs

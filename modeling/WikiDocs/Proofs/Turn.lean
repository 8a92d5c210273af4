import WikiDocs.Conversion

/-!
The turns of a conversion. Each turn takes one token out of the pending text or
reads one line; reading all lines is a chain of turns that ends where no turn
is possible. What every turn preserves holds at every point of a conversion.
-/

namespace WikiDocs

namespace Conversion

open Token

/-- A conversion at work, with the lines that it has not read. -/
structure Course where
  state : State
  unread : List Text

inductive Turn (imageDirectory : Text) : Course → List Event → Course → Prop where
  | token {line : Nat} {buffer : Text} {m : Match} {unread : List Text}
      (found : find? buffer = some m) :
      Turn imageDirectory ⟨⟨line, .text buffer⟩, unread⟩
        (.token m :: (handle imageDirectory line m).1)
        ⟨⟨line, (handle imageDirectory line m).2⟩, unread⟩
  | start {number : Nat} {line : Text} {unread : List Text} :
      Turn imageDirectory ⟨⟨number, .nothing⟩, line :: unread⟩ [.read [] line]
        ⟨⟨number + 1, .text line⟩, unread⟩
  | join {number : Nat} {buffer line : Text} {unread : List Text}
      (empty : find? buffer = none) :
      Turn imageDirectory ⟨⟨number, .text buffer⟩, line :: unread⟩
        [.read (joint buffer line) line]
        ⟨⟨number + 1, .text (buffer ++ joint buffer line ++ line)⟩, unread⟩
  | extend {number opened : Nat} {opening : Match} {source line : Text} {unread : List Text} :
      Turn imageDirectory ⟨⟨number, .table opening source opened⟩, line :: unread⟩
        (.read [' '] line :: (closeTable opening (source ++ ' ' :: line) opened).1)
        ⟨⟨number + 1, (closeTable opening (source ++ ' ' :: line) opened).2⟩, unread⟩

/-- A number of turns one after the other. -/
inductive Turns (imageDirectory : Text) (course : Course) : Nat → List Event → Course → Prop where
  | none : Turns imageDirectory course 0 [] course
  | more {count : Nat} {events later : List Event} {middle last : Course} :
      Turns imageDirectory course count events middle → Turn imageDirectory middle later last →
      Turns imageDirectory course (count + 1) (events ++ later) last

variable {imageDirectory : Text}

theorem Turn.turns {first last : Course} {events : List Event}
    (h : Turn imageDirectory first events last) : Turns imageDirectory first 1 events last :=
  .more .none h

/-- What every turn preserves, with the events that went before, holds after any number of them. -/
theorem Turns.invariant {P : List Event → Course → Prop} {first last : Course} {count : Nat}
    {events : List Event} (h : Turns imageDirectory first count events last) (start : P [] first)
    (step : ∀ {events later middle last}, P events middle →
      Turn imageDirectory middle later last → P (events ++ later) last) : P events last := by
  induction h with
  | none => exact start
  | more _ turn ih => exact step ih turn

theorem Turns.trans {first middle last : Course} {count count' : Nat}
    {events later : List Event} (h : Turns imageDirectory first count events middle)
    (h' : Turns imageDirectory middle count' later last) :
    Turns imageDirectory first (count + count') (events ++ later) last := by
  induction h' with
  | none => simpa using h
  | more _ turn ih => rw [← List.append_assoc]; exact .more ih turn

/-- Nothing can be taken out of what is pending: no token, and no table that is closed. -/
def Pending.Settled : Pending → Prop
  | .nothing => True
  | .text buffer => find? buffer = none
  | .table _ source _ => cutTable? source = none

/-- Tokens are taken out of what is pending until none is left. -/
def State.Settled (state : State) : Prop := state.pending.Settled

theorem closeTable_settled {opening : Match} {source : Text} {opened : Nat} :
    (∃ rest, (closeTable opening source opened).2 = .text rest) ∨
      (closeTable opening source opened).2.Settled := by
  simp only [closeTable]
  split
  · rename_i hcut
    exact .inr hcut
  · exact .inl ⟨_, rfl⟩

/-- At the end of the input no turn is possible. -/
theorem not_turn_of_settled {state : State} {events : List Event} {last : Course}
    (hs : state.Settled) : ¬ Turn imageDirectory ⟨state, []⟩ events last := by
  intro h
  cases h with
  | token found =>
      have hnone : find? _ = none := hs
      rw [hnone] at found
      cases found

variable (imageDirectory)

theorem handle_settled (line : Nat) (m : Match) :
    (∃ rest, (handle imageDirectory line m).2 = .text rest) ∨
      (handle imageDirectory line m).2.Settled := by
  simp only [handle]
  split
  case h_5 => exact closeTable_settled
  all_goals exact .inl ⟨_, rfl⟩

theorem drain_turns (line : Nat) (buffer : Text) (unread : List Text) :
    ∃ count, Turns imageDirectory ⟨⟨line, .text buffer⟩, unread⟩ count
      (drain imageDirectory line buffer).1
      ⟨⟨line, (drain imageDirectory line buffer).2⟩, unread⟩ ∧
      (drain imageDirectory line buffer).2.Settled := by
  fun_induction drain imageDirectory line buffer with
  | case1 buffer hf => exact ⟨0, .none, hf⟩
  | case2 buffer m hf events rest hh later pending hd ih =>
      obtain ⟨count, turns, settled⟩ := ih
      rw [hd] at turns settled
      have turn : Turn imageDirectory ⟨⟨line, .text buffer⟩, unread⟩ _ _ := .token hf
      rw [hh] at turn
      exact ⟨1 + count, turn.turns.trans turns, settled⟩
  | case3 buffer m hf events pending hh hne =>
      have turn : Turn imageDirectory ⟨⟨line, .text buffer⟩, unread⟩ _ _ := .token hf
      rw [hne] at turn
      refine ⟨1, turn.turns, ?_⟩
      obtain ⟨rest, hrest⟩ | settled := handle_settled imageDirectory line m
      · rw [hne] at hrest
        exact absurd hrest (hh rest)
      · rwa [hne] at settled

theorem resume_turns {o : List Event × Pending} (line : Nat) (unread : List Text)
    (ho : (∃ rest, o.2 = .text rest) ∨ o.2.Settled) :
    ∃ count later, Turns imageDirectory ⟨⟨line, o.2⟩, unread⟩ count later
      ⟨⟨line, (resume imageDirectory line o).2⟩, unread⟩ ∧
      (resume imageDirectory line o).1 = o.1 ++ later ∧
      (resume imageDirectory line o).2.Settled := by
  obtain ⟨events, pending⟩ := o
  cases pending with
  | text buffer =>
      obtain ⟨count, turns, settled⟩ := drain_turns imageDirectory line buffer unread
      exact ⟨count, _, turns, rfl, settled⟩
  | nothing | table opening source opened =>
      refine ⟨0, [], .none, by simp [resume], ?_⟩
      obtain ⟨_, h⟩ | h := ho
      · cases h
      · exact h

theorem resume_turn {first : Course} {line : Nat} {unread : List Text}
    {o : List Event × Pending} (turn : Turn imageDirectory first o.1 ⟨⟨line, o.2⟩, unread⟩)
    (ho : (∃ rest, o.2 = .text rest) ∨ o.2.Settled) :
    ∃ count, Turns imageDirectory first count (resume imageDirectory line o).1
      ⟨⟨line, (resume imageDirectory line o).2⟩, unread⟩ ∧
      (resume imageDirectory line o).2.Settled := by
  obtain ⟨count, later, turns, same, settled⟩ := resume_turns imageDirectory line unread ho
  rw [same]
  exact ⟨1 + count, turn.turns.trans turns, settled⟩

/-- Reading a line is a chain of turns after which no token is left. -/
theorem feed_turns {state : State} (hs : state.Settled) (line : Text) (unread : List Text) :
    ∃ count, Turns imageDirectory ⟨state, line :: unread⟩ count
      (feed imageDirectory state line).1 ⟨(feed imageDirectory state line).2, unread⟩ ∧
      (feed imageDirectory state line).2.Settled := by
  obtain ⟨number, pending⟩ := state
  cases pending with
  | nothing =>
      exact resume_turn imageDirectory (o := ([.read [] line], .text line)) .start (.inl ⟨_, rfl⟩)
  | text buffer =>
      exact resume_turn imageDirectory (o := ([.read (joint buffer line) line],
        .text (buffer ++ joint buffer line ++ line))) (.join hs) (.inl ⟨_, rfl⟩)
  | table opening source opened =>
      exact resume_turn imageDirectory (o := (_, _)) .extend closeTable_settled

/-- The loops of a conversion end: reading lines to the last is a finite chain of turns. -/
theorem feedAll_turns {state : State} (hs : state.Settled) (lines : List Text) :
    ∃ count, Turns imageDirectory ⟨state, lines⟩ count
      (feedAll imageDirectory state lines).1 ⟨(feedAll imageDirectory state lines).2, []⟩ ∧
      (feedAll imageDirectory state lines).2.Settled := by
  induction lines generalizing state with
  | nil => exact ⟨0, .none, hs⟩
  | cons line lines ih =>
      obtain ⟨count, turns, settled⟩ := feed_turns imageDirectory hs line lines
      obtain ⟨count', turns', settled'⟩ := ih settled
      exact ⟨count + count', turns.trans turns', settled'⟩

theorem State.settled_start : State.Settled {} := trivial

end Conversion
end WikiDocs

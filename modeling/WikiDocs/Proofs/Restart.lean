import WikiDocs.Proofs.Front
import WikiDocs.Proofs.Run
import WikiDocs.Proofs.Turn

/-!
Conversions that start again. A blank line takes all tokens out of what is
pending and leaves an empty text, unless a table is open; from then on the
conversion does what a new one does, only that its lines have later numbers.
-/

namespace WikiDocs

open Token

namespace Text

theorem cutAfter_isSome (mark front rest : Text) :
    (cutAfter mark (front ++ mark ++ rest)).isSome := by
  induction front with
  | nil =>
      have hd : dropLead mark ([] ++ mark ++ rest) = some rest := dropLead_eq_some_iff.2 rfl
      rw [cutAfter.eq_def, hd]
      rfl
  | cons c front ih =>
      rw [cutAfter.eq_def]
      split
      · rfl
      · simpa using ih

end Text

namespace Conversion

variable {imageDirectory : Text}

theorem drain_none {line : Nat} {buffer : Text} (h : find? buffer = none) :
    drain imageDirectory line buffer = ([], .text buffer) := by
  rw [drain.eq_def]
  split
  · rfl
  · rename_i m hm
    rw [h] at hm
    cases hm

theorem drain_some {line : Nat} {buffer rest : Text} {m : Match} (h : find? buffer = some m)
    (hh : (handle imageDirectory line m).2 = .text rest) :
    drain imageDirectory line buffer =
      (.token m :: (handle imageDirectory line m).1 ++ (drain imageDirectory line rest).1,
        (drain imageDirectory line rest).2) := by
  rw [drain.eq_def]
  split
  · rename_i hn
    rw [h] at hn
    cases hn
  · rename_i m' hm
    cases h.symm.trans hm
    split
    · rename_i events rest' hr
      rw [hr] at hh ⊢
      cases hh
      rfl
    · rename_i events pending hne hp
      rw [hp] at hh
      exact absurd hh (hne rest)

theorem drain_some_of_ne {line : Nat} {buffer : Text} {m : Match} (h : find? buffer = some m)
    (hh : ∀ rest, (handle imageDirectory line m).2 ≠ .text rest) :
    drain imageDirectory line buffer =
      (.token m :: (handle imageDirectory line m).1, (handle imageDirectory line m).2) := by
  rw [drain.eq_def]
  split
  · rename_i hn
    rw [h] at hn
    cases hn
  · rename_i m' hm
    cases h.symm.trans hm
    split
    · rename_i events rest hr
      exact absurd (by rw [hr]) (hh rest)
    · rename_i events pending hp hne
      rw [hne]

/-- Line breaks after a text without tokens are taken out one by one. -/
theorem drain_lineBreaks (imageDirectory : Text) (line : Nat) {buffer t : Text} (ht : ∀ c ∈ t, c = '\n')
    (h : find? buffer = none) : (drain imageDirectory line (buffer ++ t)).2 =
      .text (if t = [] then buffer else []) := by
  induction t generalizing buffer with
  | nil => rw [List.append_nil, drain_none h, if_pos rfl]
  | cons c t ih =>
      have ht' : ∀ c ∈ t, c = '\n' := fun c hc => ht c (List.mem_cons_of_mem _ hc)
      rw [ht c (List.mem_cons_self ..), drain_some (find?_lineBreaks ht' h) rfl,
        if_neg (List.cons_ne_nil _ _)]
      refine (ih ht' find?_nil).trans ?_
      rw [ite_self]

/-- A blank line cannot close a table: the mark that closes it would have to end in a space. -/
theorem cutTable?_space {source : Text} (h : cutTable? source = none) :
    cutTable? (source ++ [' ']) = none := by
  cases hcut : cutTable? (source ++ [' ']) with
  | none => rfl
  | some cut =>
      obtain ⟨upTo, rest⟩ := cut
      have happ := Text.append_of_cutAfter hcut
      obtain ⟨front, rfl⟩ := Text.mark_suffix_of_cutAfter hcut
      obtain rfl | ⟨rest, c, rfl⟩ := List.eq_nil_or_concat rest
      · have hlast := congrArg List.getLast? happ
        simp [tableEnd] at hlast
      · rw [List.concat_eq_append, ← List.append_assoc] at happ
        obtain ⟨rfl, -⟩ := List.append_inj' happ rfl
        have hsome := Text.cutAfter_isSome tableEnd front rest
        rw [cutTable?] at h
        rw [h] at hsome
        cases hsome

/-- After a blank line nothing is pending but an empty text, unless a table is open. -/
theorem feed_blank (imageDirectory : Text) {state : State} (hs : state.Settled) :
    (feed imageDirectory state []).2.pending = .text [] ∨
      ∃ opening source opened,
        (feed imageDirectory state []).2.pending = .table opening source opened := by
  obtain ⟨number, pending⟩ := state
  cases pending with
  | nothing =>
      left
      simp only [feed, attach, resume, drain_none find?_nil]
  | text buffer =>
      left
      have hdrain := drain_lineBreaks imageDirectory (number + 1) (t := ['\n', '\n']) (by simp) hs
      simpa [feed, attach, resume, joint] using hdrain
  | table opening source opened =>
      right
      have hcut : cutTable? (source ++ [' ']) = none := cutTable?_space hs
      refine ⟨opening, source ++ [' '], opened, ?_⟩
      simp only [feed, attach, closeTable, hcut, resume]

def Pending.later (n : Nat) : Pending → Pending
  | .nothing => .nothing
  | .text buffer => .text buffer
  | .table opening source line => .table opening source (line + n)

/-- A conversion that has read `n` more lines. -/
def State.later (n : Nat) (state : State) : State :=
  { lineNumber := state.lineNumber + n, pending := state.pending.later n }

end Conversion

def Error.line? : Error → Option Nat
  | .unterminatedTable line | .notLatin1 line _ => some line
  | .io _ | .inputNotFound _ | .outputDirNotFound _ | .noOpenDocument | .other _ => none

/-- An error `n` lines later. -/
def Error.later (n : Nat) : Error → Error
  | .unterminatedTable line => .unterminatedTable (line + n)
  | .notLatin1 line char => .notLatin1 (line + n) char
  | e => e

namespace Conversion

theorem closeTable_later (n : Nat) (opening : Match) (source : Text) (line : Nat) :
    closeTable opening source (line + n) =
      ((closeTable opening source line).1, (closeTable opening source line).2.later n) := by
  simp only [closeTable]
  split <;> rfl

theorem handle_later (imageDirectory : Text) (n line : Nat) (m : Match) :
    handle imageDirectory (line + n) m =
      ((handle imageDirectory line m).1, (handle imageDirectory line m).2.later n) := by
  simp only [handle]
  split
  case h_5 => exact closeTable_later n m _ line
  all_goals rfl

theorem drain_later (n line : Nat) (buffer : Text) :
    drain imageDirectory (line + n) buffer =
      ((drain imageDirectory line buffer).1, (drain imageDirectory line buffer).2.later n) := by
  fun_induction drain imageDirectory line buffer with
  | case1 buffer hf => rw [drain_none hf]; rfl
  | case2 buffer m hf events rest hh later pending hd ih =>
      have hlater := handle_later imageDirectory n line m
      rw [hh] at hlater
      have hrest : (handle imageDirectory (line + n) m).2 = .text rest := by rw [hlater]; rfl
      rw [drain_some hf hrest, hlater, ih, hd]
  | case3 buffer m hf events pending hne hh =>
      have hlater := handle_later imageDirectory n line m
      rw [hh] at hlater
      have hrest : ∀ rest, (handle imageDirectory (line + n) m).2 ≠ .text rest := by
        intro rest
        rw [hlater]
        cases pending with
        | nothing | table _ _ _ => exact Pending.noConfusion
        | text buffer => exact absurd rfl (hne buffer)
      rw [drain_some_of_ne hf hrest, hlater]

theorem resume_later (n line : Nat) (events : List Event) (pending : Pending) :
    resume imageDirectory (line + n) (events, pending.later n) =
      ((resume imageDirectory line (events, pending)).1,
        (resume imageDirectory line (events, pending)).2.later n) := by
  cases pending with
  | nothing | table _ _ _ => rfl
  | text buffer => simp only [Pending.later, resume, drain_later]

theorem attach_later (n number : Nat) (line : Text) (pending : Pending) :
    attach imageDirectory line (number + n) (pending.later n) =
      ((attach imageDirectory line number pending).1,
        (attach imageDirectory line number pending).2.later n) := by
  cases pending with
  | nothing => exact resume_later n number _ (.text line)
  | text buffer => exact resume_later n number _ (.text (buffer ++ joint buffer line ++ line))
  | table opening source opened =>
      have hclose := closeTable_later n opening (source ++ ' ' :: line) opened
      change resume imageDirectory (number + n)
        (.read [' '] line :: (closeTable opening (source ++ ' ' :: line) (opened + n)).1,
          (closeTable opening (source ++ ' ' :: line) (opened + n)).2) = _
      rw [hclose]
      exact resume_later n number _ _

theorem feed_later (n : Nat) (state : State) (line : Text) :
    feed imageDirectory (state.later n) line =
      ((feed imageDirectory state line).1, (feed imageDirectory state line).2.later n) := by
  have hnumber : state.lineNumber + n + 1 = state.lineNumber + 1 + n := by omega
  simp only [feed, State.later]
  rw [hnumber, attach_later]

theorem outline_later (n : Nat) (options : Options) (state : State)
    (pieces : List (List UInt8)) :
    outline options (state.later n) pieces =
      ((outline options state pieces).1, (outline options state pieces).2.mapError (·.later n)) := by
  induction pieces generalizing state with
  | nil =>
      obtain ⟨number, pending⟩ := state
      cases pending <;> rfl
  | cons piece pieces ih =>
      cases hp : Line.ofPiece options.expandEscapes piece with
      | error cause => rw [outline_cons_error hp, outline_cons_error hp]; rfl
      | ok line => rw [outline_cons_ok hp, outline_cons_ok hp, feed_later, ih]

/-- Before a line that is not blank an empty text is as good as nothing. -/
theorem attach_empty {line : Text} (h : line ≠ []) (number : Nat) :
    attach imageDirectory line number (.text []) = attach imageDirectory line number .nothing := by
  simp [attach, joint, h]

/-- A conversion with an empty text left goes on as a new one starts, unless with a blank line. -/
theorem outline_restart {options : Options} {pieces : List (List UInt8)}
    (h : ∀ piece ∈ pieces.head?, Line.ofPiece options.expandEscapes piece ≠ .ok []) (n : Nat) :
    outline options ⟨n, .text []⟩ pieces =
      ((outline options {} pieces).1, (outline options {} pieces).2.mapError (·.later n)) := by
  rw [← outline_later]
  cases pieces with
  | nil => rfl
  | cons piece pieces =>
      cases hp : Line.ofPiece options.expandEscapes piece with
      | error cause => rw [outline_cons_error hp, outline_cons_error hp]
      | ok line =>
          have hline : line ≠ [] := by
            rintro rfl
            exact h piece rfl hp
          rw [outline_cons_ok hp, outline_cons_ok hp]
          simp only [feed, State.later, Pending.later, attach_empty hline, Nat.zero_add]

end Conversion
end WikiDocs

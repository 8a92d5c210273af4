import WikiDocs.Proofs.Conservation
import WikiDocs.Proofs.Recognition
import WikiDocs.Proofs.Strict

/-!
What a conversion flushes is free of markup. The text before a token holds no
token, since the leftmost one is taken, and what is pending when the input ends
has run out of them; so in what is flushed no pattern of any kind matches.
-/

namespace WikiDocs

open Conversion Text Token

/-- A text without markup: no token is found in it, and no pattern matches anywhere in it. -/
structure Token.Unmarked (s : Text) : Prop where
  none_found : find? s = none
  no_match : ∀ kind : Kind, kind.pattern.match? s = none
  no_break : '\n' ∉ s
  no_table : ¬ ['\x7b', '|'] <:+: s ∧ ¬ ['\x7b', '\\', '|'] <:+: s
  no_colons : ¬ [':', ':'] <:+: s
  no_page : ∀ rest, rest <:+ s → pageBreak? rest = none
  no_image : ∀ rest, rest <:+ s → image? rest = none
  no_heading : ∀ level, heading? level s = none
  no_item : listItem? s = none

namespace Token

variable {s : Text}

/-- Where no token is found, nothing stands that begins a token whatever follows. -/
theorem not_infix_of_find? (h : find? s = none) (kind : Kind) (opening : Text)
    (hopening : ∀ start back, kind.lexeme? start (opening ++ back) ≠ none) :
    ¬ opening <:+: s := by
  rintro ⟨front, back, rfl⟩
  rw [List.append_assoc] at h
  obtain ⟨start, hnone⟩ := lexeme?_of_suffix h (List.suffix_append front _)
  exact hopening start back (hnone kind)

theorem unmarked_of_find? (h : find? s = none) : Unmarked s where
  none_found := h
  no_match := match?_eq_none h
  no_break hbreak := by
    obtain ⟨front, back, rfl⟩ := List.append_of_mem hbreak
    refine not_infix_of_find? h .newline ['\n'] ?_ ⟨front, back, by simp⟩
    exact fun _ _ => Option.some_ne_none _
  no_table := ⟨not_infix_of_find? h .tableStart _ fun _ _ => Option.some_ne_none _,
    not_infix_of_find? h .tableStart _ fun _ _ => Option.some_ne_none _⟩
  no_colons := not_infix_of_find? h .literalBlock _ fun _ _ => Option.some_ne_none _
  no_page rest hrest := by
    obtain ⟨_, hnone⟩ := lexeme?_of_suffix h hrest
    exact hnone .pageBreak
  no_image rest hrest := by
    obtain ⟨_, hnone⟩ := lexeme?_of_suffix h hrest
    exact hnone .image
  no_heading level := by
    cases level with
    | title => exact lexeme?_of_find? h .title
    | subtitle => exact lexeme?_of_find? h .subtitle
    | minorTitle => exact lexeme?_of_find? h .minorTitle
  no_item := lexeme?_of_find? h .listItem

end Token

/-- A token that agrees with the ledger was found in a text. -/
theorem Ledger.find?_of_agreesAll {ledger : Ledger} {events : List Event}
    (h : ledger.AgreesAll events) {m : Match} (hm : .token m ∈ events) :
    ∃ rest, find? rest = some m := by
  obtain ⟨front, back, rfl⟩ := List.append_of_mem hm
  obtain ⟨-, htoken, -⟩ := Ledger.agreesAll_append.1 h
  obtain ⟨-, rest, -, hfind⟩ := htoken
  exact ⟨rest, hfind⟩

/-- What is pending when the input ends is written as it is, and no token is in it. -/
theorem Conversion.exists_rest {state : State} (hs : state.Settled) {later : List Event}
    (h : finish state = .ok later) : ∃ rest, later = writeText rest ∧ find? rest = none := by
  obtain ⟨number, pending⟩ := state
  cases pending with
  | nothing =>
      cases h
      exact ⟨[], rfl, find?_nil⟩
  | text buffer =>
      cases h
      exact ⟨buffer, rfl, hs⟩
  | table opening source opened => cases h

variable {σ ω : Type} [Sink σ ω]

/-- The text before the leftmost token of a buffer holds no token. In every run the texts before
its tokens are free of markup, and so is what is written at the end of the input, if the run comes
that far. -/
theorem flushed_unmarked (sink : σ) (options : Options) (input : List UInt8) :
    (∀ buffer m, find? buffer = some m → find? m.before = none) ∧
      (∀ m, .token m ∈ runEvents sink options input → Unmarked m.before) ∧
      runEvents sink options input <+: (outline options {} (Line.pieces input)).1 ∧
      ((outline options {} (Line.pieces input)).2 = .ok () →
        ∃ lines rest,
          (Line.pieces input).map (Line.ofPiece options.expandEscapes) = lines.map .ok ∧
          (outline options {} (Line.pieces input)).1 =
            (feedAll options.imageDirectory.toList {} lines).1 ++ writeText rest ∧
          Unmarked rest) := by
  refine ⟨fun buffer m h => find?_before h, fun m hm => ?_, runEvents_isPrefix sink options input,
    fun hend => ?_⟩
  · obtain ⟨rest, hfind⟩ :=
      Ledger.find?_of_agreesAll (agreesAll_runEvents sink options input) hm
    exact unmarked_of_find? (find?_before hfind)
  · obtain ⟨lines, later, hlines, hfinish, hevents⟩ := lines_of_outline hend
    obtain ⟨_, -, settled⟩ :=
      feedAll_turns options.imageDirectory.toList State.settled_start lines
    obtain ⟨rest, rfl, hrest⟩ := exists_rest settled hfinish
    exact ⟨lines, rest, hlines, hevents, unmarked_of_find? hrest⟩

end WikiDocs

import WikiDocs.Proofs.Pieces

/-!
Lines read out of a source. Bytes are cut after each line feed in one way only,
and each call of a source is about the next piece: it gives the line that the
piece is, or an error if it is not a text, and leaves what stands behind.
-/

namespace WikiDocs.Line

open Text

/-- Bytes cut after each line feed. What stands behind the last line feed is a piece as well. -/
inductive CutAtFeeds : List UInt8 → List (List UInt8) → Prop where
  | none : CutAtFeeds [] []
  | last {piece : List UInt8} (hne : piece ≠ []) (hfeed : lineFeed ∉ piece) :
      CutAtFeeds piece [piece]
  | feed {front rest : List UInt8} {pieces : List (List UInt8)} (hfeed : lineFeed ∉ front)
      (hrest : CutAtFeeds rest pieces) :
      CutAtFeeds (front ++ lineFeed :: rest) ((front ++ [lineFeed]) :: pieces)

theorem cutAtFeeds_pieces (bytes : List UInt8) : CutAtFeeds bytes (pieces bytes) := by
  by_cases h : lineFeed ∈ bytes
  · obtain ⟨front, rest, hbytes, hfront⟩ := List.eq_append_cons_of_mem h
    rw [hbytes, pieces_lineFeed hfront]
    exact .feed hfront (cutAtFeeds_pieces rest)
  · by_cases hne : bytes = []
    · rw [hne, pieces_nil]
      exact .none
    · rw [pieces_of_not_mem hne h]
      exact .last hne h
termination_by bytes.length
decreasing_by
  rw [hbytes, List.length_append, List.length_cons]
  omega

theorem CutAtFeeds.eq_pieces {bytes : List UInt8} {cut : List (List UInt8)}
    (h : CutAtFeeds bytes cut) : cut = pieces bytes := by
  induction h with
  | none => exact pieces_nil.symm
  | last hne hfeed => exact (pieces_of_not_mem hne hfeed).symm
  | feed hfeed _ ih => rw [pieces_lineFeed hfeed, ih]

/-- A line with its terminator, if it has one. A carriage return belongs to the terminator only
right before the line feed, and only one does. -/
inductive Ended (line : Text) : Text → Prop where
  | unended (h : line.getLast? ≠ some '\n') : Ended line line
  | feed (h : line.getLast? ≠ some '\r') : Ended line (line ++ ['\n'])
  | returned : Ended line (line ++ ['\r', '\n'])

theorem ended_dropTerminator (text : Text) : Ended (dropTerminator text) text := by
  by_cases hfeed : text.getLast? = some '\n'
  · obtain ⟨front, rfl⟩ := List.getLast?_eq_some_iff.1 hfeed
    by_cases hreturn : front.getLast? = some '\r'
    · obtain ⟨line, rfl⟩ := List.getLast?_eq_some_iff.1 hreturn
      rw [← List.append_cons, dropTerminator_returned]
      exact .returned
    · rw [dropTerminator_feed hreturn]
      exact .feed hreturn
  · rw [dropTerminator, if_neg hfeed]
    exact .unended hfeed

namespace Source

/-- The source after a number of calls of `next`. -/
def after (source : Source) : Nat → Source
  | 0 => source
  | calls + 1 => (source.after calls).next.2

/-- What a call answers that is about a piece, and what source it leaves. The whole piece is
consumed whether or not it is a text, but only a line is counted. -/
inductive Reads (source : Source) (piece : List UInt8) :
    Except Error (Option Text) × Source → Prop where
  | line {text line : Text} {rest : List UInt8} (hrest : source.unread = piece ++ rest)
      (htext : (Utf8.encode text).data.toList = piece) (hended : Ended line text) :
      Reads source piece (.ok (some (normalize source.expand line)),
        { source with unread := rest, lineNumber := source.lineNumber + 1 })
  | invalid {rest : List UInt8} (hrest : source.unread = piece ++ rest)
      (hbytes : ∀ text, (Utf8.encode text).data.toList ≠ piece) :
      Reads source piece (.error (.io .invalidUtf8), { source with unread := rest })

variable {source : Source}

theorem next_end (h : source.unread = []) : source.next = (.ok none, source) := by
  simp only [next, h]

theorem next_piece (h : source.unread ≠ []) :
    source.Reads (cutPiece source.unread).1 source.next ∧
      source.next.2.unread = (cutPiece source.unread).2 := by
  obtain ⟨unread, lineNumber, expand⟩ := source
  cases unread with
  | nil => exact absurd rfl h
  | cons b bytes =>
      have hrest := (cutPiece_append (b :: bytes)).symm
      cases hs : Utf8.strict? (cutPiece (b :: bytes)).1 with
      | none =>
          simp only [next, ofPiece, hs]
          refine ⟨.invalid hrest fun text htext => ?_, trivial⟩
          rw [← htext, Utf8.strict?_encode] at hs
          cases hs
      | some text =>
          simp only [next, ofPiece, hs]
          exact ⟨.line hrest (Utf8.toList_encode_of_strict? hs) (ended_dropTerminator text),
            trivial⟩

/-- Each call takes the first of the pieces that are left. -/
theorem pieces_next (source : Source) :
    pieces source.next.2.unread = (pieces source.unread).tail := by
  by_cases h : source.unread = []
  · rw [next_end h, h, pieces_nil, List.tail_nil]
  · rw [(next_piece h).2, pieces_cut h, List.tail_cons]

theorem pieces_after (source : Source) (calls : Nat) :
    pieces (source.after calls).unread = (pieces source.unread).drop calls := by
  induction calls with
  | zero => rfl
  | succ calls ih => rw [after, pieces_next, ih, List.tail_drop]

theorem unread_after (source : Source) (calls : Nat) :
    (source.after calls).unread = ((pieces source.unread).drop calls).flatten := by
  rw [← pieces_after, flatten_pieces]

theorem expand_next (source : Source) : source.next.2.expand = source.expand := by
  by_cases h : source.unread = []
  · rw [next_end h]
  · have hreads := (next_piece h).1
    generalize source.next = result at hreads
    cases hreads <;> rfl

theorem expand_after (source : Source) (calls : Nat) :
    (source.after calls).expand = source.expand := by
  induction calls with
  | zero => rfl
  | succ calls ih => rw [after, expand_next, ih]

/-- A source is read piece by piece. Each call is about the piece with its number among the pieces
into which the bytes are cut after their line feeds, and that is the only such cut; a call after
the last piece gives nothing and changes nothing. -/
theorem pieces_read_once (source : Source) :
    CutAtFeeds source.unread (pieces source.unread) ∧
      (∀ cut, CutAtFeeds source.unread cut → cut = pieces source.unread) ∧
      ∀ calls,
        (source.after calls).unread = ((pieces source.unread).drop calls).flatten ∧
          (source.after calls).expand = source.expand ∧
          match (pieces source.unread)[calls]? with
          | some piece => (source.after calls).Reads piece (source.after calls).next
          | none => (source.after calls).next = (.ok none, source.after calls) := by
  refine ⟨cutAtFeeds_pieces source.unread, fun _ h => h.eq_pieces, fun calls => ?_⟩
  refine ⟨unread_after source calls, expand_after source calls, ?_⟩
  have hfirst : (pieces source.unread)[calls]? = (pieces (source.after calls).unread).head? := by
    rw [pieces_after, List.head?_drop]
  rw [hfirst]
  by_cases h : (source.after calls).unread = []
  · rw [h, pieces_nil]
    exact next_end h
  · rw [pieces_cut h]
    exact (next_piece h).1

example :
    let source : Source := { unread := [97, 13, 13, 10, 255, 10, 98] }
    (source.next.1, (source.after 1).next.1, (source.after 2).next.1, (source.after 3).lineNumber) =
      (.ok (some ['a', '\r']), .error (.io .invalidUtf8), .ok (some ['b']), 2) := by cbv

end Source
end WikiDocs.Line

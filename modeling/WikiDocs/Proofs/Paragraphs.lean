import WikiDocs.Proofs.Bodies
import WikiDocs.Proofs.LongerTexts

/-!
Paragraphs of running text. Their lines are joined by spaces, and since no token
is in the joined text, none is found before all lines are read; the blank lines
after a paragraph then write it and leave nothing pending for the next one.
-/

namespace WikiDocs

open Conversion Text Token

/-- The lines of a paragraph as they are read, and the number of blank lines after them. -/
structure Paragraph where
  texts : List Text
  blanks : Nat

namespace Paragraph

def joined (p : Paragraph) : Text := [' '].intercalate p.texts

/-- Running text: no line is blank or starts a block, and all lines together hold no token. -/
structure Plain (p : Paragraph) : Prop where
  texts_ne : p.texts ≠ []
  no_blank : ∀ text ∈ p.texts, text ≠ []
  no_block : ∀ text ∈ p.texts, startsBlock text = false
  no_token : find? p.joined = none

def lines (p : Paragraph) : List Text := p.texts ++ List.replicate p.blanks []

/-- The tokens found in a paragraph: two line breaks for each blank line. -/
def breaks (p : Paragraph) : List Kind := List.replicate (2 * p.blanks) .newline

/-- What is written for a paragraph. The text of one that no blank line ends is written as it is. -/
def body (p : Paragraph) : List Text :=
  if p.blanks = 0 then [p.joined]
  else Rst.finishLine p.joined :: List.replicate (2 * p.blanks - 1) []

end Paragraph

theorem intercalate_eq_flatMap (text : Text) (texts : List Text) :
    [' '].intercalate (text :: texts) = text ++ texts.flatMap (' ' :: ·) := by
  induction texts generalizing text with
  | nil => simp
  | cons next texts ih =>
      rw [List.intercalate_cons_cons, ih, List.flatMap_cons]
      simp only [List.append_assoc, List.cons_append, List.nil_append]

namespace Conversion

variable {imageDirectory buffer : Text}

/-- A line behind an empty text is pending as it is. -/
theorem reads_first {text : Text} (hne : text ≠ []) (h : find? text = none) :
    Reads imageDirectory (.text []) [text] [] [] (.text text) := by
  intro number
  have hjoint : joint [] text = [] := by rw [joint, if_neg hne, if_pos rfl]
  refine ⟨[.read [] text], ?_, rfl, rfl⟩
  simp only [feedAll, feed, attach, hjoint, List.nil_append, resume, drain_none h, List.append_nil]
  rfl

/-- A line of running text is joined to what is pending, and nothing is found. -/
theorem reads_joined {text : Text} (hbuffer : buffer ≠ []) (hne : text ≠ [])
    (hblock : startsBlock text = false) (h : find? (buffer ++ ' ' :: text) = none) :
    Reads imageDirectory (.text buffer) [text] [] [] (.text (buffer ++ ' ' :: text)) := by
  intro number
  have hjoint : joint buffer text = [' '] := by
    rw [joint, if_neg hne, if_neg hbuffer, hblock]
    rfl
  refine ⟨[.read [' '] text], ?_, rfl, rfl⟩
  simp only [feedAll, feed, attach, hjoint, List.append_assoc, List.singleton_append, resume,
    drain_none h, List.append_nil]
  rfl

/-- The lines of a paragraph are joined one after the other: no front of the joined text holds a
token. -/
theorem reads_texts {texts : List Text} (hbuffer : buffer ≠ [])
    (hne : ∀ text ∈ texts, text ≠ []) (hblock : ∀ text ∈ texts, startsBlock text = false)
    (h : find? (buffer ++ texts.flatMap (' ' :: ·)) = none) :
    Reads imageDirectory (.text buffer) texts [] []
      (.text (buffer ++ texts.flatMap (' ' :: ·))) := by
  induction texts generalizing buffer with
  | nil =>
      rw [List.flatMap_nil, List.append_nil]
      exact .nil _
  | cons text texts ih =>
      rw [List.forall_mem_cons] at hne hblock
      rw [List.flatMap_cons, ← List.append_assoc] at h ⊢
      have hjoined : buffer ++ ' ' :: text ≠ [] := by simp
      exact (reads_joined hbuffer hne.1 hblock.1 (find?_shorter h)).trans
        (ih hjoined hne.2 hblock.2 h)

/-- A blank line writes what is pending, and an empty line. -/
theorem reads_blank (h : find? buffer = none) :
    Reads imageDirectory (.text buffer) [[]] [.newline, .newline] [Rst.finishLine buffer, []]
      (.text []) := by
  intro number
  have hfirst : find? (buffer ++ ['\n', '\n']) = some ⟨⟨.newline, ['\n'], ['\n']⟩, buffer⟩ :=
    find?_lineBreaks (by simp) h
  have hsecond : find? ['\n'] = some ⟨⟨.newline, ['\n'], []⟩, []⟩ :=
    find?_lineBreaks (s := []) (by simp) find?_nil
  refine ⟨[.read ['\n', '\n'] [], .token ⟨⟨.newline, ['\n'], ['\n']⟩, buffer⟩,
    .write (Rst.finishLine buffer), .token ⟨⟨.newline, ['\n'], []⟩, []⟩, .write []], ?_, rfl, rfl⟩
  simp only [feedAll, feed, attach, joint, if_true, List.append_nil, resume]
  rw [drain_some hfirst rfl, handle, drain_some hsecond rfl, handle, drain_none find?_nil]
  rfl

theorem reads_blanks (h : find? buffer = none) (n : Nat) :
    Reads imageDirectory (.text buffer) (List.replicate (n + 1) [])
      (List.replicate (2 * (n + 1)) .newline)
      (Rst.finishLine buffer :: List.replicate (2 * n + 1) []) (.text []) := by
  induction n generalizing buffer with
  | zero => exact reads_blank h
  | succ n ih => exact (reads_blank h).trans (ih find?_nil)

end Conversion

namespace Paragraph

variable (imageDirectory : Text) {p : Paragraph}

theorem Plain.joined_ne (h : p.Plain) : p.joined ≠ [] := by
  obtain ⟨text, texts, htexts⟩ := List.exists_cons_of_ne_nil h.texts_ne
  rw [joined, htexts, intercalate_eq_flatMap]
  exact List.append_ne_nil_of_left_ne_nil (h.no_blank text (by simp [htexts])) _

theorem Plain.reads_texts (h : p.Plain) :
    Reads imageDirectory (.text []) p.texts [] [] (.text p.joined) := by
  obtain ⟨text, texts, htexts⟩ := List.exists_cons_of_ne_nil h.texts_ne
  have hne := h.no_blank
  have hblock := h.no_block
  have hfind := h.no_token
  rw [htexts, List.forall_mem_cons] at hne hblock
  rw [joined, htexts, intercalate_eq_flatMap] at hfind ⊢
  exact (reads_first hne.1 (find?_shorter hfind)).trans
    (Conversion.reads_texts hne.1 hne.2 hblock.2 hfind)

/-- A paragraph and the blank lines after it leave nothing pending. -/
theorem Plain.reads_lines (h : p.Plain) (hblanks : 0 < p.blanks) :
    Reads imageDirectory (.text []) p.lines p.breaks p.body (.text []) := by
  obtain ⟨n, hn⟩ := Nat.exists_eq_succ_of_ne_zero (Nat.ne_of_gt hblanks)
  rw [lines, breaks, body, hn]
  exact (h.reads_texts imageDirectory).trans (reads_blanks h.no_token n)

theorem Plain.exists_line (h : p.Plain) (others : List Paragraph) :
    ∃ line more, (p :: others).flatMap lines = line :: more ∧ line ≠ [] := by
  obtain ⟨text, texts, htexts⟩ := List.exists_cons_of_ne_nil h.texts_ne
  refine ⟨text, texts ++ List.replicate p.blanks [] ++ others.flatMap lines, ?_,
    h.no_blank text (by simp [htexts])⟩
  rw [List.flatMap_cons, lines, htexts, List.cons_append, List.cons_append]

theorem reads_all {paragraphs : List Paragraph} (hplain : ∀ p ∈ paragraphs, p.Plain)
    (hblanks : ∀ p ∈ paragraphs, 0 < p.blanks) :
    Reads imageDirectory (.text []) (paragraphs.flatMap lines) (paragraphs.flatMap breaks)
      (paragraphs.flatMap body) (.text []) := by
  induction paragraphs with
  | nil => exact .nil _
  | cons p paragraphs ih =>
      rw [List.forall_mem_cons] at hplain hblanks
      exact (hplain.1.reads_lines imageDirectory hblanks.1).trans (ih hplain.2 hblanks.2)

/-- The last paragraph may stay pending; it is written at the end of the input. -/
theorem Plain.reads_last (h : p.Plain) :
    ∃ written rest, Reads imageDirectory (.text []) p.lines p.breaks written (.text rest) ∧
      p.body = written ++ if rest = [] then [] else [rest] := by
  by_cases hblanks : p.blanks = 0
  · refine ⟨[], p.joined, ?_, ?_⟩
    · rw [lines, breaks, hblanks]
      simpa using h.reads_texts imageDirectory
    · rw [body, if_pos hblanks, if_neg h.joined_ne]
      rfl
  · exact ⟨p.body, [], h.reads_lines imageDirectory (Nat.pos_of_ne_zero hblanks),
      (List.append_nil _).symm⟩

end Paragraph

/-- An input of paragraphs of running text is written to one document: each paragraph on a line,
and two lines for each blank line after it, of which the line of the paragraph is one; only a last
paragraph that no blank line ends is written as it is. -/
theorem paragraphs_written {options : Options} {input : List UInt8} {paragraphs : List Paragraph}
    (hne : paragraphs ≠ []) (hplain : ∀ p ∈ paragraphs, p.Plain)
    (hblanks : ∀ p ∈ paragraphs.dropLast, 0 < p.blanks)
    (hinput : (Line.pieces input).map (Line.ofPiece options.expandEscapes) =
      (paragraphs.flatMap Paragraph.lines).map .ok) :
    WritesBody options input (paragraphs.flatMap Paragraph.breaks)
      (paragraphs.flatMap Paragraph.body) := by
  have hstart : ∃ line more, paragraphs.flatMap Paragraph.lines = line :: more ∧ line ≠ [] := by
    obtain ⟨p, others, rfl⟩ := List.exists_cons_of_ne_nil hne
    exact Paragraph.Plain.exists_line (hplain p List.mem_cons_self) others
  obtain ⟨line, more, hlines, hline⟩ := hstart
  obtain ⟨front, last, rfl⟩ := (List.eq_nil_or_concat paragraphs).resolve_left hne
  rw [List.concat_eq_append] at hplain hblanks hinput hlines ⊢
  rw [List.dropLast_concat] at hblanks
  have hfront := Paragraph.reads_all options.imageDirectory.toList
    (fun p hp => hplain p (List.mem_append_left _ hp)) hblanks
  obtain ⟨written, rest, hlast, hbody⟩ :=
    (hplain last (by simp)).reads_last options.imageDirectory.toList
  have hreads := hfront.trans hlast
  simp only [List.flatMap_append, List.flatMap_singleton] at hlines hinput ⊢
  rw [hlines] at hreads hinput
  rw [hbody, ← List.append_assoc]
  exact (hreads.of_empty hline).writesBody hinput

theorem paragraphs_written_two :
    let paragraphs : List Paragraph := [⟨["foo".toList, "bar".toList], 2⟩, ⟨["baz".toList], 0⟩]
    (paragraphs ≠ [] ∧ (∀ p ∈ paragraphs, p.Plain) ∧ (∀ p ∈ paragraphs.dropLast, 0 < p.blanks) ∧
        (Line.pieces "foo\nbar\n\n\nbaz\n".toUTF8.data.toList).map (Line.ofPiece true) =
          (paragraphs.flatMap Paragraph.lines).map .ok) ∧
      WritesBody {} "foo\nbar\n\n\nbaz\n".toUTF8.data.toList
        [.newline, .newline, .newline, .newline]
        ["foo bar".toList, [], [], [], "baz".toList] := by
  intro paragraphs
  have hplain : ∀ p ∈ paragraphs, p.Plain := by
    simp only [paragraphs, List.forall_mem_cons]
    exact ⟨⟨by decide, by decide, by decide, by decide +kernel⟩,
      ⟨by decide, by decide, by decide, by decide +kernel⟩, by simp⟩
  have hblanks : ∀ p ∈ paragraphs.dropLast, 0 < p.blanks := by simp [paragraphs]
  have hinput : (Line.pieces "foo\nbar\n\n\nbaz\n".toUTF8.data.toList).map (Line.ofPiece true) =
      (paragraphs.flatMap Paragraph.lines).map .ok := by decide +kernel
  have hne : paragraphs ≠ [] := List.cons_ne_nil _ _
  have hwritten : WritesBody {} _ (paragraphs.flatMap Paragraph.breaks)
      (paragraphs.flatMap Paragraph.body) := paragraphs_written hne hplain hblanks hinput
  exact ⟨⟨hne, hplain, hblanks, hinput⟩, hwritten⟩

end WikiDocs

import WikiDocs.Proofs.Joining

/-!
The line that was read last. An opener of a table that is pending stands on that
line, for none was left when the line was read and none reaches over what joins
a line to a pending text; a table that took lines leaves the end of the last one.
-/

namespace WikiDocs

open Text

namespace Token

theorem cutTable?_eq_none_iff {s : Text} : cutTable? s = none ↔ ¬ tableEnd <:+: s := by
  rw [← holds_iff, holds, Bool.not_eq_true, Option.isSome_eq_false_iff, Option.isNone_iff_eq_none]
  rfl

/-- A character that is no part of the opener of a table. -/
def Plain (c : Char) : Prop := c ≠ '\x7b' ∧ c ≠ '|' ∧ c ≠ '\\'

theorem tableStart?_plain {c : Char} (hc : Plain c) (s : Text) : tableStart? (c :: s) = none := by
  unfold tableStart?
  split
  · rename_i heq
    exact absurd (List.cons.inj heq).1 hc.1
  · rename_i heq
    exact absurd (List.cons.inj heq).1 hc.1
  · rfl

/-- The opener of a table does not reach over a plain character. -/
theorem tableStart?_append {b s : Text} {c : Char} (hc : Plain c)
    (h : tableStart? (b ++ c :: s) ≠ none) : tableStart? b ≠ none := by
  obtain ⟨l, hl⟩ := Option.ne_none_iff_exists'.1 h
  obtain ⟨hbegins, -⟩ := tableStart?_begins hl
  have hmem : c ∉ l.taken := by
    simp only [tableStart?] at hl
    split at hl <;> cases hl <;> simp [hc.1, hc.2.1, hc.2.2]
  obtain ⟨after, -, hfront⟩ := tableStart?_front hl (length_le_of_not_mem hbegins hmem)
  rw [hfront]
  exact Option.some_ne_none _

/-- Behind plain characters an opener stands where it stood without them. -/
theorem suffix_of_plain {plain rest s : Text} (hplain : ∀ c ∈ plain, Plain c)
    (hs : s <:+ plain ++ rest) (h : tableStart? s ≠ none) : s <:+ rest := by
  induction plain with
  | nil => exact hs
  | cons c plain ih =>
      rw [List.forall_mem_cons] at hplain
      obtain rfl | hs := List.suffix_cons_iff.1 hs
      · exact absurd (tableStart?_plain hplain.1 _) h
      · exact ih hplain.2 hs

theorem suffix_of_joined {buffer rest s : Text} {c : Char} (hc : Plain c)
    (hbuffer : ∀ b, b <:+ buffer → tableStart? b = none)
    (hs : s <:+ buffer ++ c :: rest) (h : tableStart? s ≠ none) : s <:+ rest := by
  induction buffer with
  | nil => exact suffix_of_plain (List.forall_mem_singleton.2 hc) hs h
  | cons d buffer ih =>
      obtain rfl | hs := List.suffix_cons_iff.1 hs
      · exact absurd (hbuffer _ (List.suffix_refl _)) (tableStart?_append hc h)
      · exact ih (fun b hb => hbuffer b (hb.trans (List.suffix_cons d buffer))) hs

theorem tableStart?_of_findFrom? {passed buffer s : Text} (h : findFrom? passed buffer = none)
    (hs : s <:+ buffer) : tableStart? s = none := by
  fun_induction findFrom? passed buffer with
  | case1 => cases h
  | case2 passed hnone =>
      rw [List.suffix_nil.1 hs]
      rfl
  | case3 passed c buffer hnone ih =>
      obtain rfl | hs := List.suffix_cons_iff.1 hs
      · exact lexeme?_eq_none_iff.1 hnone .tableStart
      · exact ih h hs

theorem tableStart?_of_find? {buffer : Text} {m : Match} (found : find? buffer = some m)
    (htable : m.token = .tableStart) : tableStart? (m.taken ++ m.after) ≠ none := by
  obtain ⟨start, hlexeme⟩ := lexeme?_of_findFrom? found
  rw [htable] at hlexeme
  exact Option.ne_none_iff_exists'.2 ⟨_, hlexeme⟩

theorem suffix_of_find? {buffer : Text} {m : Match} (found : find? buffer = some m) :
    m.taken ++ m.after <:+ buffer := by
  have hwhole := whole_of_find? found
  rw [Match.whole, List.append_assoc] at hwhole
  exact ⟨m.before, hwhole⟩

end Token

namespace Conversion

open Token

/-- Where an opener can be pending once `line` was read: on that line. An open table is not closed. -/
def Pending.OpensOn (line : Text) : Pending → Prop
  | .nothing => False
  | .text buffer => ∀ s, s <:+ buffer → tableStart? s ≠ none → s <:+ line
  | .table _ source _ => ¬ tableEnd <:+: source

theorem Pending.OpensOn.suffix {buffer rest line : Text} (h : (Pending.text buffer).OpensOn line)
    (hrest : rest <:+ buffer) : (Pending.text rest).OpensOn line :=
  fun s hs hopen => h s (hs.trans hrest) hopen

theorem closeTable_opensOn {opening : Match} {source line : Text} {opened : Nat}
    (h : ∀ upTo rest, cutTable? source = some (upTo, rest) → (Pending.text rest).OpensOn line) :
    (closeTable opening source opened).2.OpensOn line := by
  rw [closeTable]
  split
  · rename_i hcut
    exact cutTable?_eq_none_iff.1 hcut
  · rename_i upTo rest hcut
    exact h upTo rest hcut

theorem plain_joint {buffer line : Text} : ∀ c ∈ joint buffer line, Plain c := by
  rw [joint]
  split
  · simp [Plain]
  · split
    · simp
    · split <;> simp [Plain]

theorem join_opensOn {buffer line : Text} (empty : find? buffer = none) :
    (Pending.text (buffer ++ joint buffer line ++ line)).OpensOn line := by
  intro s hs hopen
  cases hjoint : joint buffer line with
  | nil =>
      have hbuffer : buffer = [] := by
        by_contra hne
        rw [joint, if_neg hne] at hjoint
        split at hjoint
        · cases hjoint
        · split at hjoint <;> cases hjoint
      rw [hjoint, hbuffer] at hs
      exact hs
  | cons c joint' =>
      have hplain : ∀ d ∈ joint buffer line, Plain d := plain_joint
      rw [hjoint, List.forall_mem_cons] at hplain
      rw [hjoint, List.append_assoc, List.cons_append] at hs
      have hbuffer : ∀ b, b <:+ buffer → tableStart? b = none :=
        fun b hb => tableStart?_of_findFrom? empty hb
      exact suffix_of_plain hplain.2 (suffix_of_joined hplain.1 hbuffer hs hopen) hopen

theorem extend_opensOn {opening : Match} {source line : Text} {opened : Nat}
    (h : ¬ tableEnd <:+: source) :
    (closeTable opening (source ++ ' ' :: line) opened).2.OpensOn line := by
  refine closeTable_opensOn ?_
  intro upTo rest hcut s hs _
  refine hs.trans ?_
  have hend : tableEnd <:+ upTo := mark_suffix_of_cutAfter hcut
  -- The table ends behind the space, for no end of a table is in what was read before.
  obtain ⟨more, hsource, -⟩ | ⟨more, hupTo, hline⟩ :=
    List.append_eq_append_iff.1 (append_of_cutAfter hcut)
  · refine absurd (hend.isInfix.trans ?_) h
    rw [hsource]
    exact (List.prefix_append ..).isInfix
  · cases more with
    | nil =>
        rw [List.append_nil] at hupTo
        rw [hupTo] at hend
        exact absurd hend.isInfix h
    | cons c more =>
        rw [List.cons_append, List.cons.injEq] at hline
        exact ⟨more, hline.2.symm⟩

theorem plain_listMarker (depth : Nat) : ∀ c ∈ Rst.listMarker depth, Plain c := by
  intro c hc
  rw [Rst.listMarker, List.mem_append, List.mem_replicate] at hc
  obtain ⟨-, rfl⟩ | hc := hc
  · simp [Plain]
  · simp only [List.mem_cons, List.not_mem_nil, or_false] at hc
    obtain rfl | rfl := hc <;> simp [Plain]

theorem handle_opensOn {imageDirectory line buffer : Text} {number : Nat} {m : Match}
    (found : find? buffer = some m) (h : (Pending.text buffer).OpensOn line) :
    (handle imageDirectory number m).2.OpensOn line := by
  have hrest := suffix_of_find? found
  have hafter : m.after <:+ buffer := (List.suffix_append _ _).trans hrest
  rw [handle]
  split
  case h_3 depth hitem =>
      have hbefore : m.before = [] := (of_find?_atStart found (by rw [hitem]; rfl)).1
      rw [hbefore, List.nil_append]
      intro s hs hopen
      exact h s ((suffix_of_plain (plain_listMarker depth) hs hopen).trans hafter) hopen
  case h_5 =>
      refine closeTable_opensOn ?_
      intro upTo rest hcut
      refine h.suffix (List.IsSuffix.trans ?_ hrest)
      rw [← append_of_cutAfter hcut]
      exact List.suffix_append upTo rest
  all_goals exact h.suffix hafter

/-- How a conversion came to a point: `line` was read last, after the lines `read`, and nothing could
be taken out of what was pending before it. -/
structure LastLine (imageDirectory : Text) (lines : List Text) (events : List Event)
    (course : Course) (read : List Text) (line : Text) : Prop where
  lines_eq : lines = read ++ line :: course.unread
  number_eq : course.state.lineNumber = read.length + 1
  reached : ∃ pending count count' before later, pending.Settled ∧
    Turns imageDirectory ⟨{}, lines⟩ count before ⟨⟨read.length, pending⟩, line :: course.unread⟩ ∧
    Turns imageDirectory ⟨⟨read.length, pending⟩, line :: course.unread⟩ count' later course ∧
    events = before ++ later
  opensOn : course.state.pending.OpensOn line

theorem LastLine.token {imageDirectory buffer line : Text} {lines unread read : List Text}
    {events : List Event} {number : Nat} {m : Match}
    (h : LastLine imageDirectory lines events ⟨⟨number, .text buffer⟩, unread⟩ read line)
    (found : find? buffer = some m) :
    LastLine imageDirectory lines
      (events ++ .token m :: (handle imageDirectory number m).1)
      ⟨⟨number, (handle imageDirectory number m).2⟩, unread⟩ read line := by
  obtain ⟨pending, count, count', before, later, hsettled, hbefore, hlater, hevents⟩ := h.reached
  refine ⟨h.lines_eq, h.number_eq, ?_, handle_opensOn found h.opensOn⟩
  refine ⟨pending, count, count' + 1, before, _, hsettled, hbefore, hlater.more (.token found), ?_⟩
  rw [hevents, List.append_assoc]

theorem lastLine_read {imageDirectory line : Text} {lines unread read : List Text}
    {count number : Nat} {events later : List Event} {pending next : Pending}
    (turns : Turns imageDirectory ⟨{}, lines⟩ count events ⟨⟨number, pending⟩, line :: unread⟩)
    (turn : Turn imageDirectory ⟨⟨number, pending⟩, line :: unread⟩ later
      ⟨⟨number + 1, next⟩, unread⟩)
    (hlines : lines = read ++ line :: unread) (hnumber : number = read.length)
    (hsettled : pending.Settled) (hopens : next.OpensOn line) :
    LastLine imageDirectory lines (events ++ later) ⟨⟨number + 1, next⟩, unread⟩ read line := by
  subst hnumber
  exact ⟨hlines, rfl, ⟨pending, count, 1, events, later, hsettled, turns, turn.turns, rfl⟩, hopens⟩

/-- At every point an opener that is pending stands on the line that was read last. -/
theorem Turns.lastLine {imageDirectory : Text} {lines : List Text} {count : Nat}
    {events : List Event} {course : Course}
    (h : Turns imageDirectory ⟨{}, lines⟩ count events course) :
    course = ⟨{}, lines⟩ ∨ ∃ read line, LastLine imageDirectory lines events course read line := by
  induction h with
  | none => exact .inl rfl
  | more turns turn ih =>
      right
      cases turn with
      | token found =>
          obtain h | ⟨read, line, h⟩ := ih
          · cases h
          · exact ⟨read, line, h.token found⟩
      | start =>
          obtain h | ⟨read, line, h⟩ := ih
          · cases h
            exact ⟨[], _, lastLine_read turns .start rfl rfl trivial fun s hs _ => hs⟩
          · exact h.opensOn.elim
      | join empty =>
          obtain h | ⟨read, line, h⟩ := ih
          · cases h
          · refine ⟨read ++ [line], _, lastLine_read turns (.join empty) ?_ ?_ empty
              (join_opensOn empty)⟩
            · exact h.lines_eq.trans (by simp)
            · exact h.number_eq.trans (by simp)
      | extend =>
          obtain h | ⟨read, line, h⟩ := ih
          · cases h
          · refine ⟨read ++ [line], _, lastLine_read turns .extend ?_ ?_
              (cutTable?_eq_none_iff.2 h.opensOn) (extend_opensOn h.opensOn)⟩
            · exact h.lines_eq.trans (by simp)
            · exact h.number_eq.trans (by simp)

end Conversion

end WikiDocs

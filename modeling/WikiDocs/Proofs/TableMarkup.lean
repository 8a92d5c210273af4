import WikiDocs.Proofs.Joining

/-!
Tables written as markup. The table that a markup text stands for is the one
that was written: the frame of the markup makes empty cells only, which are
dropped, and every other line is read back as the cell that it was written for.
-/

namespace WikiDocs.Table

open Text

/-- A cell that can be told from its markup. Only the text of a plain cell could be mistaken for a
request for a span, and only that of a merged cell for a part of its fence. -/
structure Cell.Expressible (cell : Cell) : Prop where
  trimmed : Trimmed cell.text
  no_break : '\n' ∉ cell.text
  no_class : ¬ "class=".toList <:+: cell.text
  no_brace : cell.text.getLast? ≠ some '\x7d'
  no_backslash : cell.text.getLast? ≠ some '\\'
  plain : cell.span = 1 → cell.text ≠ [] ∧ ¬ "colspan=".toList <:+: cell.text
  merged : cell.span ≠ 1 →
    2 ≤ cell.span ∧ cell.span ≤ 64 ∧ cell.text.head? ≠ some '\\' ∧ cell.text.head? ≠ some '|'

/-- A table of expressible cells, without empty rows. -/
def Expressible (table : Table) : Prop :=
  ∀ row ∈ table.rows, row.cells ≠ [] ∧ ∀ cell ∈ row.cells, cell.Expressible

/-- The bar and the directive that ask for a span. -/
def spanMark (span : Nat) : Text :=
  ['|', ' ', 'c', 'o', 'l', 's', 'p', 'a', 'n', '=', '\''] ++ Nat.toDigits 10 span ++ ['\'']

/-- The markup of a cell: a plain one stands behind a bar or an exclamation mark. -/
inductive Cell.WrittenAs : Cell → Text → Prop where
  | plain {text : Text} {mark : Char} (either : mark = '|' ∨ mark = '!') :
      WrittenAs ⟨text, 1⟩ (mark :: ' ' :: text)
  | spanning {text : Text} {span : Nat} (merged : span ≠ 1) :
      WrittenAs ⟨text, span⟩ (spanMark span ++ [' ', '|', ' '] ++ text)

/-- The markup of a row: one line for each cell. -/
def Row.WrittenAs (row : Row) (lines : List Text) : Prop :=
  List.Forall₂ Cell.WrittenAs row.cells lines

/-- The markup of a table, as lines: rows between separators, inside the frame of the table. -/
def WrittenAs (table : Table) (lines : List Text) : Prop :=
  ∃ rows : List (List Text), List.Forall₂ Row.WrittenAs table.rows rows ∧
    lines = ['\x7b', '|'] :: [['|', '-']].intercalate rows ++ [['|', '\x7d']]

theorem unframe_eq {c : Char} {line : Text} (hframe : c ≠ '\x7b' ∧ c ≠ '\\' ∧ isBlank c = false)
    (hbrace : (c :: line).getLast? ≠ some '\x7d') (hback : (c :: line).getLast? ≠ some '\\') :
    unframe (c :: line) = trimEnd (c :: line) := by
  have hopen : dropAll '\x7b' (c :: line) = c :: line :=
    List.dropWhile_cons_of_neg (by simpa using hframe.1)
  have hclose : dropAllEnd '\x7d' (c :: line) = c :: line := by
    apply dropEndWhile_eq_self
    rintro d hd
    exact beq_eq_false_iff_ne.2 fun heq => hbrace (heq ▸ hd)
  have hstart : dropAll '\\' (c :: line) = c :: line :=
    List.dropWhile_cons_of_neg (by simpa using hframe.2.1)
  have hend : dropAllEnd '\\' (c :: line) = c :: line := by
    apply dropEndWhile_eq_self
    rintro d hd
    exact beq_eq_false_iff_ne.2 fun heq => hback (heq ▸ hd)
  have htrim : trimStart (c :: line) = c :: line := by
    apply trimStart_eq_self
    rintro d hd
    cases hd
    exact hframe.2.2
  rw [unframe, hopen, hclose, hstart, hend, trim, htrim]

theorem numeral_toDigits (n : Nat) : numeral (Nat.toDigits 10 n) = n := by
  have hstep : numeral (Nat.toDigits 10 n) = Nat.ofDigitChars 10 (Nat.toDigits 10 n) 0 := by
    simp only [numeral, Nat.ofDigitChars, Nat.mul_comm]
  rw [hstep, Nat.ofDigitChars_toDigits (by decide) (by decide)]

theorem isDigit_of_mem_toDigits {n : Nat} {c : Char} (h : c ∈ Nat.toDigits 10 n) :
    isDigit c = true := by
  have hdigit := Nat.isDigit_of_mem_toDigits (by decide) (by decide) h
  simp only [Char.isDigit, Bool.and_eq_true, decide_eq_true_eq] at hdigit
  simp only [isDigit, Bool.and_eq_true, decide_eq_true_eq]
  exact hdigit

theorem value?_cons {c : Char} (hc : c ≠ '=') (s : Text) : value? (c :: s) = value? s := by
  have hnone : valueAt? (c :: s) = none := by
    simp only [valueAt?]
    split
    · rename_i heq
      cases heq
      exact absurd rfl hc
    · rfl
  rw [value?.eq_def, hnone]

theorem value?_append {front : Text} (hfront : '=' ∉ front) (s : Text) :
    value? (front ++ s) = value? s := by
  induction front with
  | nil => rfl
  | cons c front ih =>
      rw [List.mem_cons, not_or] at hfront
      rw [List.cons_append, value?_cons (Ne.symm hfront.1), ih hfront.2]

/-- The value of the directive that asks for a span, with what stands behind its fence. -/
theorem value?_spanMark {span : Nat} {fence text : Text} (hne : fence ≠ [])
    (hfence : ∀ c ∈ fence, isFence c = true) (htext : ∀ c ∈ text.head?, isFence c = false) :
    value? (spanMark span ++ (fence ++ text)) = some (Nat.toDigits 10 span, text) := by
  have hnumeral : ∀ c ∈ Nat.toDigits 10 span, isDigit c = true :=
    fun _ => isDigit_of_mem_toDigits
  have hquote : ∀ c ∈ ('\'' :: (fence ++ text)).head?, isDigit c = false := by
    rintro c ⟨⟩
    rfl
  obtain ⟨hdigits, hafter⟩ := cut_run hnumeral hquote
  obtain ⟨hfences, hrest⟩ := cut_run hfence htext
  have hvalue : valueAt? ('=' :: '\'' :: (Nat.toDigits 10 span ++ '\'' :: (fence ++ text))) =
      some (Nat.toDigits 10 span, text) := by
    simp only [valueAt?, dropQuote, hdigits, hafter, hfences, hrest]
    rw [if_pos ⟨Nat.toDigits_ne_nil, hne⟩]
  have hsplit : spanMark span ++ (fence ++ text) =
      ['|', ' ', 'c', 'o', 'l', 's', 'p', 'a', 'n'] ++
        '=' :: '\'' :: (Nat.toDigits 10 span ++ '\'' :: (fence ++ text)) := by
    simp only [spanMark, List.append_assoc, List.cons_append, List.nil_append]
  have hfront : '=' ∉ ['|', ' ', 'c', 'o', 'l', 's', 'p', 'a', 'n'] := by decide
  rw [hsplit, value?_append hfront, value?.eq_def, hvalue]

/-- A word without blanks does not reach over the blank behind the mark of a plain cell. -/
theorem holds_plain {word text : Text} {mark : Char} (hword : ' ' ∉ word)
    (hmark : ¬ word <:+: [mark]) (htext : ¬ word <:+: text) :
    holds word (mark :: ' ' :: text) = false := by
  refine holds_eq_false fun hinfix => ?_
  obtain hinfix | hinfix := infix_or_infix (s := [mark]) hword hinfix
  · exact hmark hinfix
  · exact htext hinfix

theorem classify_plain {text : Text} {mark : Char} (either : mark = '|' ∨ mark = '!')
    (h : Cell.Expressible ⟨text, 1⟩) : classify (mark :: ' ' :: text) = .cell text := by
  obtain ⟨hne, hspan⟩ := h.plain rfl
  have hlast : (mark :: ' ' :: text).getLast? = text.getLast? := by
    cases text with
    | nil => exact absurd rfl hne
    | cons c text => rfl
  have hframe : mark ≠ '\x7b' ∧ mark ≠ '\\' ∧ isBlank mark = false := by
    obtain rfl | rfl := either <;> decide
  have hunframe : unframe (mark :: ' ' :: text) = mark :: ' ' :: text := by
    rw [unframe_eq hframe (hlast ▸ h.no_brace) (hlast ▸ h.no_backslash)]
    exact trimEnd_eq_self (hlast ▸ h.trimmed.last)
  have hclass : holds "class=".toList (mark :: ' ' :: text) = false := by
    refine holds_plain (by decide) ?_ h.no_class
    obtain rfl | rfl := either <;> decide
  have hcolspan : holds "colspan=".toList (mark :: ' ' :: text) = false := by
    refine holds_plain (by decide) ?_ hspan
    obtain rfl | rfl := either <;> decide
  have hseparator : isRowSeparator (mark :: ' ' :: text) = false := by
    obtain rfl | rfl := either <;> rfl
  have htrim : trim (' ' :: text) = text := h.trimmed
  simp only [classify, hunframe, hseparator, hclass, hcolspan, Bool.false_eq_true, if_false]
  obtain rfl | rfl := either <;> exact congrArg MarkupLine.cell htrim

theorem spanMark_append {span : Nat} (rest : Text) :
    spanMark span ++ rest =
      '|' :: ' ' :: 'c' :: 'o' :: 'l' :: 's' :: 'p' :: 'a' :: 'n' :: '=' :: '\'' ::
        (Nat.toDigits 10 span ++ '\'' :: rest) := by
  simp only [spanMark, List.append_assoc, List.cons_append, List.nil_append]

/-- Without its frame, the line of a merged cell has its text behind a fence. -/
theorem unframe_spanMark {text : Text} {span : Nat} (h : Cell.Expressible ⟨text, span⟩) :
    ∃ fence : Text, fence ≠ [] ∧ (∀ c ∈ fence, isFence c = true) ∧
      unframe (spanMark span ++ [' ', '|', ' '] ++ text) = spanMark span ++ (fence ++ text) := by
  have hframe : '|' ≠ '\x7b' ∧ '|' ≠ '\\' ∧ isBlank '|' = false := by decide
  by_cases hne : text = []
  · -- The blank at the end of the line goes with the frame.
    subst hne
    refine ⟨[' ', '|'], by decide, List.all_eq_true.1 rfl, ?_⟩
    have hlast : (spanMark span ++ [' ', '|', ' ']).getLast? = some ' ' := by
      rw [List.getLast?_append]
      rfl
    have htrim : trimEnd (spanMark span ++ [' ', '|', ' ']) = spanMark span ++ [' ', '|'] := by
      have hconcat : spanMark span ++ [' ', '|', ' '] = spanMark span ++ [' ', '|'] ++ [' '] := by
        rw [List.append_assoc]
        rfl
      rw [hconcat, trimEnd, dropEndWhile_concat rfl]
      apply dropEndWhile_eq_self
      rw [List.getLast?_append]
      rintro c ⟨⟩
      rfl
    rw [List.append_nil, List.append_nil]
    rw [spanMark_append] at hlast htrim ⊢
    rw [unframe_eq hframe (by simp [hlast]) (by simp [hlast]), htrim]
  · refine ⟨[' ', '|', ' '], by decide, List.all_eq_true.1 rfl, ?_⟩
    have hlast : (spanMark span ++ [' ', '|', ' '] ++ text).getLast? = text.getLast? := by
      obtain ⟨c, hc⟩ := Option.ne_none_iff_exists'.1 (mt List.getLast?_eq_none_iff.1 hne)
      rw [List.getLast?_append, hc]
      rfl
    have hbrace := h.no_brace
    have hback := h.no_backslash
    have htrim := trimEnd_eq_self (hlast ▸ h.trimmed.last)
    rw [← hlast, List.append_assoc, spanMark_append] at hbrace hback
    rw [List.append_assoc, spanMark_append] at htrim ⊢
    rw [unframe_eq hframe hbrace hback, htrim]

/-- Neither the directive of a merged cell nor its fence is a part of another directive. -/
theorem holds_spanMark {span : Nat} {fence text : Text} (hfence : ∀ c ∈ fence, isFence c = true)
    (htext : ¬ "class=".toList <:+: text) :
    holds "class=".toList (spanMark span ++ (fence ++ text)) = false := by
  refine holds_eq_false fun hinfix => ?_
  rw [spanMark_append] at hinfix
  obtain hlead | hinfix := infix_or_infix (c := '\'')
    (s := ['|', ' ', 'c', 'o', 'l', 's', 'p', 'a', 'n', '=']) (by decide) hinfix
  · exact absurd hlead (by decide)
  · obtain hdigits | hinfix := infix_or_infix (by decide) hinfix
    · have hc := isDigit_of_mem_toDigits (hdigits.subset (List.mem_cons_self ..))
      exact absurd hc (by decide)
    · refine htext (infix_of_append (fun c hc hmem => ?_) hinfix)
      have hclass : "class=".toList.any isFence = false := rfl
      exact absurd (hfence c hc) (List.any_eq_false.1 hclass c hmem)

theorem classify_spanning {text : Text} {span : Nat} (hmerged : span ≠ 1)
    (h : Cell.Expressible ⟨text, span⟩) :
    classify (spanMark span ++ [' ', '|', ' '] ++ text) = .spanningCell text span := by
  obtain ⟨hmin, hmax, hback, hbar⟩ := h.merged hmerged
  obtain ⟨fence, hne, hfence, hunframe⟩ := unframe_spanMark h
  have hhead : ∀ c ∈ text.head?, isFence c = false := by
    intro c hc
    simp only [isFence, Bool.or_eq_false_iff, beq_eq_false_iff_ne]
    refine ⟨⟨?_, ?_⟩, ?_⟩
    · rintro rfl
      exact absurd (h.trimmed.head _ hc) (by decide)
    · rintro rfl
      exact hback hc
    · rintro rfl
      exact hbar hc
  have hspanned : spanned? (spanMark span ++ (fence ++ text)) = some (span, text) := by
    have htrim : trim text = text := h.trimmed
    rw [spanned?, value?_spanMark hne hfence hhead]
    simp only [numeral_toDigits, htrim]
    rw [if_pos ⟨Nat.le_of_succ_le hmin, hmax⟩]
  have hclass : holds "class=".toList (spanMark span ++ (fence ++ text)) = false :=
    holds_spanMark hfence h.no_class
  have hcolspan : holds "colspan=".toList (spanMark span ++ (fence ++ text)) = true := by
    rw [spanMark_append]
    exact holds_iff.2 ⟨['|', ' '], _, rfl⟩
  have hseparator : isRowSeparator (spanMark span ++ (fence ++ text)) = false := by
    rw [spanMark_append]
    rfl
  simp only [classify, hunframe, hseparator, hclass, hcolspan, hspanned, Bool.false_eq_true,
    if_false, if_true]

/-- The lines of a table are those of its frame, and between them separators and lines of cells. -/
theorem WrittenAs.exists_inner {table : Table} {lines : List Text} (h : table.WrittenAs lines) :
    ∃ inner, lines = (['\x7b', '|'] :: inner) ++ [['|', '\x7d']] ∧
      ∀ line ∈ inner, line = ['|', '-'] ∨
        ∃ row ∈ table.rows, ∃ cell ∈ row.cells, cell.WrittenAs line := by
  obtain ⟨rows, hrows, rfl⟩ := h
  refine ⟨_, rfl, fun line hline => ?_⟩
  refine (mem_of_mem_intercalate hline).imp List.mem_singleton.1 ?_
  rintro ⟨written, hwritten, hline⟩
  obtain ⟨row, hrow, hcells⟩ := exists_of_forall₂_of_mem hrows hwritten
  obtain ⟨cell, hcell, hw⟩ := exists_of_forall₂_of_mem hcells hline
  exact ⟨row, hrow, cell, hcell, hw⟩

theorem WrittenAs.forall_mem {table : Table} {lines : List Text} (h : table.WrittenAs lines)
    {P : Text → Prop} (frame : P ['\x7b', '|'] ∧ P ['|', '-'] ∧ P ['|', '\x7d'])
    (cells : ∀ row ∈ table.rows, ∀ cell ∈ row.cells, ∀ line, cell.WrittenAs line → P line) :
    ∀ line ∈ lines, P line := by
  obtain ⟨inner, rfl, hinner⟩ := h.exists_inner
  intro line hline
  rw [List.cons_append, List.mem_cons, List.mem_append, List.mem_singleton] at hline
  obtain rfl | hline | rfl := hline
  · exact frame.1
  · obtain rfl | ⟨row, hrow, cell, hcell, hw⟩ := hinner line hline
    · exact frame.2.1
    · exact cells row hrow cell hcell line hw
  · exact frame.2.2

section Rows

variable {row : Row} {rows : List Row} {written : List (List Text)}

theorem rowsFrom_cell {cell : Cell} {line : Text} (h : cell.Expressible)
    (hw : cell.WrittenAs line) (front : List Cell) (more : List MarkupLine) :
    rowsFrom front (classify line :: more) = rowsFrom (front ++ [cell]) more := by
  cases hw with
  | plain either =>
      rw [classify_plain either h]
      rfl
  | @spanning text span merged =>
      have hspan : Cell.spanning text span = ⟨text, span⟩ :=
        congrArg (Cell.mk text) (Nat.max_eq_left (Nat.le_of_succ_le (h.merged merged).1))
      rw [classify_spanning merged h, rowsFrom, hspan]

/-- The lines of a row add its cells to what stands before them. -/
theorem rowsFrom_cells {cells : List Cell} {lines : List Text}
    (hw : List.Forall₂ Cell.WrittenAs cells lines) (h : ∀ cell ∈ cells, cell.Expressible)
    (front : List Cell) (more : List MarkupLine) :
    rowsFrom front (lines.map classify ++ more) = rowsFrom (front ++ cells) more := by
  induction hw generalizing front with
  | nil => rw [List.append_nil]; rfl
  | cons hline _ ih =>
      rw [List.forall_mem_cons] at h
      rw [List.map_cons, List.cons_append, rowsFrom_cell h.1 hline, ih h.2, List.append_assoc,
        List.singleton_append]

theorem Cell.Expressible.isEmpty_eq {cell : Cell} (h : cell.Expressible) :
    cell.isEmpty = false := by
  by_cases hspan : cell.span = 1
  · have hne := (h.plain hspan).1
    simp [isEmpty, isMerged, hspan, hne]
  · have hmin := (h.merged hspan).1
    simp [isEmpty, isMerged, Nat.lt_of_succ_le hmin]

theorem filter_of_expressible {cells : List Cell} (h : ∀ cell ∈ cells, cell.Expressible) :
    cells.filter (!·.isEmpty) = cells := by
  refine List.filter_eq_self.2 fun cell hcell => ?_
  rw [(h cell hcell).isEmpty_eq]
  rfl

theorem prune_cons (hne : row.cells ≠ []) {cells : List Cell}
    (hkept : cells.filter (!·.isEmpty) = row.cells) :
    prune { rows := ⟨cells⟩ :: rows } = { rows := row :: (prune { rows }).rows } := by
  simp [prune, hkept, hne]

/-- Rows are read back as they were written, whatever empty cells stand before the first and behind
the last of them. -/
theorem prune_rowsFrom (hw : List.Forall₂ Row.WrittenAs (row :: rows) written)
    (h : ∀ r ∈ row :: rows, r.cells ≠ [] ∧ ∀ cell ∈ r.cells, cell.Expressible)
    {front : List Cell} (hfront : front.filter (!·.isEmpty) = []) :
    prune ⟨rowsFrom front
      (([['|', '-']].intercalate written).map classify ++ [.cell []])⟩ = ⟨row :: rows⟩ := by
  induction rows generalizing row written front with
  | nil =>
      cases hw with
      | cons hrow hrest =>
          cases hrest
          obtain ⟨hne, hcells⟩ := h row List.mem_cons_self
          have hkept : (front ++ row.cells ++ [Cell.plain []]).filter (!·.isEmpty) = row.cells := by
            rw [List.filter_append, List.filter_append, hfront, filter_of_expressible hcells]
            exact List.append_nil _
          rw [List.intercalate_singleton, rowsFrom_cells hrow hcells]
          exact prune_cons hne hkept
  | cons next rows ih =>
      cases hw with
      | @cons _ lines _ written hrow hrest =>
          obtain ⟨hne, hcells⟩ := h row List.mem_cons_self
          have hkept : (front ++ row.cells).filter (!·.isEmpty) = row.cells := by
            rw [List.filter_append, hfront, filter_of_expressible hcells, List.nil_append]
          have hfull : (front ++ row.cells).isEmpty = false := by simp [hne]
          have hlater : prune ⟨rowsFrom [] (([['|', '-']].intercalate written).map classify ++
              [.cell []])⟩ = ⟨next :: rows⟩ :=
            ih hrest (fun r hr => h r (List.mem_cons_of_mem _ hr)) rfl
          cases hrest with
          | @cons _ next _ written hnext hrest =>
              have hsplit : ([['|', '-']].intercalate (lines :: next :: written)).map classify =
                  lines.map classify ++ .rowSeparator ::
                    ([['|', '-']].intercalate (next :: written)).map classify := by
                rw [List.intercalate_cons_cons, List.append_assoc, List.map_append]
                rfl
              rw [hsplit, List.append_assoc, rowsFrom_cells hrow hcells, List.cons_append,
                rowsFrom, hfull, if_neg Bool.false_ne_true, prune_cons hne hkept, hlater]

end Rows

variable {table : Table} {lines : List Text}

/-- The frame of a table is read as two empty cells, which are dropped. -/
theorem prune_rowsFrom_frame (h : table.Expressible) (hw : table.WrittenAs lines) :
    prune ⟨rowsFrom [] (lines.map classify)⟩ = table := by
  obtain ⟨written, hrows, rfl⟩ := hw
  obtain ⟨rows⟩ := table
  have hframe : (['\x7b', '|'] :: [['|', '-']].intercalate written ++ [['|', '\x7d']]).map classify =
      .cell [] :: (([['|', '-']].intercalate written).map classify ++ [.cell []]) := by
    rw [List.cons_append, List.map_cons, List.map_append]
    rfl
  rw [hframe, rowsFrom, List.nil_append]
  cases rows with
  | nil =>
      cases hrows
      rfl
  | cons row rows => exact prune_rowsFrom hrows h rfl

/-- The line of a cell has its text behind a blank, and plain characters before that. -/
theorem Cell.WrittenAs.line_eq {cell : Cell} {line : Text} (hw : cell.WrittenAs line) :
    ∃ lead : Text, line = lead ++ ' ' :: cell.text ∧
      ∀ c ∈ lead, ' ' ≤ c ∧ c ≤ '|' ∧ c ≠ '\\' := by
  cases hw with
  | @plain text mark either =>
      refine ⟨[mark], rfl, ?_⟩
      rw [List.forall_mem_singleton]
      obtain rfl | rfl := either <;> decide
  | @spanning text span merged =>
      refine ⟨spanMark span ++ [' ', '|'], by simp, ?_⟩
      intro c hc
      simp only [spanMark, List.mem_append] at hc
      obtain ((hc | hc) | hc) | hc := hc
      · revert c
        simp
      · have hdigit := isDigit_of_mem_toDigits hc
        simp only [isDigit, Bool.and_eq_true, decide_eq_true_eq] at hdigit
        refine ⟨Char.le_trans (by decide) hdigit.1, Char.le_trans hdigit.2 (by decide), ?_⟩
        rintro rfl
        exact absurd hdigit.2 (by decide)
      · revert c
        simp
      · revert c
        simp

/-- A line that is read as it was written when lines are joined. -/
def Joinable (line : Text) : Prop := '\n' ∉ line ∧ line.getLast? ≠ some '\r' ∧ line ≠ []

theorem Cell.WrittenAs.joinable {cell : Cell} {line : Text} (hw : cell.WrittenAs line)
    (h : cell.Expressible) : Joinable line := by
  obtain ⟨lead, rfl, hlead⟩ := hw.line_eq
  refine ⟨?_, ?_, by simp⟩
  · intro hbreak
    rw [List.mem_append, List.mem_cons] at hbreak
    obtain hbreak | hbreak | hbreak := hbreak
    · exact absurd (hlead _ hbreak).1 (by decide)
    · cases hbreak
    · exact h.no_break hbreak
  · intro hreturn
    obtain hblank | hlast := mem_getLast?_append_cons hreturn
    · cases hblank
    · exact absurd (h.trimmed.last _ hlast) (by decide)

theorem WrittenAs.joinable (hw : table.WrittenAs lines) (h : table.Expressible) :
    ∀ line ∈ lines, Joinable line := by
  refine hw.forall_mem ⟨?_, ?_, ?_⟩ fun row hrow cell hcell line hline =>
    hline.joinable ((h row hrow).2 cell hcell)
  all_goals exact ⟨by decide, by decide, by decide⟩

/-- What is written as a table is read as that table. -/
theorem ofMarkup_intercalate (h : table.Expressible) (hw : table.WrittenAs lines) :
    ofMarkup (['\n'].intercalate lines) = table := by
  have hlines := hw.joinable h
  have hne : lines ≠ [] := by
    obtain ⟨written, -, rfl⟩ := hw
    simp
  have hread : Text.lines (['\n'].intercalate lines) = lines :=
    lines_intercalate hne (fun line hl => (hlines line hl).1) (fun line hl => (hlines line hl).2.1)
      fun line hl => (hlines line (List.mem_of_getLast? hl)).2.2
  rw [ofMarkup, hread]
  exact prune_rowsFrom_frame h hw

end WikiDocs.Table

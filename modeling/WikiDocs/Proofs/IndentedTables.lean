import WikiDocs.Proofs.Indentation
import WikiDocs.Proofs.LastLine
import WikiDocs.Proofs.SpanRequests

/-!
Tables on an indented line. The indentation stands in front of every line of
the markup but the first, and it hides the front of the frame: braces and
backslashes behind blanks are kept. So a line that begins with one of them
neither ends a row nor holds a plain cell; every other line says the same.
-/

namespace WikiDocs.Table

open Text Token Line MarkupLine

/-- The markup of the table that a line holds, if a table is the first token in its normal form. -/
def tableMarkup? (expand : Bool) (line : Text) : Option Text :=
  match find? (normalize expand line) with
  | some m => if m.token = .tableStart then (cutTable? (m.taken ++ m.after)).map Prod.fst else none
  | none => none

theorem tableStart?_append {taken : Text}
    (htaken : taken = ['\x7b', '|'] ∨ taken = ['\x7b', '\\', '|']) (after : Text) :
    tableStart? (taken ++ after) = some ⟨.tableStart, taken, after⟩ := by
  obtain rfl | rfl := htaken <;> rfl

/-- The markup of a table on an indented line is that of the line without its indentation, with the
indentation behind each line break. -/
theorem exists_tableMarkup {text : Text} {l : Lexeme} (hbreak : '\n' ∉ text)
    (hopen : tableStart? text = some l) (hend : tableEnd <:+: text) (expand : Bool) :
    ∃ source, tableEnd <:+ source ∧
      ∀ n, tableMarkup? expand (indent n text) = some (reindent n source) := by
  obtain ⟨after, hafter⟩ := exists_normalize_eq hopen expand
  obtain ⟨-, -, htaken⟩ := exists_of_tableStart? hopen
  obtain ⟨⟨source, rest⟩, hcut⟩ : ∃ cut, cutTable? (l.taken ++ after) = some cut := by
    refine Option.ne_none_iff_exists'.1 fun hnone => cutTable?_eq_none_iff.1 hnone ?_
    rw [← hafter]
    exact tableEnd_infix_normalize hend expand
  refine ⟨source, mark_suffix_of_cutAfter hcut, fun n => ?_⟩
  have hhead : ∀ c ∈ text.head?, isBlank c = false := by
    obtain ⟨rest, rfl⟩ := exists_brace hopen
    rintro c ⟨⟩
    rfl
  have hsame : reindent n (l.taken ++ after) = l.taken ++ reindent n after := by
    have hno : '\n' ∉ l.taken := by
      obtain htaken | htaken := htaken <;> rw [htaken] <;> decide
    rw [reindent_append, reindent_of_not_mem hno]
  have hfind := find?_indent (tableStart?_append htaken (reindent n after)) n
  have hcutn : cutTable? (l.taken ++ reindent n after) =
      some (reindent n source, reindent n rest) := by
    rw [← hsame, cutTable?, tableEnd, cutAfter_reindent (by decide) (by decide), ← tableEnd,
      ← cutTable?, hcut]
    rfl
  rw [tableMarkup?, normalize_indent hbreak hhead, hafter, hsame, hfind]
  simp only [if_true, hcutn, Option.map_some]

/-- A line without the frame at its end. -/
def unframeEnd (line : Text) : Text := trimEnd (dropAllEnd '\\' (dropAllEnd '\x7d' line))

theorem unframe_eq_trimStart (line : Text) :
    unframe line = trimStart (dropAll '\\' (dropAll '\x7b' (unframeEnd line))) := by
  simp only [unframe, unframeEnd, trim, trimStart, trimEnd, dropAll, dropAllEnd,
    dropEndWhile_dropWhile]

/-- Whether the frame of a line begins with a brace or a backslash. -/
def Framed (line : Text) : Prop := line.head? = some '\x7b' ∨ line.head? = some '\\'

instance (line : Text) : Decidable (Framed line) := inferInstanceAs (Decidable (_ ∨ _))

theorem dropAll_indent {n : Nat} (hn : 0 < n) {c : Char} (hc : c ≠ ' ') (line : Text) :
    dropAll c (indent n line) = indent n line := by
  obtain ⟨n, rfl⟩ := Nat.exists_eq_succ_of_ne_zero hn.ne'
  exact List.dropWhile_cons_of_neg (by simpa using Ne.symm hc)

theorem dropAllEnd_indent {c : Char} (hc : c ≠ ' ') (n : Nat) (line : Text) :
    dropAllEnd c (indent n line) = indent n (dropAllEnd c line) :=
  dropEndWhile_append (fun d hd => by simpa [List.eq_of_mem_replicate hd] using Ne.symm hc) line

theorem trimStart_indent (n : Nat) (line : Text) : trimStart (indent n line) = trimStart line :=
  List.dropWhile_append_of_pos fun _ hc => List.eq_of_mem_replicate hc ▸ rfl

/-- Behind spaces only the end of a frame is taken away. -/
theorem unframe_indent {n : Nat} (hn : 0 < n) (line : Text) :
    unframe (indent n line) = trimStart (unframeEnd line) := by
  rw [unframe, dropAll_indent hn (by decide), dropAllEnd_indent (by decide),
    dropAll_indent hn (by decide), dropAllEnd_indent (by decide), trim, trimStart_indent]
  exact dropEndWhile_dropWhile isBlank isBlank _

theorem head?_unframeEnd {line : Text} {c : Char} (h : c ∈ (unframeEnd line).head?) :
    line.head? = some c := by
  have hbraces : dropAllEnd '\x7d' line <+: line := dropEndWhile_prefix _ _
  have hslashes : dropAllEnd '\\' (dropAllEnd '\x7d' line) <+: dropAllEnd '\x7d' line :=
    dropEndWhile_prefix _ _
  have hblanks : unframeEnd line <+: dropAllEnd '\\' (dropAllEnd '\x7d' line) :=
    dropEndWhile_prefix _ _
  obtain ⟨rest, hrest⟩ := hblanks.trans (hslashes.trans hbraces)
  rw [← hrest, List.head?_append, h]
  rfl

theorem unframe_of_not_framed {line : Text} (h : ¬ Framed line) :
    unframe line = trimStart (unframeEnd line) := by
  have hdrop : ∀ c, line.head? ≠ some c → dropAll c (unframeEnd line) = unframeEnd line := by
    intro c hc
    cases hend : unframeEnd line with
    | nil => rfl
    | cons d rest =>
        have hd : line.head? = some d := head?_unframeEnd (by rw [hend]; rfl)
        exact List.dropWhile_cons_of_neg fun heq => hc (hd.trans (congrArg some (beq_iff_eq.1 heq)))
  rw [unframe_eq_trimStart, hdrop _ fun hc => h (.inl hc), hdrop _ fun hc => h (.inr hc)]

theorem exists_dropWhile_front (p : Char → Bool) (s : Text) :
    ∃ front, s = front ++ s.dropWhile p ∧ ∀ c ∈ front, p c = true :=
  ⟨s.takeWhile p, List.takeWhile_append_dropWhile.symm, List.all_eq_true.1 List.all_takeWhile⟩

/-- The characters of which the front of a frame is made. -/
def inFrame (c : Char) : Bool := c == '\x7b' || c == '\\' || isBlank c

/-- Behind spaces the front of a frame stays on its line. -/
theorem exists_front {line : Text} (h : Framed line) :
    ∃ front, trimStart (unframeEnd line) = front ++ unframe line ∧ (∀ c ∈ front, inFrame c = true) ∧
      (trimStart (unframeEnd line) = [] ∨ Framed (trimStart (unframeEnd line))) := by
  rw [unframe_eq_trimStart]
  have hhead : ∀ c ∈ (unframeEnd line).head?, c = '\x7b' ∨ c = '\\' := by
    intro c hc
    have hline := head?_unframeEnd hc
    rw [Framed, hline] at h
    exact h.imp Option.some.inj Option.some.inj
  have hkeep : trimStart (unframeEnd line) = unframeEnd line := by
    refine trimStart_eq_self fun c hc => ?_
    obtain rfl | rfl := hhead c hc <;> rfl
  rw [hkeep]
  generalize unframeEnd line = kept at hhead
  obtain ⟨braces, hbraces, hbrace⟩ := exists_dropWhile_front (· == '\x7b') kept
  obtain ⟨slashes, hslashes, hslash⟩ :=
    exists_dropWhile_front (· == '\\') (dropAll '\x7b' kept)
  obtain ⟨blanks, hblanks, hblank⟩ :=
    exists_dropWhile_front isBlank (dropAll '\\' (dropAll '\x7b' kept))
  have hbraced : braces ++ dropAll '\x7b' kept = kept := hbraces.symm
  have hslashed : slashes ++ dropAll '\\' (dropAll '\x7b' kept) = dropAll '\x7b' kept :=
    hslashes.symm
  have htrimmed : blanks ++ trimStart (dropAll '\\' (dropAll '\x7b' kept)) =
      dropAll '\\' (dropAll '\x7b' kept) := hblanks.symm
  refine ⟨braces ++ (slashes ++ blanks), ?_, ?_, ?_⟩
  · rw [List.append_assoc, List.append_assoc, htrimmed, hslashed, hbraced]
  · simp only [List.forall_mem_append, inFrame, Bool.or_eq_true]
    exact ⟨fun c hc => .inl (.inl (hbrace c hc)), fun c hc => .inl (.inr (hslash c hc)),
      fun c hc => .inr (hblank c hc)⟩
  · cases kept with
    | nil => exact .inl rfl
    | cons c kept => exact .inr ((hhead c rfl).imp (congrArg some) (congrArg some))

/-- What a line without its frame says by its attributes alone. -/
def saidByAttributes (line : Text) : MarkupLine :=
  if holds "class=".toList line then .directive
  else if holds "colspan=".toList line then
    match spanned? line with
    | some (span, text) => .spanningCell text span
    | none => .ignored
  else .ignored

/-- A line says what it begins with where its attributes say nothing. -/
theorem classify_eq (markup : Text) :
    classify markup =
      if isRowSeparator (unframe markup) then .rowSeparator
      else if saidByAttributes (unframe markup) = .ignored then plainCell (unframe markup)
      else saidByAttributes (unframe markup) := by
  rw [classify, saidByAttributes]
  generalize unframe markup = line
  cases isRowSeparator line with
  | true => rfl
  | false =>
      cases holds "class=".toList line with
      | true => rfl
      | false =>
          cases holds "colspan=".toList line with
          | false => rfl
          | true => cases spanned? line <;> rfl

theorem holds_front {word front : Text} (h : ∀ c ∈ front, c ∉ word) (line : Text) :
    holds word (front ++ line) = holds word line := by
  rw [Bool.eq_iff_iff, holds_iff, holds_iff]
  exact ⟨infix_of_append h, fun hinfix => hinfix.trans (List.suffix_append front line).isInfix⟩

/-- The front of a frame is no attribute. -/
theorem saidByAttributes_front {front : Text} (h : ∀ c ∈ front, inFrame c = true) (line : Text) :
    saidByAttributes (front ++ line) = saidByAttributes line := by
  have hword : ∀ word : Text, word.any inFrame = false → ∀ c ∈ front, c ∉ word :=
    fun word hword c hc hmem => List.any_eq_false.1 hword c hmem (h c hc)
  have hsign : '=' ∉ front := fun hmem => absurd (h _ hmem) (by decide)
  have hvalue : spanned? (front ++ line) = spanned? line := by
    rw [spanned?, spanned?, value?_append hsign]
  rw [saidByAttributes, saidByAttributes, hvalue, holds_front (hword "class=".toList rfl),
    holds_front (hword "colspan=".toList rfl)]

/-- A line that begins with its frame, or is empty, begins with no mark. -/
theorem unmarked_of_framed {line : Text} (h : line = [] ∨ Framed line) :
    isRowSeparator line = false ∧ plainCell line = .ignored := by
  cases line with
  | nil => exact ⟨rfl, rfl⟩
  | cons c line =>
      obtain h | h | h := h
      · cases h
      · cases h
        exact ⟨rfl, rfl⟩
      · cases h
        exact ⟨rfl, rfl⟩

/-- Where the frame of a line begins behind spaces, only the attributes of the line are read. -/
theorem classify_indent {n : Nat} (hn : 0 < n) (line : Text) :
    classify (indent n line) =
      if Framed line then saidByAttributes (unframe line) else classify line := by
  split
  · rename_i hframed
    obtain ⟨front, hfront, hchars, hhead⟩ := exists_front hframed
    rw [hfront] at hhead
    obtain ⟨hseparator, hplain⟩ := unmarked_of_framed hhead
    rw [classify_eq, unframe_indent hn, hfront, hseparator, hplain, saidByAttributes_front hchars,
      if_neg Bool.false_ne_true]
    split
    · rename_i hnothing
      exact hnothing.symm
    · rfl
  · rename_i hframed
    rw [classify, classify, unframe_indent hn, unframe_of_not_framed hframed]

/-- Whether a line is known by the mark that it begins with, not by its attributes. -/
def MarkupLine.isMarked : MarkupLine → Bool
  | .rowSeparator | .cell _ => true
  | .directive | .spanningCell _ _ | .ignored => false

/-- Whether the mark of a line stands inside a frame that begins in front of it. -/
def Hidden (line : Text) : Prop := Framed line ∧ (classify line).isMarked = true

theorem isMarked_saidByAttributes (line : Text) : (saidByAttributes line).isMarked = false := by
  rw [saidByAttributes]
  split
  · rfl
  · split
    · split <;> rfl
    · rfl

theorem saidByAttributes_eq_iff (markup : Text) :
    saidByAttributes (unframe markup) = classify markup ↔ (classify markup).isMarked = false := by
  constructor
  · intro h
    rw [← h, isMarked_saidByAttributes]
  · intro h
    rw [classify_eq] at h ⊢
    split at h
    · cases h
    rename_i hseparator
    rw [if_neg hseparator]
    split at h
    · rename_i hnothing
      rw [if_pos hnothing, hnothing]
      obtain hplain | ⟨text, hplain⟩ := plainCell_eq (unframe markup)
      · exact hplain.symm
      · rw [hplain] at h
        cases h
    · rename_i hsome
      rw [if_neg hsome]

/-- A line says the same on an indented line exactly if it is not hidden. -/
theorem classify_indent_eq_iff (n : Nat) (line : Text) :
    classify (indent n line) = classify line ↔ n = 0 ∨ ¬ Hidden line := by
  obtain rfl | hn := Nat.eq_zero_or_pos n
  · exact iff_of_true rfl (.inl rfl)
  rw [classify_indent hn, or_iff_right hn.ne', Hidden]
  split
  · rename_i hframed
    rw [saidByAttributes_eq_iff, not_and, imp_iff_right hframed, Bool.not_eq_true]
  · rename_i hframed
    exact iff_of_true rfl fun h => hframed h.1

/-- A hidden cell is lost. -/
theorem classify_indent_of_hidden {n : Nat} (hn : 0 < n) {line text : Text} (hframed : Framed line)
    (hcell : classify line = .cell text) : classify (indent n line) = .ignored := by
  rw [classify_indent hn, if_pos hframed]
  have hsaid := isMarked_saidByAttributes (unframe line)
  rw [classify_eq] at hcell
  split at hcell
  · cases hcell
  split at hcell
  · rename_i hnothing
    exact hnothing
  · rw [hcell] at hsaid
    cases hsaid

/-- Lines that are the same to the rows of a table. -/
def SameCells (line other : MarkupLine) : Prop :=
  line.endsRow = other.endsRow ∧ cellsOf [line] = cellsOf [other]

theorem SameCells.refl (line : MarkupLine) : SameCells line line := ⟨rfl, rfl⟩

theorem cellsOf_cons_eq (line : MarkupLine) (group : List MarkupLine) :
    cellsOf (line :: group) = cellsOf [line] ++ cellsOf group := by
  have hnil : cellsOf [] = [] := rfl
  rw [cellsOf_cons, cellsOf_cons, hnil, List.append_nil]

theorem map_cellsOf_splitOnP {lines others : List MarkupLine}
    (h : List.Forall₂ SameCells lines others) :
    (lines.splitOnP endsRow).map cellsOf = (others.splitOnP endsRow).map cellsOf := by
  induction h with
  | nil => rfl
  | @cons line other lines others hsame _ ih =>
      rw [List.splitOnP_cons_eq_if_modifyHead, List.splitOnP_cons_eq_if_modifyHead, hsame.1]
      split
      · rw [List.map_cons, List.map_cons, ih]
      · obtain ⟨group, groups, hgroups⟩ :=
          List.exists_cons_of_ne_nil (List.splitOnP_ne_nil endsRow lines)
        obtain ⟨group', groups', hgroups'⟩ :=
          List.exists_cons_of_ne_nil (List.splitOnP_ne_nil endsRow others)
        rw [hgroups, hgroups'] at ih ⊢
        obtain ⟨hgroup, hmore⟩ := List.cons.inj ih
        simp only [List.modifyHead_cons, List.map_cons, cellsOf_cons_eq line group,
          cellsOf_cons_eq other group', hsame.2, hgroup, hmore]

theorem rowsOf_congr {lines others : List MarkupLine} (h : List.Forall₂ SameCells lines others) :
    rowsOf lines = rowsOf others := by
  rw [rowsOf, rowsOf, map_cellsOf_splitOnP h]

/-- The rows hold the cells of all lines, in their order. -/
theorem flatten_rowsOf (lines : List MarkupLine) : (rowsOf lines).flatten = cellsOf lines := by
  rw [rowsOf, List.flatten_filter_ne_nil]
  induction lines with
  | nil => rfl
  | cons line lines ih =>
      rw [List.splitOnP_cons_eq_if_modifyHead, cellsOf_cons_eq]
      split
      · rename_i hends
        have hnone : cellsOf [line] = [] := by
          rw [endsRow, decide_eq_true_iff] at hends
          rw [hends]
          rfl
        rw [List.map_cons, List.flatten_cons, ih, hnone]
        rfl
      · obtain ⟨group, groups, hgroups⟩ :=
          List.exists_cons_of_ne_nil (List.splitOnP_ne_nil endsRow lines)
        rw [hgroups] at ih ⊢
        rw [List.modifyHead_cons, List.map_cons, List.flatten_cons, cellsOf_cons_eq,
          List.append_assoc, ← ih]
        rfl

/-- Tables are the same if their rows have the same cells. -/
theorem ofMarkup_eq_iff {source other : Text} :
    ofMarkup source = ofMarkup other ↔
      rowsOf ((lines source).map classify) = rowsOf ((lines other).map classify) := by
  have hinjective : Function.Injective (List.map Row.mk) :=
    List.map_injective_iff.2 fun _ _ h => congrArg Row.cells h
  rw [← hinjective.eq_iff, ← rows_ofMarkup, ← rows_ofMarkup]
  exact ⟨congrArg rows, fun h => congrArg Table.mk h⟩

section Readings

variable {said read : Text → MarkupLine}

theorem cellsOf_map_sublist {lines : List Text}
    (h : ∀ line ∈ lines, cellsOf [read line] = [] ∨ cellsOf [read line] = cellsOf [said line]) :
    (cellsOf (lines.map read)).Sublist (cellsOf (lines.map said)) := by
  induction lines with
  | nil => exact List.Sublist.refl _
  | cons line lines ih =>
      obtain ⟨hline, hlines⟩ := List.forall_mem_cons.1 h
      rw [List.map_cons, List.map_cons, cellsOf_cons_eq, cellsOf_cons_eq (said line)]
      refine List.Sublist.append ?_ (ih hlines)
      obtain hnone | hsame := hline
      · rw [hnone]
        exact List.nil_sublist _
      · rw [hsame]

/-- If lines can only lose their cells, all cells are kept only where each line keeps its own. -/
theorem cellsOf_map_eq_iff {lines : List Text}
    (h : ∀ line ∈ lines, cellsOf [read line] = [] ∨ cellsOf [read line] = cellsOf [said line]) :
    cellsOf (lines.map read) = cellsOf (lines.map said) ↔
      ∀ line ∈ lines, cellsOf [read line] = cellsOf [said line] := by
  induction lines with
  | nil => exact iff_of_true rfl (List.forall_mem_nil _)
  | cons line lines ih =>
      obtain ⟨hline, hlines⟩ := List.forall_mem_cons.1 h
      rw [List.map_cons, List.map_cons, cellsOf_cons_eq, cellsOf_cons_eq (said line),
        List.forall_mem_cons, ← ih hlines]
      obtain hnone | hsame := hline
      · rw [hnone, List.nil_append]
        constructor
        · intro hall
          have hle := (cellsOf_map_sublist hlines).length_le
          have hlength := congrArg List.length hall
          rw [List.length_append] at hlength
          have hsaid : cellsOf [said line] = [] := List.length_eq_zero_iff.1 (by omega)
          rw [hsaid, List.nil_append] at hall
          exact ⟨hsaid.symm, hall⟩
        · rintro ⟨hsaid, hmore⟩
          rw [← hsaid, hmore, List.nil_append]
      · rw [hsame, List.append_right_inj]
        exact (and_iff_right rfl).symm

end Readings

theorem exists_cell_of_hidden {line : Text} (h : Hidden line)
    (hseparator : classify line ≠ .rowSeparator) : ∃ text, classify line = .cell text := by
  obtain ⟨-, hmarked⟩ := h
  cases hline : classify line with
  | cell text => exact ⟨text, rfl⟩
  | rowSeparator => exact absurd hline hseparator
  | directive | spanningCell _ _ | ignored =>
      rw [hline] at hmarked
      cases hmarked

/-- A line that ends no row loses its cell behind spaces, if it is hidden, and nothing else. -/
theorem sameCells_indent {n : Nat} (hn : 0 < n) {line : Text}
    (hseparator : Hidden line → classify line ≠ .rowSeparator) :
    (cellsOf [classify (indent n line)] = [] ∨
        cellsOf [classify (indent n line)] = cellsOf [classify line]) ∧
      (cellsOf [classify (indent n line)] = cellsOf [classify line] ↔
        (Hidden line → classify line = .cell [])) ∧
      (classify (indent n line)).endsRow = (classify line).endsRow := by
  by_cases hhidden : Hidden line
  · obtain ⟨text, htext⟩ := exists_cell_of_hidden hhidden (hseparator hhidden)
    rw [classify_indent_of_hidden hn hhidden.1 htext, htext]
    refine ⟨.inl rfl, ?_, rfl⟩
    cases text with
    | nil => exact iff_of_true rfl fun _ => rfl
    | cons c text =>
        refine iff_of_false (List.cons_ne_nil _ _).symm fun h => ?_
        cases h hhidden
  · rw [(classify_indent_eq_iff n line).2 (.inr hhidden)]
    exact ⟨.inr rfl, iff_of_true rfl fun h => absurd h hhidden, rfl⟩

/-- What is left of a table on a line with `n` spaces in front: `source` is the markup without the
spaces, with the lines `first` and `later`, and `indented` the markup with them. -/
structure IndentedTable (n : Nat) (source indented first : Text) (later : List Text) : Prop where
  lines_eq : lines source = first :: later
  lines_indented : lines indented = first :: later.map (indent n)
  rows_eq : (ofMarkup indented).rows =
    (rowsOf (classify first :: later.map fun line =>
      if 0 < n ∧ Framed line then saidByAttributes (unframe line) else classify line)).map Row.mk
  line_iff : ∀ line ∈ later, classify (indent n line) = classify line ↔ n = 0 ∨ ¬ Hidden line
  table_iff : (∀ line ∈ later, Hidden line → classify line ≠ .rowSeparator) →
    (ofMarkup indented = ofMarkup source ↔
      n = 0 ∨ ∀ line ∈ later, Hidden line → classify line = .cell [])

section Lines

variable {n : Nat} {source indented first : Text} {later : List Text}
  (hlines : lines source = first :: later)
  (hindented : lines indented = first :: later.map (indent n))
include hindented

theorem map_classify_indented :
    (lines indented).map classify =
      classify first :: later.map fun line => classify (indent n line) := by
  rw [hindented, List.map_cons, List.map_map, Function.comp_def]

theorem rows_indented :
    (ofMarkup indented).rows =
      (rowsOf (classify first :: later.map fun line =>
        if 0 < n ∧ Framed line then saidByAttributes (unframe line)
        else classify line)).map Row.mk := by
  have hread : (fun line => classify (indent n line)) = fun line =>
      if 0 < n ∧ Framed line then saidByAttributes (unframe line) else classify line := by
    funext line
    obtain rfl | hn := Nat.eq_zero_or_pos n
    · rw [indent_zero, if_neg fun h => absurd h.1 (Nat.lt_irrefl 0)]
    · simp only [classify_indent hn, hn, true_and]
  rw [rows_ofMarkup, map_classify_indented hindented, hread]

include hlines

/-- Where no row separator is hidden, a table stays the same if only empty cells are. -/
theorem ofMarkup_indented_iff (hn : 0 < n)
    (hseparators : ∀ line ∈ later, Hidden line → classify line ≠ .rowSeparator) :
    ofMarkup indented = ofMarkup source ↔
      ∀ line ∈ later, Hidden line → classify line = .cell [] := by
  have hline := fun line hline => sameCells_indent hn (hseparators line hline)
  rw [ofMarkup_eq_iff, map_classify_indented hindented, hlines, List.map_cons]
  constructor
  · intro hrows line hmem
    have hcells := congrArg List.flatten hrows
    rw [flatten_rowsOf, flatten_rowsOf, cellsOf_cons_eq, cellsOf_cons_eq _ (later.map classify),
      List.append_right_inj, cellsOf_map_eq_iff fun line hmem => (hline line hmem).1] at hcells
    obtain ⟨-, hkept, -⟩ := hline line hmem
    exact hkept.1 (hcells line hmem)
  · intro hempty
    refine rowsOf_congr (.cons (.refl _) ?_)
    rw [List.forall₂_map_left_iff, List.forall₂_map_right_iff, List.forall₂_same]
    intro line hmem
    obtain ⟨-, hkept, hends⟩ := hline line hmem
    exact ⟨hends, hkept.2 (hempty line hmem)⟩

theorem indentedTable_of_lines : IndentedTable n source indented first later := by
  refine ⟨hlines, hindented, rows_indented hindented,
    fun line _ => classify_indent_eq_iff n line, fun hseparators => ?_⟩
  obtain rfl | hn := Nat.eq_zero_or_pos n
  · refine iff_of_true (ofMarkup_eq_iff.2 ?_) (.inl rfl)
    simp only [map_classify_indented hindented, hlines, List.map_cons, indent_zero]
  · rw [or_iff_right hn.ne']
    exact ofMarkup_indented_iff hlines hindented hn hseparators

end Lines

/-- Spaces in front of a line change the table on it only where they hide a line of its markup.
Behind spaces the markup has the same lines, with the spaces in front of all but the first; a line
says the same unless a brace or a backslash begins it and a mark follows. -/
theorem indented_table {text : Text} (hbreak : '\n' ∉ text)
    (hopen : ['\x7b', '|'] <+: text ∨ ['\x7b', '\\', '|'] <+: text) (hend : tableEnd <:+: text)
    (expand : Bool) (n : Nat) :
    ∃ source indented first later, tableMarkup? expand text = some source ∧
      tableMarkup? expand (indent n text) = some indented ∧
      IndentedTable n source indented first later := by
  obtain ⟨l, hstart⟩ : ∃ l, tableStart? text = some l := by
    obtain ⟨after, rfl⟩ | ⟨after, rfl⟩ := hopen
    · exact ⟨_, tableStart?_append (.inl rfl) after⟩
    · exact ⟨_, tableStart?_append (.inr rfl) after⟩
  obtain ⟨source, ⟨front, rfl⟩, hmarkup⟩ := exists_tableMarkup hbreak hstart hend expand
  have hlast : (front ++ tableEnd).getLast? ≠ some '\n' := by
    rw [List.getLast?_append]
    rintro ⟨⟩
  obtain ⟨first, later, hlines, hindented⟩ := lines_reindent (by simp [tableEnd]) hlast n
  refine ⟨_, _, first, later, ?_, hmarkup n, indentedTable_of_lines hlines hindented⟩
  exact (hmarkup 0).trans (congrArg some (reindent_zero _))

theorem indented_table_kept :
    let text := "\x7b|\\n| a\\n|\x7d".toList
    ('\n' ∉ text ∧ ['\x7b', '|'] <+: text ∧ tableEnd <:+: text) ∧
      ∃ source indented, tableMarkup? true text = some source ∧
        tableMarkup? true (indent 2 text) = some indented ∧
        ofMarkup indented = ofMarkup source := by
  intro text
  have htext : '\n' ∉ text ∧ ['\x7b', '|'] <+: text ∧ tableEnd <:+: text := by decide
  obtain ⟨source, indented, first, later, hsource, hindented, htable⟩ :=
    indented_table htext.1 (.inl htext.2.1) htext.2.2 true 2
  refine ⟨htext, source, indented, hsource, hindented, ?_⟩
  have hmarkup : tableMarkup? true text = some "\x7b|\n| a\n|\x7d".toList := by rfl
  obtain rfl := Option.some.inj (hsource.symm.trans hmarkup)
  have hlines : lines "\x7b|\n| a\n|\x7d".toList =
      [['\x7b', '|'], ['|', ' ', 'a'], ['|', '\x7d']] := by decide
  obtain ⟨-, rfl⟩ := List.cons.inj (htable.lines_eq.symm.trans hlines)
  have hshown : ∀ line ∈ [['|', ' ', 'a'], ['|', '\x7d']], ¬ Framed line := by decide
  have hnone : ∀ line ∈ [['|', ' ', 'a'], ['|', '\x7d']], ¬ Hidden line :=
    fun line hline hhidden => hshown line hline hhidden.1
  exact (htable.table_iff fun line hline hhidden => absurd hhidden (hnone line hline)).2
    (.inr fun line hline hhidden => absurd hhidden (hnone line hline))

/-- A cell that is written with a backslash in front of its bar is lost behind two spaces. -/
theorem framed_cell_lost :
    let text := "\x7b|\\n\\| a\\n|\x7d".toList
    ('\n' ∉ text ∧ ['\x7b', '|'] <+: text ∧ tableEnd <:+: text) ∧
      (tableMarkup? true text).map ofMarkup = some ⟨[⟨[⟨['a'], 1⟩]⟩]⟩ ∧
      (tableMarkup? true (indent 2 text)).map ofMarkup = some ⟨[]⟩ := by
  decide

end WikiDocs.Table

import WikiDocs.Proofs.Alignment

/-!
Tables of a single column. Such a table gets a second, blank column, and each
of its rows is set as the text of its cell if no blank ends that text. No blank
ends the line of a row, so the rows of a table that is set can be set again,
each line as a row of its own, and stay as they are.
-/

namespace WikiDocs.Table

open Text

/-- A table with a row of one cell for each line. -/
def ofLines (lines : List Text) : Table := ⟨lines.map fun line => .ofTexts [line]⟩

/-- The lines of the rows of a table that is set, without rules and hyphens. -/
def rowTexts (table : Table) : List Text :=
  table.layout.map (Row.line (columnWidths table.layout))

/-- What follows the line of each row: hyphens if the row has a merged cell. -/
def rowHyphens (table : Table) : List (List Text) :=
  table.layout.map fun row =>
    if row.hasMerged then [row.underline (columnWidths table.layout)] else []

/-- The length of the longest line, and one at least. -/
def longest (lines : List Text) : Nat := lines.foldl (fun width line => max width line.length) 1

/-- A row of a table of lines as it is set. -/
def lineRow (line : Text) : Row := ⟨[.plain line, .blank]⟩

theorem line_lineRow {line : Text} (hend : ∀ c ∈ line.getLast?, isBlank c = false) (width : Nat) :
    (lineRow line).line [width, 1] = line := by
  have hline : (lineRow line).line [width, 1] =
      trimEnd (line ++ (List.replicate (width - line.length) ' ' ++ [' ', ' '])) := by
    simp [Row.line, lineRow, Row.placed, placeFrom, Cell.plain, Cell.blank, spanWidth, padEnd,
      List.intercalate]
  have hblanks : ∀ c ∈ List.replicate (width - line.length) ' ' ++ [' ', ' '],
      isBlank c = true := by
    intro c hc
    have hspace : c = ' ' := by
      obtain hc | hc := List.mem_append.1 hc
      · exact List.eq_of_mem_replicate hc
      · simpa using hc
    rw [hspace]
    rfl
  rw [hline, trimEnd_append_blanks hblanks, trimEnd_eq_self hend]

section Lines

variable {lines : List Text} (hne : lines ≠ [])
include hne

theorem settable_ofLines : (ofLines lines).Settable := by
  refine ⟨by simpa [ofLines] using hne, ?_, ?_⟩
  · simp [ofLines, Row.ofTexts, Cell.plain]
  · simp [ofLines, Row.ofTexts, Row.columns, Cell.plain, Row.widthLimit, UInt64.size]

theorem columnCount_ofLines : (ofLines lines).columnCount = 1 := by
  have hone : ∀ row ∈ (ofLines lines).rows, row.gridWidth = 1 := by
    simp [ofLines, Row.ofTexts, Row.gridWidth, Cell.plain, Row.widthLimit, UInt64.size]
  obtain ⟨row, hrow⟩ := List.exists_mem_of_ne_nil _ (settable_ofLines hne).rows_ne
  refine Nat.le_antisymm (Nat.le_of_lt_succ (foldl_max_lt (by decide) fun row hrow => ?_)) ?_
  · rw [hone row hrow]
    exact Nat.lt_succ_self 1
  · rw [← hone row hrow]
    exact (le_foldl_max 0).2 row hrow

theorem layout_ofLines : (ofLines lines).layout = lines.map lineRow := by
  have hsingle : ((ofLines lines).rows.all fun row => row.cells.length == 1) = true := by
    simp [ofLines, Row.ofTexts]
  rw [layout, if_pos hsingle, columnCount_ofLines hne, ofLines, List.map_map]
  rfl

theorem columnWidths_ofLines : columnWidths (ofLines lines).layout = [longest lines, 1] := by
  have hmerged : (ofLines lines).hasMerged = false := by
    simp [ofLines, hasMerged, Row.hasMerged, Row.ofTexts, Cell.plain, Cell.isMerged]
  have hcolumns : (ofLines lines).gridColumns = 2 := by
    obtain ⟨line, hline⟩ := List.exists_mem_of_ne_nil _ hne
    have hrow : lineRow line ∈ (ofLines lines).layout := by
      rw [layout_ofLines hne]
      exact List.mem_map_of_mem hline
    exact ((layout_grid (settable_ofLines hne)).columns_eq _ hrow).symm
  have hfirst : widest (ofLines lines).rows 0 = longest lines := by
    simp [widest, longest, ofLines, Row.ofTexts, Cell.plain, Cell.width, List.foldl_map]
  have hsecond : widest (ofLines lines).rows 1 = 1 := by
    simp [widest, ofLines, Row.ofTexts, List.foldl_map]
  rw [(settable_ofLines hne).unmerged hmerged, hcolumns]
  exact congrArg₂ (fun first second => [first, second]) hfirst hsecond

/-- The rows of a table of lines are set as the lines that they are made of. -/
theorem rowTexts_ofLines (hend : ∀ line ∈ lines, ∀ c ∈ line.getLast?, isBlank c = false) :
    (ofLines lines).rowTexts = lines := by
  rw [rowTexts, columnWidths_ofLines hne, layout_ofLines hne, List.map_map]
  refine (List.map_congr_left fun line hline => ?_).trans (List.map_id lines)
  exact line_lineRow (hend line hline) _

/-- No row of a table of lines has hyphens under it. -/
theorem rowHyphens_ofLines : (ofLines lines).rowHyphens = lines.map fun _ => [] := by
  rw [rowHyphens, layout_ofLines hne, List.map_map]
  rfl

end Lines

/-- A table that is set is made of its rules, the lines of its rows, and the hyphens under them. -/
theorem render_rowTexts {table : Table} (hne : table.rows ≠ []) :
    ∃ header body,
      List.zipWith List.cons table.rowTexts table.rowHyphens = header :: body ∧
      table.render = [rule (columnWidths table.layout)] ++ header ++
        (if body = [] then [] else [rule (columnWidths table.layout)]) ++ body.flatten ++
          [rule (columnWidths table.layout), []] := by
  have hlayout : table.layout ≠ [] := by
    rw [layout]
    split <;> simpa using hne
  have hlines : List.zipWith List.cons table.rowTexts table.rowHyphens =
      table.layout.map (Row.lines (columnWidths table.layout)) := by
    rw [rowTexts, rowHyphens, List.zipWith_map, List.zipWith_self]
    rfl
  rw [hlines, render]
  cases hrows : table.layout with
  | nil => exact absurd hrows hlayout
  | cons header body =>
      refine ⟨_, _, rfl, ?_⟩
      cases body <;> simp [List.flatMap_def]

/-- Lines without blanks at their ends are set as they are, under a rule as long as the longest. -/
theorem render_ofLines {first : Text} {more : List Text}
    (hend : ∀ line ∈ first :: more, ∀ c ∈ line.getLast?, isBlank c = false) :
    let rule := List.replicate (longest (first :: more)) '=' ++ [' ', '=']
    (ofLines (first :: more)).render =
      [rule, first] ++ (if more = [] then [] else [rule]) ++ more ++ [rule, []] := by
  intro rule
  have hne : first :: more ≠ [] := List.cons_ne_nil _ _
  have hrule : Table.rule [longest (first :: more), 1] = rule := by
    simp [Table.rule, rule, List.intercalate]
  obtain ⟨header, body, hlines, hrender⟩ := render_rowTexts (settable_ofLines hne).rows_ne
  rw [rowTexts_ofLines hne hend, rowHyphens_ofLines hne, List.zipWith_map_right,
    List.zipWith_self, List.map_cons] at hlines
  obtain ⟨rfl, rfl⟩ := List.cons.inj hlines
  rw [hrender, columnWidths_ofLines hne, hrule, ← List.flatMap_def, List.flatMap_singleton']
  simp

/-- The rows of a table that is set, set again with each line as a row of its own, stay as they
are. -/
theorem rows_set_again {table : Table} (h : table.Settable) :
    (∃ header body,
      List.zipWith List.cons table.rowTexts table.rowHyphens = header :: body ∧
      table.render = [rule (columnWidths table.layout)] ++ header ++
        (if body = [] then [] else [rule (columnWidths table.layout)]) ++ body.flatten ++
          [rule (columnWidths table.layout), []]) ∧
    ∃ first more, table.rowTexts = first :: more ∧ more.length + 1 = table.rowCount ∧
      let rule := List.replicate (longest (first :: more)) '=' ++ [' ', '=']
      (ofLines (first :: more)).render =
        [rule, first] ++ (if more = [] then [] else [rule]) ++ more ++ [rule, []] := by
  have hlength : table.rowTexts.length = table.rowCount := by
    rw [rowTexts, List.length_map, ← (layout_rows h).length_eq, rowCount]
  have hne : table.rowTexts ≠ [] := by
    rw [← List.length_pos_iff, hlength]
    exact List.length_pos_iff.2 h.rows_ne
  have hend : ∀ line ∈ table.rowTexts, ∀ c ∈ line.getLast?, isBlank c = false := by
    intro line hline
    obtain ⟨row, -, rfl⟩ := List.mem_map.1 hline
    exact line_last row
  refine ⟨render_rowTexts h.rows_ne, ?_⟩
  obtain ⟨first, more, htexts⟩ := List.exists_cons_of_ne_nil hne
  rw [htexts] at hend hlength
  exact ⟨first, more, htexts, hlength, render_ofLines hend⟩

theorem rows_set_again_merged :
    let table : Table :=
      ⟨[.ofTexts [['a'], ['b']], ⟨[.spanning "wide text".toList 2]⟩, .ofTexts [['c']]]⟩
    table.Settable ∧ (ofLines ["a b".toList, "wide text".toList, "c".toList]).render =
      ["========= =".toList, "a b".toList, "========= =".toList, "wide text".toList, "c".toList,
        "========= =".toList, []] := by
  intro table
  have hsettable : table.Settable := ⟨by decide, by decide, by decide⟩
  have htexts : table.rowTexts = ["a b".toList, "wide text".toList, "c".toList] := by decide
  obtain ⟨-, first, more, hrows, -, hrender⟩ := rows_set_again hsettable
  obtain ⟨rfl, rfl⟩ := List.cons.inj (hrows.symm.trans htexts)
  exact ⟨hsettable, hrender⟩

end WikiDocs.Table

import Mathlib.Algebra.Group.Action.Defs
import WikiDocs.Proofs.UnbrokenTables

/-!
The rows of a table out of its markup. Its lines fall into groups between row
separators; each group is a row of the cells on its lines, without the empty
ones, and a group without cells is no row.
-/

namespace WikiDocs

namespace Text

theorem trimmed_trim (s : Text) : Trimmed (trim s) := by
  have hstart : trimStart (trim s) = trim s := by
    refine trimStart_eq_self fun c hc => ?_
    obtain ⟨rest, hrest⟩ : trim s <+: trimStart s := dropEndWhile_prefix isBlank _
    have hnot := List.head?_dropWhile_not isBlank s
    rw [← trimStart, ← hrest, List.head?_append, hc] at hnot
    exact hnot
  have hend : trimEnd (trim s) = trim s :=
    trimEnd_eq_self fun c hc => getLast?_dropEndWhile hc
  rw [Trimmed, trim, hstart, hend]

end Text

namespace Table

open Text

namespace MarkupLine

def endsRow (line : MarkupLine) : Bool := line = .rowSeparator

/-- The cell on a line of markup. -/
def cell? : MarkupLine → Option Cell
  | .cell text => some { text }
  | .spanningCell text span => some { text, span }
  | .rowSeparator | .directive | .ignored => none

end MarkupLine

open MarkupLine

/-- Whether a cell is kept in its row: a cell of one column must have a text. -/
def Cell.Kept (cell : Cell) : Prop := cell.span = 1 → cell.text ≠ []

instance (cell : Cell) : Decidable cell.Kept := inferInstanceAs (Decidable (_ → _))

/-- The cells of a group of lines, without the empty ones. -/
def cellsOf (group : List MarkupLine) : List Cell := (group.filterMap cell?).filter (Cell.Kept ·)

/-- The rows of lines of markup: the groups between the separators that have cells. -/
def rowsOf (lines : List MarkupLine) : List (List Cell) :=
  ((lines.splitOnP endsRow).map cellsOf).filter (· ≠ [])

/-- A cell that a line of markup can hold. -/
structure Cell.Readable (cell : Cell) : Prop where
  trimmed : Trimmed cell.text
  no_break : '\n' ∉ cell.text
  span_pos : 1 ≤ cell.span
  span_le : cell.span ≤ 64

/-- A span that is read off a line is that of the first value on it. -/
theorem value?_of_spanned? {line text : Text} {span : Nat}
    (h : spanned? line = some (span, text)) :
    ∃ digits rest, value? line = some (digits, rest) ∧
      (1 ≤ numeral digits ∧ numeral digits ≤ maxSpan) ∧ numeral digits = span ∧
      trim rest = text := by
  rw [spanned?] at h
  split at h
  · rename_i digits rest hvalue
    split at h
    · rename_i hrange
      cases h
      exact ⟨digits, rest, hvalue, hrange, rfl, rfl⟩
    · cases h
  · cases h

theorem spanned?_eq_some {line text : Text} {span : Nat} (h : spanned? line = some (span, text)) :
    Trimmed text ∧ 1 ≤ span ∧ span ≤ 64 := by
  obtain ⟨digits, rest, -, hrange, rfl, rfl⟩ := value?_of_spanned? h
  exact ⟨trimmed_trim rest, hrange⟩

theorem trimmed_of_plainCell {line text : Text} (h : plainCell line = .cell text) :
    Trimmed text := by
  rw [plainCell.eq_def] at h
  split at h
  · cases h
    exact trimmed_trim _
  · cases h
    exact trimmed_trim _
  · cases h

theorem plainCell_eq (line : Text) :
    plainCell line = .ignored ∨ ∃ text, plainCell line = .cell text := by
  rw [plainCell.eq_def]
  split
  · exact .inr ⟨_, rfl⟩
  · exact .inr ⟨_, rfl⟩
  · exact .inl rfl

theorem readable_of_plainCell {line : Text} {cell : Cell} (h : (plainCell line).cell? = some cell) :
    Trimmed cell.text ∧ 1 ≤ cell.span ∧ cell.span ≤ 64 := by
  obtain hnone | ⟨text, htext⟩ := plainCell_eq line
  · rw [hnone] at h
    cases h
  · rw [htext] at h
    cases h
    exact ⟨trimmed_of_plainCell htext, Nat.le_refl 1, Nat.succ_le_succ (Nat.zero_le 63)⟩

theorem readable_of_classify {markup : Text} (hbreak : '\n' ∉ markup) {cell : Cell}
    (h : (classify markup).cell? = some cell) : cell.Readable := by
  have htext : (classify markup).text? = some cell.text := by
    cases hline : classify markup with
    | cell _ | spanningCell _ _ =>
        rw [hline] at h
        cases h
        rfl
    | rowSeparator | directive | ignored =>
        rw [hline] at h
        cases h
  have hcell : Trimmed cell.text ∧ 1 ≤ cell.span ∧ cell.span ≤ 64 := by
    simp only [classify] at h
    split at h
    · cases h
    split at h
    · cases h
    split at h
    · split at h
      · rename_i hspanned
        cases h
        exact spanned?_eq_some hspanned
      · exact readable_of_plainCell h
    · exact readable_of_plainCell h
  exact ⟨hcell.1, fun hmem => hbreak (classify_subset htext hmem), hcell.2.1, hcell.2.2⟩

theorem isEmpty_iff {cell : Cell} (h : 1 ≤ cell.span) : cell.isEmpty = false ↔ cell.Kept := by
  by_cases hspan : cell.span = 1
  · simp [Cell.isEmpty, Cell.isMerged, Cell.Kept, hspan]
  · have hmerged : 1 < cell.span := by omega
    simp [Cell.isEmpty, Cell.isMerged, Cell.Kept, hspan, hmerged]

/-- The rows that are left of a row and later ones, when the empty cells are dropped. -/
theorem cells_prune_cons {row : Row} (h : ∀ cell ∈ row.cells, 1 ≤ cell.span) (rows : List Row) :
    (prune ⟨row :: rows⟩).rows.map Row.cells =
      [row.cells.filter (Cell.Kept ·)].filter (· ≠ []) ++ (prune ⟨rows⟩).rows.map Row.cells := by
  have hkept : row.cells.filter (!·.isEmpty) = row.cells.filter (Cell.Kept ·) := by
    refine List.filter_congr fun cell hcell => ?_
    rw [Bool.eq_iff_iff, Bool.not_eq_true', isEmpty_iff (h cell hcell), decide_eq_true_iff]
  simp only [prune, List.map_cons, hkept]
  by_cases hnil : row.cells.filter (Cell.Kept ·) = []
  · simp [hnil]
  · simp [hnil]

theorem cellsOf_cons (line : MarkupLine) (group : List MarkupLine) :
    cellsOf (line :: group) = line.cell?.toList.filter (Cell.Kept ·) ++ cellsOf group := by
  rw [cellsOf, cellsOf, ← List.filter_append]
  cases hcell : line.cell? with
  | none => rw [List.filterMap_cons_none hcell, Option.toList_none, List.nil_append]
  | some cell => rw [List.filterMap_cons_some hcell, Option.toList_some, List.singleton_append]

/-- A line that does not end the row adds its cell to the first group. -/
theorem groups_cons {line : MarkupLine} (h : line.endsRow = false) (row : List Cell)
    (lines : List MarkupLine) :
    (((line :: lines).splitOnP endsRow).map cellsOf).modifyHead (row.filter (Cell.Kept ·) ++ ·) =
      ((lines.splitOnP endsRow).map cellsOf).modifyHead
        ((row ++ line.cell?.toList).filter (Cell.Kept ·) ++ ·) := by
  obtain ⟨group, groups, hgroups⟩ :=
    List.exists_cons_of_ne_nil (List.splitOnP_ne_nil endsRow lines)
  rw [List.splitOnP_cons_eq_if_modifyHead, h, if_neg Bool.false_ne_true, hgroups]
  simp only [List.modifyHead_cons, List.map_cons, cellsOf_cons, List.filter_append,
    List.append_assoc]

theorem groups_separator (row : List Cell) (lines : List MarkupLine) :
    ((((.rowSeparator :: lines).splitOnP endsRow).map cellsOf).modifyHead
        (row.filter (Cell.Kept ·) ++ ·)).filter (· ≠ []) =
      [row.filter (Cell.Kept ·)].filter (· ≠ []) ++ rowsOf lines := by
  have hends : endsRow .rowSeparator = true := rfl
  rw [List.splitOnP_cons_eq_if_modifyHead, hends, if_pos rfl, List.map_cons,
    List.modifyHead_cons, List.filter_cons]
  simp only [cellsOf, rowsOf, List.filterMap_nil, List.filter_nil, List.append_nil]
  split <;> simp_all

theorem groups_start (groups : List (List Cell)) :
    groups.modifyHead (([] : List Cell).filter (Cell.Kept ·) ++ ·) = groups := by
  cases groups <;> rfl

/-- Where a row is not ended yet, its cells stand before those of the first group. -/
theorem cells_prune_rowsFrom {row : List Cell} {lines : List MarkupLine}
    (hrow : ∀ cell ∈ row, 1 ≤ cell.span)
    (hlines : ∀ line ∈ lines, ∀ cell ∈ line.cell?, 1 ≤ cell.span) :
    (prune ⟨rowsFrom row lines⟩).rows.map Row.cells =
      (((lines.splitOnP endsRow).map cellsOf).modifyHead
        (row.filter (Cell.Kept ·) ++ ·)).filter (· ≠ []) := by
  have hadd : ∀ (row : List Cell) (added : Cell), (∀ cell ∈ row, 1 ≤ cell.span) →
      1 ≤ added.span → ∀ cell ∈ row ++ [added], 1 ≤ cell.span := by
    intro row added hrow hadded
    rw [List.forall_mem_append, List.forall_mem_singleton]
    exact ⟨hrow, hadded⟩
  fun_induction rowsFrom row lines with
  | case1 row =>
      rw [cells_prune_cons hrow]
      simp [prune, cellsOf]
  | case2 row lines hempty ih =>
      rw [List.isEmpty_iff.1 hempty, groups_separator, ih (List.forall_mem_nil _)
        (List.forall_mem_cons.1 hlines).2, groups_start]
      rfl
  | case3 row lines hfull ih =>
      rw [cells_prune_cons hrow, groups_separator, ih (List.forall_mem_nil _)
        (List.forall_mem_cons.1 hlines).2, groups_start]
      rfl
  | case4 row text lines ih =>
      obtain ⟨-, hlines⟩ := List.forall_mem_cons.1 hlines
      rw [groups_cons rfl]
      exact ih (hadd row (Cell.plain text) hrow (Nat.le_refl 1)) hlines
  | case5 row text span lines ih =>
      obtain ⟨hline, hlines⟩ := List.forall_mem_cons.1 hlines
      have hspan : 1 ≤ span := hline _ rfl
      have hcell : Cell.spanning text span = ⟨text, span⟩ :=
        congrArg (Cell.mk text) (Nat.max_eq_left hspan)
      rw [hcell] at ih ⊢
      rw [groups_cons rfl]
      exact ih (hadd row _ hrow hspan) hlines
  | case6 row lines ih | case7 row lines ih =>
      rw [groups_cons rfl, cell?, Option.toList_none, List.append_nil]
      exact ih hrow (List.forall_mem_cons.1 hlines).2

theorem mem_of_mem_splitOnP {α : Type} {p : α → Bool} {as group : List α} {a : α}
    (hgroup : group ∈ as.splitOnP p) (ha : a ∈ group) : a ∈ as := by
  induction as generalizing group with
  | nil =>
      rw [List.splitOnP_nil, List.mem_singleton] at hgroup
      rwa [hgroup] at ha
  | cons b as ih =>
      rw [List.splitOnP_cons_eq_if_modifyHead] at hgroup
      split at hgroup
      · obtain rfl | hgroup := List.mem_cons.1 hgroup
        · cases ha
        · exact List.mem_cons_of_mem b (ih hgroup ha)
      · obtain ⟨first, more, hsplit⟩ := List.exists_cons_of_ne_nil (List.splitOnP_ne_nil p as)
        rw [hsplit] at ih hgroup
        obtain rfl | hgroup := List.mem_cons.1 hgroup
        · obtain rfl | ha := List.mem_cons.1 ha
          · exact List.mem_cons_self
          · exact List.mem_cons_of_mem b (ih List.mem_cons_self ha)
        · exact List.mem_cons_of_mem b (ih (List.mem_cons_of_mem _ hgroup) ha)

/-- A cell of a row is not empty, and it is the cell of one of the lines. -/
theorem exists_line_of_mem_rowsOf {lines : List MarkupLine} {cells : List Cell} {cell : Cell}
    (hcells : cells ∈ rowsOf lines) (hcell : cell ∈ cells) :
    cell.Kept ∧ ∃ line ∈ lines, line.cell? = some cell := by
  obtain ⟨group, hgroup, rfl⟩ := List.mem_map.1 (List.mem_filter.1 hcells).1
  obtain ⟨hmem, hkept⟩ := List.mem_filter.1 hcell
  obtain ⟨line, hline, hsome⟩ := List.mem_filterMap.1 hmem
  exact ⟨of_decide_eq_true hkept, line, mem_of_mem_splitOnP hgroup hline, hsome⟩

theorem Row.gridWidth_le_columns (row : Row) : row.gridWidth ≤ row.columns := by
  have hcount : ∀ (cells : List Cell) (width : Nat),
      cells.foldl (fun width cell => min (width + cell.span) Row.widthLimit) width ≤
        width + (cells.map Cell.span).sum := by
    intro cells
    induction cells with
    | nil => exact fun width => Nat.le_refl width
    | cons cell cells ih =>
        intro width
        have hmin := Nat.min_le_left (width + cell.span) Row.widthLimit
        rw [List.foldl_cons, List.map_cons, List.sum_cons]
        exact (ih _).trans (by omega)
  exact (hcount row.cells 0).trans (Nat.le_of_eq (Nat.zero_add _))

theorem Row.columns_le {row : Row} {most : Nat} (h : ∀ cell ∈ row.cells, cell.span ≤ most) :
    row.columns ≤ most * row.cells.length := by
  have hsum : (row.cells.map Cell.span).sum ≤ (row.cells.map Cell.span).length • most :=
    List.sum_le_card_nsmul _ _ (List.forall_mem_map.2 h)
  rwa [List.length_map, smul_eq_mul, Nat.mul_comm] at hsum

/-- What a table has of its markup: all cells, each in its row. -/
structure KeepsCells (source : Text) (table : Table) : Prop where
  rows_eq : table.rows = (rowsOf ((lines source).map classify)).map Row.mk
  cells_ne : ∀ row ∈ table.rows, row.cells ≠ []
  readable : ∀ row ∈ table.rows, ∀ cell ∈ row.cells, cell.Readable ∧ cell.Kept
  gridWidth_le : ∀ row ∈ table.rows, row.gridWidth ≤ 64 * row.cells.length
  prune_eq : table.prune = table

theorem rows_ofMarkup (source : Text) :
    (ofMarkup source).rows = (rowsOf ((lines source).map classify)).map Row.mk := by
  have hlines : ∀ line ∈ (lines source).map classify, ∀ cell ∈ line.cell?, 1 ≤ cell.span := by
    intro line hline cell hcell
    obtain ⟨markup, hmarkup, rfl⟩ := List.mem_map.1 hline
    exact (readable_of_classify (break_not_mem_lines hmarkup) hcell).span_pos
  have hrows := cells_prune_rowsFrom (List.forall_mem_nil _) hlines
  rw [groups_start] at hrows
  rw [rowsOf, ← hrows, List.map_map]
  exact (List.map_id _).symm

/-- A table whose cells are all kept has nothing to drop. -/
theorem prune_eq_self {table : Table} (hcells : ∀ row ∈ table.rows, row.cells ≠ [])
    (hkept : ∀ row ∈ table.rows, ∀ cell ∈ row.cells, 1 ≤ cell.span ∧ cell.Kept) :
    table.prune = table := by
  have hrow : ∀ row ∈ table.rows, (⟨row.cells.filter (!·.isEmpty)⟩ : Row) = row := by
    intro row hrow
    refine congrArg Row.mk (List.filter_eq_self.2 fun cell hcell => ?_)
    obtain ⟨hspan, hkept⟩ := hkept row hrow cell hcell
    rw [(isEmpty_iff hspan).2 hkept, Bool.not_false]
  have hrows : table.rows.filter (!·.cells.isEmpty) = table.rows :=
    List.filter_eq_self.2 fun row hrow => by simpa using hcells row hrow
  rw [prune, List.map_congr_left hrow, List.map_id', hrows]

/-- The rows of a table are the groups of lines between its row separators, each with the cells of
its lines. So no row is empty, no cell is an empty one or wider than 64 columns, and nothing is left
to drop. -/
theorem markup_grouped (source : Text) : KeepsCells source (ofMarkup source) := by
  have hrows := rows_ofMarkup source
  have hread : ∀ row ∈ (ofMarkup source).rows,
      row.cells ∈ rowsOf ((lines source).map classify) := by
    intro row hrow
    rw [hrows] at hrow
    obtain ⟨cells, hcells, rfl⟩ := List.mem_map.1 hrow
    exact hcells
  have hne : ∀ row ∈ (ofMarkup source).rows, row.cells ≠ [] := fun row hrow =>
    of_decide_eq_true (List.mem_filter.1 (hread row hrow)).2
  have hcells : ∀ row ∈ (ofMarkup source).rows, ∀ cell ∈ row.cells,
      cell.Readable ∧ cell.Kept := by
    intro row hrow cell hcell
    obtain ⟨hkept, line, hline, hsome⟩ := exists_line_of_mem_rowsOf (hread row hrow) hcell
    obtain ⟨markup, hmarkup, rfl⟩ := List.mem_map.1 hline
    exact ⟨readable_of_classify (break_not_mem_lines hmarkup) hsome, hkept⟩
  refine ⟨hrows, hne, hcells, fun row hrow => ?_, ?_⟩
  · exact row.gridWidth_le_columns.trans
      (Row.columns_le fun cell hcell => (hcells row hrow cell hcell).1.span_le)
  · exact prune_eq_self hne fun row hrow cell hcell =>
      ⟨(hcells row hrow cell hcell).1.span_pos, (hcells row hrow cell hcell).2⟩

end Table
end WikiDocs

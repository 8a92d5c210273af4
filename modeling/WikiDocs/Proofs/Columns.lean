import Mathlib.Algebra.GroupWithZero.Nat
import Mathlib.Algebra.Order.BigOperators.Group.List
import Mathlib.Algebra.Order.Group.Nat
import Mathlib.Data.List.TakeDrop
import WikiDocs.Proofs.Joining
import WikiDocs.Table.Layout

/-!
The columns of a table that is set. All rows are filled up to the same number
of columns, columns are only ever widened, and once they are widened for every
cell each cell fits the columns that it covers.
-/

namespace WikiDocs.Table

open Text

/-- The number of columns that the cells of a row cover. -/
def Row.columns (row : Row) : Nat := (row.cells.map Cell.span).sum

/-- A table that can be set: it has rows, and no count of its columns reaches the limit. -/
structure Settable (table : Table) : Prop where
  rows_ne : table.rows ≠ []
  span_pos : ∀ row ∈ table.rows, ∀ cell ∈ row.cells, 1 ≤ cell.span
  columns_lt : ∀ row ∈ table.rows, row.columns < Row.widthLimit

/-- The number of columns in which a table is set: as many as the widest row covers, and one more
if every row has a single cell. -/
def gridColumns (table : Table) : Nat :=
  table.rows.foldl (fun columns row => max columns row.columns) 0 +
    if table.rows.all fun row => row.cells.length == 1 then 1 else 0

/-- A row as it is set: its own cells, then blank ones up to a number of columns. -/
def Row.Filled (columns : Nat) (row laid : Row) : Prop :=
  laid.columns = columns ∧ ∃ n, laid.cells = row.cells ++ List.replicate n Cell.blank

/-- Rows that cover the same number of columns. -/
structure Grid (columns : Nat) (rows : List Row) : Prop where
  rows_ne : rows ≠ []
  columns_eq : ∀ row ∈ rows, row.columns = columns
  span_pos : ∀ row ∈ rows, ∀ cell ∈ row.cells, 1 ≤ cell.span
  columns_le : columns ≤ Row.widthLimit

theorem Row.gridWidth_eq {row : Row} (h : row.columns ≤ Row.widthLimit) :
    row.gridWidth = row.columns := by
  have hcount : ∀ (cells : List Cell) (width : Nat),
      width + (cells.map Cell.span).sum ≤ Row.widthLimit →
        cells.foldl (fun width cell => min (width + cell.span) Row.widthLimit) width =
          width + (cells.map Cell.span).sum := by
    intro cells
    induction cells with
    | nil => exact fun width _ => (Nat.add_zero width).symm
    | cons cell cells ih =>
        intro width hle
        rw [List.map_cons, List.sum_cons] at hle ⊢
        rw [List.foldl_cons, Nat.min_eq_left (by omega), ih _ (by omega), Nat.add_assoc]
  exact (hcount row.cells 0 (by rwa [Nat.zero_add])).trans (Nat.zero_add _)

theorem foldl_max_congr {rows : List Row} {f g : Row → Nat} (h : ∀ row ∈ rows, f row = g row)
    (width : Nat) :
    rows.foldl (fun width row => max width (f row)) width =
      rows.foldl (fun width row => max width (g row)) width := by
  induction rows generalizing width with
  | nil => rfl
  | cons row rows ih =>
      rw [List.forall_mem_cons] at h
      rw [List.foldl_cons, List.foldl_cons, h.1, ih h.2]

theorem le_foldl_max {rows : List Row} {f : Row → Nat} (width : Nat) :
    width ≤ rows.foldl (fun width row => max width (f row)) width ∧
      ∀ row ∈ rows, f row ≤ rows.foldl (fun width row => max width (f row)) width := by
  induction rows generalizing width with
  | nil => exact ⟨Nat.le_refl _, by simp⟩
  | cons row rows ih =>
      obtain ⟨hstart, hrows⟩ := ih (max width (f row))
      refine ⟨Nat.le_trans (Nat.le_max_left ..) hstart, ?_⟩
      rw [List.forall_mem_cons]
      exact ⟨Nat.le_trans (Nat.le_max_right ..) hstart, hrows⟩

theorem foldl_max_lt {rows : List Row} {f : Row → Nat} {limit width : Nat} (hw : width < limit)
    (h : ∀ row ∈ rows, f row < limit) :
    rows.foldl (fun width row => max width (f row)) width < limit := by
  induction rows generalizing width with
  | nil => exact hw
  | cons row rows ih =>
      rw [List.forall_mem_cons] at h
      exact ih (Nat.max_lt.2 ⟨hw, h.1⟩) h.2

section Layout

variable {table : Table}

theorem Row.columns_append (cells more : List Cell) :
    Row.columns ⟨cells ++ more⟩ = Row.columns ⟨cells⟩ + Row.columns ⟨more⟩ := by
  simp [Row.columns]

theorem Row.columns_blanks (n : Nat) : Row.columns ⟨List.replicate n Cell.blank⟩ = n := by
  simp [Row.columns, Cell.blank, Cell.plain]

theorem Row.columns_fill {row : Row} {columns : Nat} (hle : row.columns ≤ columns)
    (hlimit : row.columns ≤ Row.widthLimit) : (row.fill columns).columns = columns := by
  rw [Row.fill, Row.columns_append, Row.columns_blanks, Row.gridWidth_eq hlimit]
  exact Nat.add_sub_cancel' hle

theorem Row.cells_fill (columns : Nat) (row : Row) :
    ∃ n, (row.fill columns).cells = row.cells ++ List.replicate n Cell.blank := ⟨_, rfl⟩

/-- No count stops short at the limit. -/
theorem Settable.columnCount_eq (h : table.Settable) :
    table.columnCount = table.rows.foldl (fun columns row => max columns row.columns) 0 :=
  foldl_max_congr (fun row hrow => Row.gridWidth_eq (Nat.le_of_lt (h.columns_lt row hrow))) 0

theorem layout_rows (h : table.Settable) :
    List.Forall₂ (Row.Filled table.gridColumns) table.rows table.layout := by
  have hcount := h.columnCount_eq
  have hle : ∀ row ∈ table.rows, row.columns ≤ table.columnCount := by
    rw [hcount]
    exact (le_foldl_max 0).2
  simp only [layout, gridColumns, ← hcount]
  split
  · rw [List.forall₂_map_right_iff, List.forall₂_same]
    intro row hrow
    have hlt := h.columns_lt row hrow
    have hblank : Row.columns ⟨row.cells ++ [Cell.blank]⟩ = row.columns + 1 :=
      Row.columns_append row.cells [Cell.blank]
    refine ⟨Row.columns_fill ?_ ?_, ?_⟩
    · rw [hblank]
      exact Nat.succ_le_succ (hle row hrow)
    · rw [hblank]
      exact hlt
    · obtain ⟨n, hn⟩ := Row.cells_fill (table.columnCount + 1) ⟨row.cells ++ [Cell.blank]⟩
      exact ⟨n + 1, hn.trans (List.append_assoc ..)⟩
  · rw [List.forall₂_map_right_iff, List.forall₂_same]
    intro row hrow
    exact ⟨Row.columns_fill (hle row hrow) (Nat.le_of_lt (h.columns_lt row hrow)),
      Row.cells_fill table.columnCount row⟩

theorem layout_grid (h : table.Settable) : Grid table.gridColumns table.layout := by
  have hrows := layout_rows h
  refine ⟨?_, fun laid hlaid => ?_, fun laid hlaid cell hcell => ?_, ?_⟩
  · have hlength := hrows.length_eq
    have hpos := List.length_pos_iff.2 h.rows_ne
    exact List.length_pos_iff.1 (by omega)
  · obtain ⟨row, -, hcolumns, -⟩ := exists_of_forall₂_of_mem hrows hlaid
    exact hcolumns
  · obtain ⟨row, hrow, -, n, hn⟩ := exists_of_forall₂_of_mem hrows hlaid
    rw [hn, List.mem_append, List.mem_replicate] at hcell
    obtain hcell | ⟨-, rfl⟩ := hcell
    · exact h.span_pos row hrow cell hcell
    · exact Nat.le_refl 1
  · have hlt : table.rows.foldl (fun columns row => max columns row.columns) 0 < Row.widthLimit :=
      foldl_max_lt (by decide) h.columns_lt
    simp only [gridColumns]
    split <;> omega

end Layout

section Widening

variable {widths widths' : List Nat}

theorem widens_modify {f : Nat → Nat} (hf : ∀ width, width ≤ f width) (widths : List Nat)
    (i : Nat) : List.Forall₂ (· ≤ ·) widths (widths.modify i f) := by
  induction widths generalizing i with
  | nil => rw [List.modify_nil]; exact .nil
  | cons width widths ih =>
      cases i with
      | zero => exact .cons (hf width) (List.forall₂_same.2 fun _ _ => Nat.le_refl _)
      | succ i => exact .cons (Nat.le_refl width) (ih i)

theorem fitPlain_widens (widths : List Nat) (p : Nat × Cell) :
    List.Forall₂ (· ≤ ·) widths (fitPlain widths p) := by
  simp only [fitPlain]
  split
  · exact List.forall₂_same.2 fun _ _ => Nat.le_refl _
  · exact widens_modify (fun _ => Nat.le_max_left ..) widths _

theorem fitMerged_widens (widths : List Nat) (p : Nat × Cell) :
    List.Forall₂ (· ≤ ·) widths (fitMerged widths p) := by
  simp only [fitMerged]
  split
  · exact widens_modify (fun _ => Nat.le_add_right ..) widths _
  · exact List.forall₂_same.2 fun _ _ => Nat.le_refl _

theorem spanWidth_eq (widths : List Nat) (column span : Nat) :
    spanWidth widths column span = ((widths.drop column).take span).sum + (span - 1) := rfl

theorem spanWidth_le (h : List.Forall₂ (· ≤ ·) widths widths') (column span : Nat) :
    spanWidth widths column span ≤ spanWidth widths' column span :=
  Nat.add_le_add_right (List.forall₂_take span (List.forall₂_drop column h)).sum_le_sum _

theorem sum_modify_add {i : Nat} (h : i < widths.length) (more : Nat) :
    (widths.modify i (· + more)).sum = widths.sum + more := by
  induction widths generalizing i with
  | nil => cases h
  | cons width widths ih =>
      cases i with
      | zero =>
          rw [List.modify_zero_cons, List.sum_cons, List.sum_cons]
          omega
      | succ i =>
          rw [List.modify_succ_cons, List.sum_cons, List.sum_cons, ih (Nat.lt_of_succ_lt_succ h),
            Nat.add_assoc]

theorem fitPlain_fits {column : Nat} {cell : Cell} (hspan : cell.span = 1)
    (hcolumn : column < widths.length) :
    cell.width ≤ spanWidth (fitPlain widths (column, cell)) column cell.span := by
  have hmerged : cell.isMerged = false := by simp [Cell.isMerged, hspan]
  have hlength : column < (widths.modify column (max · cell.width)).length := by
    rwa [List.length_modify]
  simp only [fitPlain, hmerged, Bool.false_eq_true, if_false, spanWidth_eq, hspan,
    List.take_one_drop_eq_of_lt_length hlength, List.get_eq_getElem, List.getElem_modify_eq,
    List.sum_singleton]
  exact Nat.le_max_right ..

theorem fitMerged_fits {column : Nat} {cell : Cell} (hspan : 1 < cell.span)
    (hcolumn : column + cell.span ≤ widths.length) :
    cell.width ≤ spanWidth (fitMerged widths (column, cell)) column cell.span := by
  have hmerged : cell.isMerged = true := by simp [Cell.isMerged, hspan]
  have hlast : column + cell.span - 1 - column < ((widths.drop column).take cell.span).length := by
    rw [List.length_take, List.length_drop]
    omega
  simp only [fitMerged, hmerged, if_true]
  rw [spanWidth_eq, List.drop_modify_of_ge _ _ _ _ (by omega), List.take_modify, sum_modify_add hlast]
  simp only [spanWidth_eq]
  omega

end Widening

theorem widens_trans {first second third : List Nat} (h : List.Forall₂ (· ≤ ·) first second)
    (h' : List.Forall₂ (· ≤ ·) second third) : List.Forall₂ (· ≤ ·) first third := by
  induction h generalizing third with
  | nil => exact h'
  | cons hle _ ih =>
      cases h' with
      | cons hle' h' => exact .cons (Nat.le_trans hle hle') (ih h')

section Fitting

variable {fit : List Nat → Nat × Cell → List Nat}

theorem foldl_widens (hwiden : ∀ widths p, List.Forall₂ (· ≤ ·) widths (fit widths p))
    (cells : List (Nat × Cell)) (widths : List Nat) :
    List.Forall₂ (· ≤ ·) widths (cells.foldl fit widths) := by
  induction cells generalizing widths with
  | nil => exact List.forall₂_same.2 fun _ _ => Nat.le_refl _
  | cons p cells ih => exact widens_trans (hwiden widths p) (ih _)

/-- A cell that fits once columns are widened for it still fits after all others. -/
theorem foldl_fits (hwiden : ∀ widths p, List.Forall₂ (· ≤ ·) widths (fit widths p))
    {p : Nat × Cell}
    (hfit : ∀ widths, p.1 + p.2.span ≤ widths.length →
      p.2.width ≤ spanWidth (fit widths p) p.1 p.2.span)
    {cells : List (Nat × Cell)} (hp : p ∈ cells) {widths : List Nat}
    (hcolumns : p.1 + p.2.span ≤ widths.length) :
    p.2.width ≤ spanWidth (cells.foldl fit widths) p.1 p.2.span := by
  induction cells generalizing widths with
  | nil => cases hp
  | cons q cells ih =>
      rw [List.foldl_cons]
      obtain rfl | hp := List.mem_cons.1 hp
      · exact Nat.le_trans (hfit widths hcolumns) (spanWidth_le (foldl_widens hwiden cells _) _ _)
      · exact ih hp ((hwiden widths q).length_eq ▸ hcolumns)

end Fitting

theorem mem_placeFrom {start : Nat} {cells : List Cell} {p : Nat × Cell}
    (hp : p ∈ placeFrom start cells) :
    p.2 ∈ cells ∧ p.1 + p.2.span ≤ start + (cells.map Cell.span).sum := by
  induction cells generalizing start with
  | nil => cases hp
  | cons cell cells ih =>
      rw [List.map_cons, List.sum_cons]
      obtain rfl | hp := List.mem_cons.1 hp
      · exact ⟨List.mem_cons_self, Nat.add_le_add_left (Nat.le_add_right ..) start⟩
      · obtain ⟨hmem, hle⟩ := ih hp
        exact ⟨List.mem_cons_of_mem _ hmem, by omega⟩

namespace Grid

variable {columns : Nat} {rows : List Row} (h : Grid columns rows)
include h

theorem placed {row : Row} (hrow : row ∈ rows) {p : Nat × Cell} (hp : p ∈ row.placed) :
    1 ≤ p.2.span ∧ p.1 + p.2.span ≤ columns := by
  obtain ⟨hmem, hle⟩ := mem_placeFrom hp
  rw [Nat.zero_add, ← Row.columns, h.columns_eq row hrow] at hle
  exact ⟨h.span_pos row hrow p.2 hmem, hle⟩

/-- The rows are as wide as the grid, also as they are counted. -/
theorem foldl_gridWidth : rows.foldl (fun width row => max width row.gridWidth) 0 = columns := by
  have hwidth : ∀ row ∈ rows, row.gridWidth = columns := by
    intro row hrow
    have hcolumns := h.columns_eq row hrow
    rw [Row.gridWidth_eq (hcolumns ▸ h.columns_le), hcolumns]
  obtain ⟨row, hrow⟩ := List.exists_mem_of_ne_nil rows h.rows_ne
  have hle := (le_foldl_max (f := Row.gridWidth) 0).2 row hrow
  have hlt : rows.foldl (fun width row => max width row.gridWidth) 0 < columns + 1 :=
    foldl_max_lt (Nat.succ_pos _) fun row hrow => Nat.lt_succ_of_le (hwidth row hrow).le
  rw [hwidth row hrow] at hle
  omega

/-- The widths start with one for each column. -/
theorem columnWidths_eq :
    columnWidths rows = (rows.flatMap Row.placed).foldl fitMerged
      ((rows.flatMap Row.placed).foldl fitPlain (List.replicate columns 1)) := by
  rw [columnWidths, h.foldl_gridWidth]

theorem widens : List.Forall₂ (· ≤ ·) (List.replicate columns 1) (columnWidths rows) := by
  rw [h.columnWidths_eq]
  exact widens_trans (foldl_widens fitPlain_widens _ _) (foldl_widens fitMerged_widens _ _)

theorem length_columnWidths : (columnWidths rows).length = columns := by
  rw [← h.widens.length_eq, List.length_replicate]

theorem one_le : ∀ width ∈ columnWidths rows, 1 ≤ width := by
  intro width hwidth
  obtain ⟨one, hone, hle⟩ := exists_of_forall₂_of_mem h.widens hwidth
  rwa [List.eq_of_mem_replicate hone] at hle

/-- Every cell fits the columns that it covers. -/
theorem fits {row : Row} (hrow : row ∈ rows) {p : Nat × Cell} (hp : p ∈ row.placed) :
    p.2.width ≤ spanWidth (columnWidths rows) p.1 p.2.span := by
  obtain ⟨hspan, hcolumns⟩ := h.placed hrow hp
  have hmem : p ∈ rows.flatMap Row.placed := List.mem_flatMap_of_mem hrow hp
  have hnarrow : (List.replicate columns 1).length = columns := List.length_replicate
  have hplain := foldl_widens fitPlain_widens (rows.flatMap Row.placed) (List.replicate columns 1)
  rw [h.columnWidths_eq]
  obtain hone | hmerged := Nat.eq_or_lt_of_le hspan
  · refine Nat.le_trans ?_ (spanWidth_le (foldl_widens fitMerged_widens _ _) _ _)
    refine foldl_fits fitPlain_widens (fun widths hle => ?_) hmem (by rwa [hnarrow])
    exact fitPlain_fits hone.symm (by omega)
  · refine foldl_fits fitMerged_widens (fun widths hle => fitMerged_fits hmerged hle) hmem ?_
    rwa [← hplain.length_eq, hnarrow]

end Grid

/-- The width of the widest cell of a column, and one at least, in rows of cells that cover one
column each. -/
def widest (rows : List Row) (column : Nat) : Nat :=
  rows.foldl (fun width row => max width (row.cells[column]?.elim 0 Cell.width)) 1

section Unmerged

variable {rows : List Row}

theorem foldl_fitMerged {cells : List (Nat × Cell)} (h : ∀ p ∈ cells, p.2.span = 1)
    (widths : List Nat) : cells.foldl fitMerged widths = widths := by
  induction cells with
  | nil => rfl
  | cons p cells ih =>
      rw [List.forall_mem_cons] at h
      have hmerged : p.2.isMerged = false := by simp [Cell.isMerged, h.1]
      have hstay : fitMerged widths p = widths := by simp [fitMerged, hmerged]
      rw [List.foldl_cons, hstay, ih h.2]

/-- Plain cells widen a column only as far as the cell of the row in that column needs. -/
theorem getElem?_foldl_fitPlain {cells : List Cell} (h : ∀ cell ∈ cells, cell.span = 1)
    (start : Nat) (widths : List Nat) (column : Nat) :
    ((placeFrom start cells).foldl fitPlain widths)[column]? =
      widths[column]?.map fun width =>
        if start ≤ column then max width (cells[column - start]?.elim 0 Cell.width) else width := by
  induction cells generalizing start widths with
  | nil => simp [placeFrom]
  | cons cell cells ih =>
      rw [List.forall_mem_cons] at h
      have hmerged : cell.isMerged = false := by simp [Cell.isMerged, h.1]
      have hfit : fitPlain widths (start, cell) = widths.modify start (max · cell.width) := by
        simp [fitPlain, hmerged]
      rw [placeFrom, List.foldl_cons, hfit, h.1, ih h.2, List.getElem?_modify, Option.map_eq_map,
        Option.map_map]
      refine congrArg (Option.map · widths[column]?) (funext fun width => ?_)
      obtain hlt | rfl | hgt := Nat.lt_trichotomy column start
      · have hne : start ≠ column := by omega
        simp [hne, Nat.not_le.2 hlt, Nat.not_le.2 (Nat.lt_succ_of_lt hlt)]
      · simp
      · obtain ⟨offset, rfl⟩ := Nat.exists_eq_add_of_lt hgt
        have hne : start ≠ start + offset + 1 := by omega
        have hafter : start + 1 ≤ start + offset + 1 := by omega
        have hbefore : start + offset + 1 - start = offset + 1 := by omega
        have hinner : start + offset + 1 - (start + 1) = offset := by omega
        simp [hne, hafter, hbefore, hinner, Nat.le_add_right_of_le]

theorem getElem?_foldl_rows (h : ∀ row ∈ rows, ∀ cell ∈ row.cells, cell.span = 1)
    (widths : List Nat) (column : Nat) :
    (rows.foldl (fun widths row => row.placed.foldl fitPlain widths) widths)[column]? =
      widths[column]?.map fun width =>
        rows.foldl (fun width row => max width (row.cells[column]?.elim 0 Cell.width)) width := by
  induction rows generalizing widths with
  | nil => simp
  | cons row rows ih =>
      rw [List.forall_mem_cons] at h
      rw [List.foldl_cons, ih h.2, Row.placed, getElem?_foldl_fitPlain h.1, Option.map_map]
      simp [Function.comp_def]

/-- Without merged cells each column is as wide as the widest cell in it. -/
theorem Grid.columnWidths_unmerged {columns : Nat} (h : Grid columns rows)
    (hplain : ∀ row ∈ rows, ∀ cell ∈ row.cells, cell.span = 1) :
    columnWidths rows = (List.range columns).map (widest rows) := by
  have hcells : ∀ p ∈ rows.flatMap Row.placed, p.2.span = 1 := by
    intro p hp
    obtain ⟨row, hrow, hp⟩ := List.mem_flatMap.1 hp
    exact hplain row hrow p.2 (mem_placeFrom hp).1
  refine List.ext_getElem? fun column => ?_
  rw [h.columnWidths_eq, foldl_fitMerged hcells, List.foldl_flatMap,
    getElem?_foldl_rows hplain, List.getElem?_map, List.getElem?_replicate]
  by_cases hcolumn : column < columns
  · rw [if_pos hcolumn, List.getElem?_range hcolumn]
    rfl
  · rw [if_neg hcolumn, List.getElem?_eq_none (by rw [List.length_range]; omega)]
    rfl

/-- The blank cells that fill a row widen no column. -/
theorem widest_filled {columns : Nat} {laid : List Row}
    (h : List.Forall₂ (Row.Filled columns) rows laid) (column : Nat) :
    widest laid column = widest rows column := by
  simp only [widest]
  generalize 1 = width
  induction h generalizing width with
  | nil => rfl
  | @cons row laid _ _ hrow _ ih =>
      obtain ⟨-, n, hn⟩ := hrow
      have hcell : laid.cells[column]?.elim 0 Cell.width =
          row.cells[column]?.elim 0 Cell.width := by
        rw [hn, List.getElem?_append]
        split
        · rfl
        · rename_i hlt
          rw [List.getElem?_eq_none (Nat.le_of_not_lt hlt), List.getElem?_replicate]
          split <;> rfl
      rw [List.foldl_cons, List.foldl_cons, hcell, ih]

end Unmerged

end WikiDocs.Table

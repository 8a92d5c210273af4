import WikiDocs.Proofs.Columns

/-!
Setting a table with checks. Each loop counts the columns along a row anew, takes
a width or some widths only where there are so many columns, and subtracts only
what is not more. For a table that can be set no check fails, and the widths and
the lines are those that are set without checks.
-/

namespace WikiDocs.Table

open Text

namespace Checked

/-- The difference of two numbers, if it is one. -/
def difference? (n m : Nat) : Option Nat := if m ≤ n then some (n - m) else none

/-- The widths of the columns from `start` on and before `stop`, if there are so many. -/
def slice? (widths : List Nat) (start stop : Nat) : Option (List Nat) :=
  if start ≤ stop ∧ stop ≤ widths.length then some ((widths.take stop).drop start) else none

/-- Changes the width of a column, if there is one. -/
def change? (widths : List Nat) (column : Nat) (change : Nat → Nat) : Option (List Nat) :=
  widths[column]?.map fun width => widths.set column (change width)

def spanWidth? (widths : List Nat) (column span : Nat) : Option Nat := do
  let covered ← slice? widths column (column + span)
  let gaps ← difference? span 1
  return covered.sum + gaps

/-- Goes along the cells of a row and counts the columns before each of them. -/
def alongCells? {α : Type} (visit : α → Nat → Cell → Option α) (a : α) (column : Nat) :
    List Cell → Option α
  | [] => some a
  | cell :: cells => do
    let a ← visit a column cell
    alongCells? visit a (column + cell.span) cells

def alongRows? {α : Type} (visit : α → Nat → Cell → Option α) (a : α) (rows : List Row) :
    Option α :=
  rows.foldlM (fun a row => alongCells? visit a 0 row.cells) a

def fitPlain? (widths : List Nat) (column : Nat) (cell : Cell) : Option (List Nat) :=
  if cell.isMerged then some widths else change? widths column (max · cell.width)

def fitMerged? (widths : List Nat) (column : Nat) (cell : Cell) : Option (List Nat) :=
  if cell.isMerged then do
    let available ← spanWidth? widths column cell.span
    if available < cell.width then
      let lack ← difference? cell.width available
      let last ← difference? (column + cell.span) 1
      change? widths last (· + lack)
    else return widths
  else some widths

def columnWidths? (rows : List Row) : Option (List Nat) := do
  let narrow := List.replicate (rows.foldl (fun width row => max width row.gridWidth) 0) 1
  let widths ← alongRows? fitPlain? narrow rows
  alongRows? fitMerged? widths rows

/-- What is drawn for the cells of a row, each to the width of the columns that it covers. -/
def fields? (draw : Nat → Cell → Text) (widths : List Nat) (row : Row) : Option (List Text) :=
  alongCells? (fun fields column cell => do
    let width ← spanWidth? widths column cell.span
    return fields ++ [draw width cell]) [] 0 row.cells

def line? (widths : List Nat) (row : Row) : Option Text := do
  let fields ← fields? (fun width cell => padEnd width cell.text) widths row
  return trimEnd ([' '].intercalate fields)

def underline? (widths : List Nat) (row : Row) : Option Text := do
  let fields ← fields? (fun width _ => List.replicate width '-') widths row
  return [' '].intercalate fields

theorem difference?_eq {n m : Nat} (h : m ≤ n) : difference? n m = some (n - m) := if_pos h

theorem change?_eq {widths : List Nat} {column : Nat} (h : column < widths.length)
    (change : Nat → Nat) : change? widths column change = some (widths.modify column change) := by
  rw [change?, List.getElem?_eq_getElem h, Option.map_some, List.modify_eq_set_getElem?]
  simp [h]

section Cells

variable {widths : List Nat} {column : Nat} {cell : Cell} (hspan : 1 ≤ cell.span)
  (hcolumns : column + cell.span ≤ widths.length)
include hspan hcolumns

theorem spanWidth?_eq :
    spanWidth? widths column cell.span = some (spanWidth widths column cell.span) := by
  have hslice : slice? widths column (column + cell.span) =
      some ((widths.drop column).take cell.span) := by
    rw [slice?, if_pos ⟨Nat.le_add_right .., hcolumns⟩, List.drop_take, Nat.add_sub_cancel_left]
  rw [spanWidth?, hslice, difference?_eq hspan]
  rfl

theorem fitPlain?_eq : fitPlain? widths column cell = some (fitPlain widths (column, cell)) := by
  simp only [fitPlain?, fitPlain]
  split
  · rfl
  · exact change?_eq (by omega) _

theorem fitMerged?_eq : fitMerged? widths column cell = some (fitMerged widths (column, cell)) := by
  simp only [fitMerged?, fitMerged, spanWidth?_eq hspan hcolumns, Option.bind_eq_bind,
    Option.bind_some]
  split
  · split
    · rename_i hlack
      rw [difference?_eq (Nat.le_of_lt hlack), difference?_eq (by omega), Option.bind_some,
        Option.bind_some, change?_eq (by omega)]
    · rename_i hfits
      rw [Nat.sub_eq_zero_of_le (Nat.le_of_not_lt hfits)]
      exact congrArg some (List.modify_id _ widths).symm
  · rfl

end Cells

section Loops

variable {α : Type} {visit : α → Nat → Cell → Option α} {plain : α → Nat × Cell → α}
  {P : α → Prop}

theorem alongCells?_eq {column : Nat} {cells : List Cell}
    (hvisit : ∀ a, P a → ∀ p ∈ placeFrom column cells,
      visit a p.1 p.2 = some (plain a p) ∧ P (plain a p)) {a : α} (ha : P a) :
    alongCells? visit a column cells = some ((placeFrom column cells).foldl plain a) ∧
      P ((placeFrom column cells).foldl plain a) := by
  induction cells generalizing column a with
  | nil => exact ⟨rfl, ha⟩
  | cons cell cells ih =>
      obtain ⟨hfirst, hkept⟩ := hvisit a ha (column, cell) List.mem_cons_self
      have hrest := ih (fun a ha p hp => hvisit a ha p (List.mem_cons_of_mem _ hp)) hkept
      rw [alongCells?, hfirst]
      exact hrest

theorem alongRows?_eq {rows : List Row}
    (hvisit : ∀ a, P a → ∀ row ∈ rows, ∀ p ∈ row.placed,
      visit a p.1 p.2 = some (plain a p) ∧ P (plain a p)) {a : α} (ha : P a) :
    alongRows? visit a rows = some ((rows.flatMap Row.placed).foldl plain a) ∧
      P ((rows.flatMap Row.placed).foldl plain a) := by
  induction rows generalizing a with
  | nil => exact ⟨rfl, ha⟩
  | cons row rows ih =>
      obtain ⟨hfirst, hkept⟩ :=
        alongCells?_eq (fun a ha p hp => hvisit a ha row List.mem_cons_self p hp) ha
      have hrest := ih (fun a ha row hrow => hvisit a ha row (List.mem_cons_of_mem _ hrow)) hkept
      rw [List.flatMap_cons, List.foldl_append, alongRows?, List.foldlM_cons, hfirst]
      exact hrest

end Loops

section Grid

variable {columns : Nat} {rows : List Row} (h : Grid columns rows)
include h

/-- Widths are fitted to all cells, and there is one for each column all the while. -/
theorem alongRows?_fit {fit? : List Nat → Nat → Cell → Option (List Nat)}
    {fit : List Nat → Nat × Cell → List Nat}
    (hwiden : ∀ widths p, List.Forall₂ (· ≤ ·) widths (fit widths p))
    (hfit : ∀ (widths : List Nat) (p : Nat × Cell), 1 ≤ p.2.span →
      p.1 + p.2.span ≤ widths.length → fit? widths p.1 p.2 = some (fit widths p))
    {widths : List Nat} (hlength : widths.length = columns) :
    alongRows? fit? widths rows = some ((rows.flatMap Row.placed).foldl fit widths) ∧
      ((rows.flatMap Row.placed).foldl fit widths).length = columns := by
  refine alongRows?_eq (P := fun widths : List Nat => widths.length = columns)
    (fun widths hlength row hrow p hp => ?_) hlength
  obtain ⟨hspan, hcolumns⟩ := h.placed hrow hp
  exact ⟨hfit widths p hspan (hlength ▸ hcolumns), (hwiden widths p).length_eq ▸ hlength⟩

theorem columnWidths?_eq : columnWidths? rows = some (columnWidths rows) := by
  obtain ⟨hplain, hlength⟩ := alongRows?_fit h fitPlain_widens (fun _ _ => fitPlain?_eq)
    (List.length_replicate (n := columns) (a := 1))
  obtain ⟨hmerged, -⟩ := alongRows?_fit h fitMerged_widens (fun _ _ => fitMerged?_eq) hlength
  rw [h.columnWidths_eq, columnWidths?, h.foldl_gridWidth, hplain]
  exact hmerged

variable {row : Row} (hrow : row ∈ rows)
include hrow

theorem fields?_eq (draw : Nat → Cell → Text) :
    fields? draw (columnWidths rows) row = some (row.placed.map fun (column, cell) =>
      draw (spanWidth (columnWidths rows) column cell.span) cell) := by
  have hvisit : ∀ fields : List Text, True → ∀ p ∈ row.placed,
      (do
        let width ← spanWidth? (columnWidths rows) p.1 p.2.span
        return fields ++ [draw width p.2]) =
        some (fields ++ [draw (spanWidth (columnWidths rows) p.1 p.2.span) p.2]) ∧ True := by
    intro fields _ p hp
    obtain ⟨hspan, hcolumns⟩ := h.placed hrow hp
    rw [spanWidth?_eq hspan (h.length_columnWidths.symm ▸ hcolumns)]
    exact ⟨rfl, trivial⟩
  rw [fields?, (alongCells?_eq (P := fun _ => True) hvisit trivial).1,
    List.foldl_append_eq_append, List.nil_append]
  exact congrArg some List.map_eq_flatMap.symm

theorem line?_eq :
    line? (columnWidths rows) row = some (row.line (columnWidths rows)) := by
  rw [line?, fields?_eq h hrow]
  rfl

theorem underline?_eq :
    underline? (columnWidths rows) row = some (row.underline (columnWidths rows)) := by
  rw [underline?, fields?_eq h hrow]
  rfl

end Grid

end Checked

/-- Setting counts as many columns as the cells of the widest row cover. -/
theorem Settable.gridColumns_eq {table : Table} (h : table.Settable) : table.gridColumns =
    table.columnCount + if ∀ row ∈ table.rows, row.cells.length = 1 then 1 else 0 := by
  simp only [gridColumns, h.columnCount_eq, List.all_eq_true, beq_iff_eq]

/-- How a table is set within bounds: every row is filled up with blank cells to as many columns as
are counted, and to one more if every row has a single cell; no check fails while columns are
widened and lines are drawn; and every cell has its columns and fits them. -/
structure SetInBounds (table : Table) : Prop where
  filled : List.Forall₂
    (Row.Filled (table.columnCount + if ∀ row ∈ table.rows, row.cells.length = 1 then 1 else 0))
    table.rows table.layout
  widths_eq : Checked.columnWidths? table.layout = some (columnWidths table.layout)
  line_eq : ∀ row ∈ table.layout,
    Checked.line? (columnWidths table.layout) row = some (row.line (columnWidths table.layout))
  underline_eq : ∀ row ∈ table.layout,
    Checked.underline? (columnWidths table.layout) row =
      some (row.underline (columnWidths table.layout))
  covered : ∀ row ∈ table.layout, ∀ p ∈ row.placed,
    1 ≤ p.2.span ∧ p.1 + p.2.span ≤ (columnWidths table.layout).length
  fits : ∀ row ∈ table.layout, ∀ p ∈ row.placed,
    p.2.width ≤ spanWidth (columnWidths table.layout) p.1 p.2.span

/-- No access is out of bounds when a table is set, and no subtraction falls below zero. -/
theorem layout_in_bounds {table : Table} (h : table.Settable) : table.SetInBounds where
  filled := h.gridColumns_eq ▸ layout_rows h
  widths_eq := Checked.columnWidths?_eq (layout_grid h)
  line_eq _ hrow := Checked.line?_eq (layout_grid h) hrow
  underline_eq _ hrow := Checked.underline?_eq (layout_grid h) hrow
  covered _ hrow _ hp := (layout_grid h).length_columnWidths.symm ▸ (layout_grid h).placed hrow hp
  fits _ hrow _ hp := (layout_grid h).fits hrow hp

theorem layout_in_bounds_mixed :
    let table : Table :=
      ⟨[.ofTexts [['a']], ⟨[.spanning "wide text".toList 2, .plain ['b']]⟩, ⟨[]⟩,
        ⟨[.plain ['c'], .spanning "wider".toList 2]⟩]⟩
    table.Settable ∧ table.SetInBounds ∧
      Checked.columnWidths? table.layout = some [1, 7, 1] := by
  intro table
  have hsettable : table.Settable := ⟨by decide, by decide, by decide⟩
  have hset : table.SetInBounds := layout_in_bounds hsettable
  have hwidths : columnWidths table.layout = [1, 7, 1] := by decide
  exact ⟨hsettable, hset, hwidths ▸ hset.widths_eq⟩

example : Checked.line? [1] ⟨[.spanning ['a'] 2]⟩ = none := by decide

end WikiDocs.Table

import WikiDocs.Table
import WikiDocs.Text.Blank

/-!
Setting a table as a simple table: columns under rules of equals signs, one
blank between neighbours, and hyphens under the cells of a row that has a
merged one.
-/

namespace WikiDocs.Table

open Text

/-- The cells of a row with the numbers of their first columns, counted from `column`. -/
def placeFrom (column : Nat) : List Cell → List (Nat × Cell)
  | [] => []
  | cell :: cells => (column, cell) :: placeFrom (column + cell.span) cells

def Row.placed (row : Row) : List (Nat × Cell) := placeFrom 0 row.cells

/-- A row with blank cells up to `columns` columns. -/
def Row.fill (columns : Nat) (row : Row) : Row :=
  ⟨row.cells ++ List.replicate (columns - row.gridWidth) Cell.blank⟩

/-- The rows as they are set: filled up to a common width. A table whose rows all hold a single
cell gets a second, blank column. -/
def layout (table : Table) : List Row :=
  if table.rows.all fun row => row.cells.length == 1 then
    table.rows.map fun row => Row.fill (table.columnCount + 1) ⟨row.cells ++ [Cell.blank]⟩
  else table.rows.map (Row.fill table.columnCount)

/-- The width of the columns that a cell covers, with the blanks between them. -/
def spanWidth (widths : List Nat) (column span : Nat) : Nat :=
  ((widths.drop column).take span).foldr (· + ·) 0 + (span - 1)

/-- Widens the column of a plain cell to the cell. -/
def fitPlain (widths : List Nat) : Nat × Cell → List Nat
  | (column, cell) =>
    if cell.isMerged then widths else widths.modify column (max · cell.width)

/-- Widens the last column that a merged cell covers by what the cell lacks. -/
def fitMerged (widths : List Nat) : Nat × Cell → List Nat
  | (column, cell) =>
    if cell.isMerged then
      widths.modify (column + cell.span - 1)
        (· + (cell.width - spanWidth widths column cell.span))
    else widths

/-- The widths of the columns of rows: one at least, then as the plain cells need, then as the
merged cells need in addition. -/
def columnWidths (rows : List Row) : List Nat :=
  let narrow := List.replicate (rows.foldl (fun width row => max width row.gridWidth) 0) 1
  let cells := rows.flatMap Row.placed
  cells.foldl fitMerged (cells.foldl fitPlain narrow)

def rule (widths : List Nat) : Text :=
  [' '].intercalate (widths.map fun width => List.replicate width '=')

def Row.line (widths : List Nat) (row : Row) : Text :=
  trimEnd ([' '].intercalate (row.placed.map fun (column, cell) =>
    padEnd (spanWidth widths column cell.span) cell.text))

/-- The hyphens under the cells of a row. -/
def Row.underline (widths : List Nat) (row : Row) : Text :=
  [' '].intercalate (row.placed.map fun (column, cell) =>
    List.replicate (spanWidth widths column cell.span) '-')

/-- The lines of a row: hyphens follow if it has a merged cell. -/
def Row.lines (widths : List Nat) (row : Row) : List Text :=
  row.line widths :: if row.hasMerged then [row.underline widths] else []

/-- The lines of a table. A rule follows the header if there are more rows, and a blank line
closes the table. -/
def render (table : Table) : List Text :=
  let rows := layout table
  let widths := columnWidths rows
  match rows with
  | [] => []
  | header :: body =>
    [rule widths] ++ header.lines widths ++ (if body.isEmpty then [] else [rule widths]) ++
      body.flatMap (Row.lines widths) ++ [rule widths, []]

end WikiDocs.Table

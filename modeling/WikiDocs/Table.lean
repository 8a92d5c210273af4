import WikiDocs.Text

/-!
Tables: rows of cells, each of which covers one or more columns of a grid.
-/

namespace WikiDocs

namespace Table

/-- A cell: its text and the number of columns it covers. -/
structure Cell where
  text : Text
  span : Nat := 1
  deriving DecidableEq

namespace Cell

/-- A cell that covers one column. -/
def plain (text : Text) : Cell := { text }

def blank : Cell := plain []

/-- A cell that covers `span` columns, and at least one. -/
def spanning (text : Text) (span : Nat) : Cell := { text, span := max span 1 }

def width (cell : Cell) : Nat := cell.text.length

/-- Whether a cell covers more than one column. -/
def isMerged (cell : Cell) : Bool := 1 < cell.span

/-- Whether a cell is a plain one without text. A merged cell never is. -/
def isEmpty (cell : Cell) : Bool := !cell.isMerged && cell.text.isEmpty

end Cell

structure Row where
  cells : List Cell
  deriving DecidableEq

namespace Row

def ofTexts (texts : List Text) : Row := ⟨texts.map Cell.plain⟩

/-- The greatest number of columns that is counted: the greatest number of 64 bits. -/
def widthLimit : Nat := UInt64.size - 1

/-- The number of columns that a row covers, counted up to the limit. -/
def gridWidth (row : Row) : Nat :=
  row.cells.foldl (fun width cell => min (width + cell.span) widthLimit) 0

def hasMerged (row : Row) : Bool := row.cells.any Cell.isMerged

end Row
end Table

/-- A table; its first row is the header. -/
structure Table where
  rows : List Table.Row := []
  deriving DecidableEq

namespace Table

def rowCount (table : Table) : Nat := table.rows.length

/-- The number of columns of the widest row. -/
def columnCount (table : Table) : Nat :=
  table.rows.foldl (fun width row => max width row.gridWidth) 0

def isEmpty (table : Table) : Bool := table.rows.isEmpty

def hasMerged (table : Table) : Bool := table.rows.any Row.hasMerged

def addRow (table : Table) (row : Row) : Table := { rows := table.rows ++ [row] }

/-- Drops the empty cells, and then the rows without cells. -/
def prune (table : Table) : Table :=
  { rows := (table.rows.map fun row => ⟨row.cells.filter (!·.isEmpty)⟩).filter
      (!·.cells.isEmpty) }

end Table
end WikiDocs

import WikiDocs.Proofs.Columns

/-!
Tables read back by the columns of their rules. The runs of a rule give the
place of each column; the line of a row holds each of its cells at the place of
the columns that it covers, with one blank between neighbours.
-/

namespace WikiDocs

namespace Text

/-- The characters of a text from one position up to another. -/
def slice (start stop : Nat) (s : Text) : Text := (s.drop start).take (stop - start)

theorem slice_middle {front piece : Text} {start : Nat} (h : front.length = start) (back : Text) :
    slice start (start + piece.length) (front ++ piece ++ back) = piece := by
  subst h
  rw [slice, Nat.add_sub_cancel_left, List.append_assoc, List.drop_left, List.take_left]

/-- Joined pieces around one of them. -/
theorem intercalate_middle (separator : Char) (front : List Text) (piece : Text)
    (back : List Text) :
    [separator].intercalate (front ++ piece :: back) =
      front.flatMap (· ++ [separator]) ++ piece ++ back.flatMap (separator :: ·) := by
  induction front with
  | nil =>
      induction back generalizing piece with
      | nil => simp
      | cons next back ih =>
          have hrest := ih next
          rw [List.nil_append, List.flatMap_nil, List.nil_append] at hrest
          rw [List.nil_append, List.intercalate_cons_cons, hrest]
          simp
  | cons first front ih =>
      rw [List.cons_append, List.intercalate_cons_of_ne_nil (by simp), ih]
      simp

theorem trimEnd_append_blanks {s blanks : Text} (h : ∀ c ∈ blanks, isBlank c = true) :
    trimEnd (s ++ blanks) = trimEnd s := by
  rw [trimEnd, dropEndWhile, List.reverse_append,
    List.dropWhile_append_of_pos fun c hc => h c (List.mem_reverse.1 hc)]
  rfl

theorem exists_blanks (s : Text) :
    ∃ blanks, s = trimEnd s ++ blanks ∧ ∀ c ∈ blanks, isBlank c = true := by
  refine ⟨(s.reverse.takeWhile isBlank).reverse, ?_, fun c hc => ?_⟩
  · rw [trimEnd, dropEndWhile, ← List.reverse_append, List.takeWhile_append_dropWhile,
      List.reverse_reverse]
  · exact List.mem_takeWhile_imp (List.mem_reverse.1 hc)

/-- Which blanks end a text makes no difference to what is cut out of it, but for blanks. -/
theorem trimEnd_slice_append {s blanks : Text} (h : ∀ c ∈ blanks, isBlank c = true)
    (start stop : Nat) : trimEnd (slice start stop (s ++ blanks)) = trimEnd (slice start stop s) := by
  rw [slice, List.drop_append, List.take_append]
  refine trimEnd_append_blanks fun c hc => h c ?_
  exact List.mem_of_mem_drop (List.mem_of_mem_take hc)

/-- A line without the blanks at its end, filled up with spaces, holds what it held before. -/
theorem trimEnd_slice_padEnd (s : Text) (start stop : Nat) :
    trimEnd (slice start stop (padEnd s.length (trimEnd s))) = trimEnd (slice start stop s) := by
  obtain ⟨blanks, hs, hblanks⟩ := exists_blanks s
  have hspaces : ∀ c ∈ List.replicate (s.length - (trimEnd s).length) ' ', isBlank c = true := by
    intro c hc
    rw [List.eq_of_mem_replicate hc]
    rfl
  rw [padEnd, trimEnd_slice_append hspaces]
  conv => rhs; rw [hs]
  rw [trimEnd_slice_append hblanks]

theorem getElem?_padEnd_trimEnd {s : Text} {i : Nat} (h : s[i]? = some ' ') :
    (padEnd s.length (trimEnd s))[i]? = some ' ' := by
  obtain ⟨blanks, hs, -⟩ := exists_blanks s
  have hlt := (List.getElem?_eq_some_iff.1 h).1
  rw [padEnd, List.getElem?_append]
  split
  · rename_i hfront
    rw [hs, List.getElem?_append_left hfront] at h
    exact h
  · rw [List.getElem?_replicate, if_pos (by omega)]

end Text

namespace Table

open Text

/-- The position in a rule at which the run of a column starts. -/
def columnStart (widths : List Nat) (column : Nat) : Nat := (widths.take column).sum + column

/-- The position in a rule just behind the run of a column. -/
def columnStop (widths : List Nat) (column : Nat) : Nat :=
  columnStart widths column + widths[column]?.getD 0

section Positions

variable {widths : List Nat} {column span : Nat}

theorem columnStart_zero : columnStart widths 0 = 0 := rfl

theorem columnStart_add (hspan : 1 ≤ span) :
    columnStart widths (column + span) =
      columnStart widths column + spanWidth widths column span + 1 := by
  simp only [columnStart, spanWidth_eq, List.take_add, List.sum_append]
  omega

theorem columnStart_succ (h : column < widths.length) :
    columnStart widths (column + 1) = columnStop widths column + 1 := by
  rw [columnStop, columnStart, columnStart, List.take_add_one, List.getElem?_eq_getElem h,
    List.sum_append]
  simp only [Option.toList_some, List.sum_singleton, Option.getD_some]
  omega

/-- The columns that a cell covers end where its place ends. -/
theorem columnStop_span (hspan : 1 ≤ span) (hcolumns : column + span ≤ widths.length) :
    columnStop widths (column + span - 1) =
      columnStart widths column + spanWidth widths column span := by
  have hlast : columnStart widths (column + span - 1 + 1) =
      columnStop widths (column + span - 1) + 1 := columnStart_succ (by omega)
  rw [Nat.sub_add_cancel (by omega), columnStart_add hspan] at hlast
  omega

theorem spanWidth_pos (hone : ∀ width ∈ widths, 1 ≤ width) (hspan : 1 ≤ span)
    (hcolumns : column + span ≤ widths.length) : 1 ≤ spanWidth widths column span := by
  have hlength : ((widths.drop column).take span).length = span := by
    rw [List.length_take, List.length_drop]
    omega
  have hsum := List.length_le_sum_of_one_le ((widths.drop column).take span)
    fun width hwidth => hone width (List.mem_of_mem_drop (List.mem_of_mem_take hwidth))
  simp only [spanWidth_eq]
  omega

end Positions

theorem placeFrom_append (start : Nat) (front back : List Cell) :
    placeFrom start (front ++ back) =
      placeFrom start front ++ placeFrom (start + (front.map Cell.span).sum) back := by
  induction front generalizing start with
  | nil => rfl
  | cons cell front ih =>
      rw [List.cons_append, placeFrom, ih, placeFrom, List.map_cons, List.sum_cons,
        Nat.add_assoc, List.cons_append]

/-- A placed cell stands behind the cells whose columns come before it. -/
theorem exists_of_mem_placeFrom {start : Nat} {cells : List Cell} {p : Nat × Cell}
    (hp : p ∈ placeFrom start cells) :
    ∃ front back, cells = front ++ p.2 :: back ∧ p.1 = start + (front.map Cell.span).sum := by
  induction cells generalizing start with
  | nil => cases hp
  | cons cell cells ih =>
      obtain rfl | hp := List.mem_cons.1 hp
      · exact ⟨[], cells, rfl, rfl⟩
      · obtain ⟨front, back, rfl, hcolumn⟩ := ih hp
        refine ⟨cell :: front, back, rfl, ?_⟩
        rw [hcolumn, List.map_cons, List.sum_cons, Nat.add_assoc]

/-- The last cell of a row covers its last columns. -/
theorem exists_last_placed {row : Row} (hne : row.cells ≠ []) :
    ∃ p ∈ row.placed, p.1 + p.2.span = row.columns := by
  obtain hnil | ⟨front, last, hlast⟩ := List.eq_nil_or_concat row.cells
  · exact absurd hnil hne
  · rw [List.concat_eq_append] at hlast
    refine ⟨(0 + (front.map Cell.span).sum, last), ?_, ?_⟩
    · rw [Row.placed, hlast, placeFrom_append]
      exact List.mem_append_right _ List.mem_cons_self
    · rw [Row.columns, hlast, List.map_append, List.sum_append, Nat.zero_add, List.map_singleton,
        List.sum_singleton]

section Pieces

variable {widths : List Nat} {f : Nat × Cell → Text}

theorem columnStart_front {start : Nat} {front : List Cell}
    (hspan : ∀ cell ∈ front, 1 ≤ cell.span)
    (hf : ∀ p ∈ placeFrom start front, (f p).length = spanWidth widths p.1 p.2.span) :
    columnStart widths start + (((placeFrom start front).map f).flatMap (· ++ [' '])).length =
      columnStart widths (start + (front.map Cell.span).sum) := by
  induction front generalizing start with
  | nil => rfl
  | cons cell front ih =>
      rw [List.forall_mem_cons] at hspan
      rw [placeFrom, List.forall_mem_cons] at hf
      rw [placeFrom, List.map_cons, List.flatMap_cons, List.length_append, List.length_append,
        hf.1, List.map_cons, List.sum_cons, ← Nat.add_assoc start, ← ih hspan.2 hf.2,
        columnStart_add hspan.1]
      simp only [List.length_singleton]
      omega

/-- What stands in joined pieces outside of the pieces is blank. -/
theorem blank_or_covered {start : Nat} {cells : List Cell} (hspan : ∀ cell ∈ cells, 1 ≤ cell.span)
    (hf : ∀ p ∈ placeFrom start cells, (f p).length = spanWidth widths p.1 p.2.span)
    {i : Nat} {c : Char} (h : ([' '].intercalate ((placeFrom start cells).map f))[i]? = some c) :
    c = ' ' ∨ ∃ p ∈ placeFrom start cells, columnStart widths p.1 ≤ columnStart widths start + i ∧
      columnStart widths start + i < columnStart widths p.1 + spanWidth widths p.1 p.2.span := by
  induction cells generalizing start i with
  | nil => cases h
  | cons cell cells ih =>
      rw [List.forall_mem_cons] at hspan
      rw [placeFrom, List.forall_mem_cons] at hf
      by_cases hi : i < (f (start, cell)).length
      · exact .inr ⟨(start, cell), List.mem_cons_self, Nat.le_add_right ..,
          Nat.add_lt_add_left (hf.1 ▸ hi) _⟩
      · cases cells with
        | nil =>
            rw [placeFrom, placeFrom, List.map_singleton, List.intercalate_singleton,
              List.getElem?_eq_none (Nat.le_of_not_lt hi)] at h
            cases h
        | cons next cells =>
            rw [placeFrom, List.map_cons, List.intercalate_cons_of_ne_nil (by simp [placeFrom]),
              List.append_assoc, List.getElem?_append_right (Nat.le_of_not_lt hi)] at h
            -- The first character behind a piece is the blank, and then the other pieces follow.
            cases hoffset : i - (f (start, cell)).length with
            | zero =>
                rw [hoffset] at h
                exact .inl (Option.some.inj h).symm
            | succ offset =>
                rw [hoffset] at h
                refine (ih hspan.2 hf.2 h).imp_right ?_
                rintro ⟨p, hp, hstart, hstop⟩
                rw [columnStart_add hspan.1, ← hf.1] at hstart hstop
                exact ⟨p, List.mem_cons_of_mem _ hp, by omega, by omega⟩

variable {row : Row} (hspan : ∀ cell ∈ row.cells, 1 ≤ cell.span)
  (hf : ∀ p ∈ row.placed, (f p).length = spanWidth widths p.1 p.2.span)
include hspan hf

/-- Pieces that are as wide as the columns of the cells of a row stand at these columns when they
are joined. -/
theorem exists_around {p : Nat × Cell} (hp : p ∈ row.placed) :
    ∃ before after, [' '].intercalate (row.placed.map f) = before ++ f p ++ after ∧
      before.length = columnStart widths p.1 ∧
      (p.1 + p.2.span < row.columns → ∃ rest, after = ' ' :: rest) ∧
      (p.1 + p.2.span = row.columns → after = []) := by
  obtain ⟨front, back, hcells, hcolumn⟩ := exists_of_mem_placeFrom hp
  have hplaced : row.placed =
      placeFrom 0 front ++ p :: placeFrom (p.1 + p.2.span) back := by
    rw [Row.placed, hcells, placeFrom_append, ← hcolumn, placeFrom]
  have hcolumns : row.columns = p.1 + p.2.span + (back.map Cell.span).sum := by
    rw [Row.columns, hcells, List.map_append, List.sum_append, List.map_cons, List.sum_cons,
      hcolumn]
    omega
  rw [hcells] at hspan
  rw [hplaced] at hf ⊢
  have hfront : ∀ cell ∈ front, 1 ≤ cell.span := fun cell hcell =>
    hspan cell (List.mem_append_left _ hcell)
  have hlength := columnStart_front hfront fun q hq => hf q (List.mem_append_left _ hq)
  rw [← hcolumn, columnStart_zero, Nat.zero_add] at hlength
  rw [List.map_append, List.map_cons, intercalate_middle]
  refine ⟨_, _, rfl, hlength, fun hlt => ?_, fun heq => ?_⟩
  · cases back with
    | nil => simp [hcolumns] at hlt
    | cons next back => exact ⟨_, rfl⟩
  · cases back with
    | nil => rfl
    | cons next back =>
        have hnext := hspan next (by simp)
        rw [List.map_cons, List.sum_cons] at hcolumns
        omega

theorem length_intercalate (hne : row.cells ≠ []) :
    ([' '].intercalate (row.placed.map f)).length + 1 = columnStart widths row.columns := by
  obtain ⟨p, hp, hlast⟩ := exists_last_placed hne
  obtain ⟨before, after, hline, hbefore, -, hafter⟩ := exists_around hspan hf hp
  have hpos : 1 ≤ p.2.span := hspan p.2 (mem_placeFrom hp).1
  rw [hline, hafter hlast, List.append_nil, List.length_append, hbefore, hf p hp, ← hlast,
    columnStart_add hpos]

theorem slice_placed {p : Nat × Cell} (hp : p ∈ row.placed) :
    slice (columnStart widths p.1) (columnStart widths p.1 + spanWidth widths p.1 p.2.span)
      ([' '].intercalate (row.placed.map f)) = f p := by
  obtain ⟨before, after, hline, hbefore, -⟩ := exists_around hspan hf hp
  rw [hline, ← hf p hp, slice_middle hbefore]

theorem getElem?_gap {p : Nat × Cell} (hp : p ∈ row.placed)
    (hlt : p.1 + p.2.span < row.columns) :
    ([' '].intercalate (row.placed.map f))[columnStart widths p.1 +
      spanWidth widths p.1 p.2.span]? = some ' ' := by
  obtain ⟨before, after, hline, hbefore, hafter, -⟩ := exists_around hspan hf hp
  obtain ⟨rest, rfl⟩ := hafter hlt
  have hlength : (before ++ f p).length =
      columnStart widths p.1 + spanWidth widths p.1 p.2.span := by
    rw [List.length_append, hbefore, hf p hp]
  rw [hline, ← hlength, List.getElem?_append_right (Nat.le_refl _), Nat.sub_self]
  rfl

/-- Joined pieces end as the last of them does. -/
theorem mem_getLast?_intercalate (hwidth : ∀ p ∈ row.placed, f p ≠ []) {c : Char}
    (h : c ∈ ([' '].intercalate (row.placed.map f)).getLast?) :
    ∃ p ∈ row.placed, c ∈ (f p).getLast? := by
  by_cases hne : row.cells = []
  · rw [Row.placed, hne] at h
    cases h
  · obtain ⟨p, hp, hlast⟩ := exists_last_placed hne
    obtain ⟨before, after, hline, -, -, hafter⟩ := exists_around hspan hf hp
    obtain ⟨d, hd⟩ := Option.ne_none_iff_exists'.1 (mt List.getLast?_eq_none_iff.1 (hwidth p hp))
    rw [hline, hafter hlast, List.append_nil, List.getLast?_append, hd] at h
    exact ⟨p, hp, hd.trans h⟩

end Pieces

section Rule

variable {widths : List Nat}

theorem spanWidth_one {column : Nat} (h : column < widths.length) :
    spanWidth widths column 1 = widths[column] := by
  rw [spanWidth_eq, List.take_one_drop_eq_of_lt_length h]
  simp

theorem placeFrom_blanks (start n : Nat) :
    placeFrom start (List.replicate n Cell.blank) =
      (List.range' start n).map fun column => (column, Cell.blank) := by
  induction n generalizing start with
  | zero => rfl
  | succ n ih =>
      rw [List.replicate_succ, placeFrom, List.range'_succ, List.map_cons]
      exact congrArg _ (ih (start + 1))

/-- A row of one blank cell for each column. -/
def unitRow (widths : List Nat) : Row := ⟨List.replicate widths.length Cell.blank⟩

/-- A rule has its runs where a row of one cell for each column has its cells. -/
theorem rule_eq (widths : List Nat) :
    rule widths = [' '].intercalate ((unitRow widths).placed.map fun p =>
      List.replicate (spanWidth widths p.1 p.2.span) '=') := by
  have hruns : widths.map (List.replicate · '=') = (unitRow widths).placed.map fun p =>
      List.replicate (spanWidth widths p.1 p.2.span) '=' := by
    rw [Row.placed, unitRow, placeFrom_blanks, List.map_map]
    refine List.ext_getElem (by simp) fun column hcolumn _ => ?_
    rw [List.length_map] at hcolumn
    simp [← spanWidth_one hcolumn, Cell.blank, Cell.plain]
  rw [rule, hruns]

theorem mem_unitRow_placed {column : Nat} (h : column < widths.length) :
    (column, Cell.blank) ∈ (unitRow widths).placed := by
  rw [Row.placed, unitRow, placeFrom_blanks]
  exact List.mem_map_of_mem (List.mem_range'_1.2 ⟨Nat.zero_le _, by omega⟩)

theorem unitRow_span (widths : List Nat) : ∀ cell ∈ (unitRow widths).cells, 1 ≤ cell.span := by
  intro cell hcell
  rw [List.eq_of_mem_replicate hcell]
  exact Nat.le_refl 1

theorem length_rule (hne : widths ≠ []) :
    (rule widths).length + 1 = columnStart widths widths.length := by
  have hcells : (unitRow widths).cells ≠ [] := by simpa [unitRow] using hne
  rw [rule_eq, length_intercalate (unitRow_span widths) (fun p _ => List.length_replicate) hcells,
    unitRow, Row.columns_blanks]

/-- The run of a column. -/
theorem slice_rule {column : Nat} (h : column < widths.length) :
    slice (columnStart widths column) (columnStop widths column) (rule widths) =
      List.replicate widths[column] '=' := by
  have hrun := slice_placed (f := fun p => List.replicate (spanWidth widths p.1 p.2.span) '=')
    (unitRow_span widths) (fun p _ => List.length_replicate) (mem_unitRow_placed h)
  rw [← rule_eq] at hrun
  rw [columnStop, List.getElem?_eq_getElem h, Option.getD_some, ← spanWidth_one h]
  exact hrun

end Rule

/-- The line of a row filled up with spaces to the length of the rule. -/
def Row.paddedLine (widths : List Nat) (row : Row) : Text :=
  padEnd (rule widths).length (row.line widths)

/-- A row whose cells stand under the runs of the rule that belong to the columns they cover. -/
structure Row.Aligned (widths : List Nat) (row : Row) : Prop where
  columns_eq : row.columns = widths.length
  cell_eq : ∀ column cell, (column, cell) ∈ row.placed →
    trimEnd (slice (columnStart widths column) (columnStop widths (column + cell.span - 1))
      (row.paddedLine widths)) = trimEnd cell.text
  /-- One blank stands between a cell and the columns behind it. -/
  gap : ∀ column cell, (column, cell) ∈ row.placed → column + cell.span < widths.length →
    columnStart widths (column + cell.span) = columnStop widths (column + cell.span - 1) + 1 ∧
      (row.paddedLine widths)[columnStop widths (column + cell.span - 1)]? = some ' '
  underline_eq : ∀ i, (row.underline widths)[i]? = some '-' ↔
    ∃ column cell, (column, cell) ∈ row.placed ∧ columnStart widths column ≤ i ∧
      i < columnStop widths (column + cell.span - 1)

namespace Grid

variable {columns : Nat} {rows : List Row} (h : Grid columns rows) {row : Row} (hrow : row ∈ rows)
include h hrow

theorem length_padded : ∀ p ∈ row.placed,
    (padEnd (spanWidth (columnWidths rows) p.1 p.2.span) p.2.text).length =
      spanWidth (columnWidths rows) p.1 p.2.span := by
  intro p hp
  have hfits := h.fits hrow hp
  rw [padEnd, List.length_append, List.length_replicate]
  exact Nat.add_sub_cancel' hfits

/-- Before the blanks at its end are dropped, the line of a row is as long as the rule. -/
theorem length_line :
    ([' '].intercalate (row.placed.map fun p =>
      padEnd (spanWidth (columnWidths rows) p.1 p.2.span) p.2.text)).length =
      (rule (columnWidths rows)).length := by
  by_cases hne : row.cells = []
  · have hcolumns := h.columns_eq row hrow
    have hlength := h.length_columnWidths
    rw [Row.columns, hne] at hcolumns
    rw [← hcolumns] at hlength
    rw [Row.placed, hne, List.length_eq_zero_iff.1 hlength]
    rfl
  · have hline := length_intercalate (h.span_pos row hrow) (h.length_padded hrow) hne
    have hpos : columnWidths rows ≠ [] := by
      obtain ⟨p, hp, -⟩ := exists_last_placed hne
      obtain ⟨hspan, hle⟩ := h.placed hrow hp
      rw [← List.length_pos_iff, h.length_columnWidths]
      omega
    have hrule := length_rule hpos
    rw [h.columns_eq row hrow, ← h.length_columnWidths, ← hrule] at hline
    exact Nat.succ.inj hline

theorem paddedLine_eq :
    row.paddedLine (columnWidths rows) =
      let line := [' '].intercalate (row.placed.map fun p =>
        padEnd (spanWidth (columnWidths rows) p.1 p.2.span) p.2.text)
      padEnd line.length (trimEnd line) := by
  rw [Row.paddedLine, ← h.length_line hrow]
  rfl

/-- Every row can be read by the columns of the rule. -/
theorem aligned : row.Aligned (columnWidths rows) := by
  have hspans := h.span_pos row hrow
  have hlength := h.length_columnWidths
  have hcolumns := h.columns_eq row hrow
  have hstop : ∀ column cell, (column, cell) ∈ row.placed →
      columnStop (columnWidths rows) (column + cell.span - 1) =
        columnStart (columnWidths rows) column +
          spanWidth (columnWidths rows) column cell.span := by
    intro column cell hp
    obtain ⟨hspan, hle⟩ := h.placed hrow hp
    exact columnStop_span hspan (by rwa [hlength])
  refine ⟨hcolumns.trans hlength.symm, fun column cell hp => ?_, fun column cell hp hlt => ?_,
    fun i => ⟨fun hi => ?_, ?_⟩⟩
  · rw [h.paddedLine_eq hrow, hstop column cell hp, trimEnd_slice_padEnd,
      slice_placed hspans (h.length_padded hrow) hp, padEnd]
    refine trimEnd_append_blanks fun c hc => ?_
    rw [List.eq_of_mem_replicate hc]
    rfl
  · obtain ⟨hspan, hle⟩ := h.placed hrow hp
    rw [hlength, ← hcolumns] at hlt
    refine ⟨by rw [hstop column cell hp, columnStart_add hspan], ?_⟩
    rw [h.paddedLine_eq hrow, hstop column cell hp]
    exact getElem?_padEnd_trimEnd (getElem?_gap hspans (h.length_padded hrow) hp hlt)
  · obtain hblank | ⟨p, hp, hstart, hend⟩ :=
      blank_or_covered hspans (fun p _ => List.length_replicate) hi
    · exact absurd hblank (by decide)
    · rw [columnStart_zero, Nat.zero_add] at hstart hend
      exact ⟨p.1, p.2, hp, hstart, by rwa [hstop p.1 p.2 hp]⟩
  · rintro ⟨column, cell, hp, hstart, hend⟩
    rw [hstop column cell hp] at hend
    have hpiece := slice_placed (f := fun p : Nat × Cell =>
      List.replicate (spanWidth (columnWidths rows) p.1 p.2.span) '-') hspans
      (fun p _ => List.length_replicate) hp
    have hchar := congrArg (·[i - columnStart (columnWidths rows) column]?) hpiece
    simp only [slice, List.getElem?_take, List.getElem?_drop, List.getElem?_replicate] at hchar
    rw [if_pos (by omega), if_pos (by omega), Nat.add_sub_cancel' hstart] at hchar
    exact hchar

end Grid

section Lines

variable {widths : List Nat}

theorem runs_last (hone : ∀ width ∈ widths, 1 ≤ width) {row : Row}
    (hspan : ∀ cell ∈ row.cells, 1 ≤ cell.span) (hcolumns : row.columns = widths.length)
    {mark : Char} (hmark : isBlank mark = false) :
    ∀ c ∈ ([' '].intercalate (row.placed.map fun p =>
      List.replicate (spanWidth widths p.1 p.2.span) mark)).getLast?, isBlank c = false := by
  intro c hc
  have hne : ∀ p ∈ row.placed, List.replicate (spanWidth widths p.1 p.2.span) mark ≠ [] := by
    intro p hp
    obtain ⟨hmem, hle⟩ := mem_placeFrom hp
    rw [Nat.zero_add, ← Row.columns, hcolumns] at hle
    have hpos := spanWidth_pos hone (hspan _ hmem) hle
    exact mt (List.replicate_eq_nil_iff _).1 (Nat.ne_of_gt hpos)
  obtain ⟨p, -, hc⟩ := mem_getLast?_intercalate hspan (fun p _ => List.length_replicate) hne hc
  rw [List.eq_of_mem_replicate (List.mem_of_getLast? hc)]
  exact hmark

theorem rule_last (hone : ∀ width ∈ widths, 1 ≤ width) :
    ∀ c ∈ (rule widths).getLast?, isBlank c = false := by
  rw [rule_eq]
  exact runs_last hone (unitRow_span widths) (Row.columns_blanks _) (by decide)

theorem line_last (row : Row) : ∀ c ∈ (row.line widths).getLast?, isBlank c = false :=
  fun _ hc => getLast?_dropEndWhile hc

theorem Row.Filled.hasMerged_eq {columns : Nat} {row laid : Row} (h : Row.Filled columns row laid) :
    laid.hasMerged = row.hasMerged := by
  obtain ⟨-, n, hn⟩ := h
  have hblank : (List.replicate n Cell.blank).any Cell.isMerged = false := by
    rw [List.any_eq_false]
    intro cell hcell
    rw [List.eq_of_mem_replicate hcell]
    decide
  rw [Row.hasMerged, hn, List.any_append, hblank, Bool.or_false]
  rfl

end Lines

/-- The lines of a row of a table that is set as `laid`: hyphens follow if the row has a merged
cell. -/
def rowLines (widths : List Nat) (row laid : Row) : List Text :=
  laid.line widths :: if row.hasMerged then [laid.underline widths] else []

theorem zipWith_rowLines {columns : Nat} {rows laid : List Row}
    (h : List.Forall₂ (Row.Filled columns) rows laid) (widths : List Nat) :
    List.zipWith (rowLines widths) rows laid = laid.map (Row.lines widths) := by
  induction h with
  | nil => rfl
  | cons hrow _ ih =>
      rw [List.zipWith_cons_cons, List.map_cons, ih, rowLines, ← hrow.hasMerged_eq]
      rfl

/-- A table set in rows and columns of some widths. -/
structure SetIn (table : Table) (rows : List Row) (widths : List Nat) : Prop where
  /-- Each row is filled with blank cells. -/
  filled : List.Forall₂ (Row.Filled table.gridColumns) table.rows rows
  length_widths : widths.length = table.gridColumns
  one_le : ∀ width ∈ widths, 1 ≤ width
  lines_eq : ∃ header body,
    List.zipWith (rowLines widths) table.rows rows = header :: body ∧
      table.render = [rule widths] ++ header ++
        (if 1 < table.rowCount then [rule widths] else []) ++ body.flatten ++ [rule widths, []]
  no_blank_end : ∀ line ∈ table.render, ∀ c ∈ line.getLast?, isBlank c = false
  runs_eq : rule widths = [' '].intercalate (widths.map fun width => List.replicate width '=')
  run_eq : ∀ column, (h : column < widths.length) →
    slice (columnStart widths column) (columnStop widths column) (rule widths) =
      List.replicate widths[column] '='
  aligned : ∀ row ∈ rows, row.Aligned widths
  unmerged : table.hasMerged = false →
    widths = (List.range table.gridColumns).map (widest table.rows)

section Settable

variable {table : Table} (h : table.Settable)
include h

theorem Settable.lines_eq : ∃ header body,
    List.zipWith (rowLines (columnWidths table.layout)) table.rows table.layout = header :: body ∧
      table.render = [rule (columnWidths table.layout)] ++ header ++
        (if 1 < table.rowCount then [rule (columnWidths table.layout)] else []) ++ body.flatten ++
          [rule (columnWidths table.layout), []] := by
  have hfilled := layout_rows h
  rw [zipWith_rowLines hfilled, render]
  cases hrows : table.layout with
  | nil => exact absurd hrows (layout_grid h).rows_ne
  | cons header body =>
      have hcount : table.rowCount = body.length + 1 := by
        rw [rowCount, hfilled.length_eq, hrows, List.length_cons]
      refine ⟨_, _, rfl, ?_⟩
      simp only [hcount, List.flatMap_def]
      cases body <;> simp

theorem Settable.no_blank_end :
    ∀ line ∈ table.render, ∀ c ∈ line.getLast?, isBlank c = false := by
  have hgrid := layout_grid h
  have hrule := rule_last hgrid.one_le
  have hrow : ∀ row ∈ table.layout, ∀ line ∈ row.lines (columnWidths table.layout),
      ∀ c ∈ line.getLast?, isBlank c = false := by
    intro row hrow line hline
    rw [Row.lines, List.mem_cons] at hline
    obtain rfl | hline := hline
    · exact line_last row
    · split at hline
      · rw [List.mem_singleton.1 hline]
        exact runs_last hgrid.one_le (hgrid.span_pos row hrow)
          ((hgrid.columns_eq row hrow).trans hgrid.length_columnWidths.symm) (by decide)
      · cases hline
  intro line hline
  rw [render] at hline
  cases hrows : table.layout with
  | nil => exact absurd hrows hgrid.rows_ne
  | cons header body =>
      rw [hrows] at hline hrule hrow
      simp only [List.mem_append, List.mem_flatMap, List.mem_cons, List.not_mem_nil,
        or_false] at hline
      obtain (((rfl | hline) | hline) | ⟨row, hmem, hline⟩) | rfl | rfl := hline
      · exact hrule
      · exact hrow header List.mem_cons_self line hline
      · split at hline
        · cases hline
        · rw [List.mem_singleton.1 hline]
          exact hrule
      · exact hrow row (List.mem_cons_of_mem _ hmem) line hline
      · exact hrule
      · rintro c ⟨⟩

theorem Settable.unmerged (hmerged : table.hasMerged = false) :
    columnWidths table.layout = (List.range table.gridColumns).map (widest table.rows) := by
  have hfilled := layout_rows h
  have hgrid := layout_grid h
  have hplain : ∀ laid ∈ table.layout, ∀ cell ∈ laid.cells, cell.span = 1 := by
    intro laid hlaid cell hcell
    obtain ⟨row, hrow, hrowfilled⟩ := exists_of_forall₂_of_mem hfilled hlaid
    have hno := List.any_eq_false.1 hmerged row hrow
    rw [← hrowfilled.hasMerged_eq, Row.hasMerged, List.any_eq_true] at hno
    have hpos := hgrid.span_pos laid hlaid cell hcell
    have hle : ¬ 1 < cell.span := fun hlt =>
      hno ⟨cell, hcell, decide_eq_true hlt⟩
    omega
  rw [hgrid.columnWidths_unmerged hplain]
  exact List.map_congr_left fun column _ => widest_filled hfilled column

end Settable

/-- A table that is set can be read back by the columns of its rule. -/
theorem layout_readable {table : Table} (h : table.Settable) :
    table.SetIn table.layout (columnWidths table.layout) where
  filled := layout_rows h
  length_widths := (layout_grid h).length_columnWidths
  one_le := (layout_grid h).one_le
  lines_eq := h.lines_eq
  no_blank_end := h.no_blank_end
  runs_eq := rfl
  run_eq _ hcolumn := slice_rule hcolumn
  aligned _ hrow := (layout_grid h).aligned hrow
  unmerged := h.unmerged

theorem layout_readable_merged :
    let table : Table := ⟨[.ofTexts [['a'], ['b']], ⟨[.spanning "wide text".toList 2]⟩]⟩
    table.Settable ∧ table.SetIn table.layout [1, 7] := by
  intro table
  have hsettable : table.Settable := ⟨by decide, by decide, by decide⟩
  have hwidths : columnWidths table.layout = [1, 7] := by decide
  exact ⟨hsettable, hwidths ▸ layout_readable hsettable⟩

end Table
end WikiDocs

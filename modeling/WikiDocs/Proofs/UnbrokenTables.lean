import WikiDocs.Proofs.Columns
import WikiDocs.Proofs.Joining
import WikiDocs.Table.Markup

/-!
Tables without line breaks. A cell takes its text from one line of the markup,
and a line of a set table is made of cells, blanks and the characters of rules;
so no line of a table that was read holds a line break.
-/

namespace WikiDocs

namespace Text

theorem dropEndWhile_subset (p : Char → Bool) (s : Text) : dropEndWhile p s ⊆ s := by
  apply List.IsPrefix.subset
  exact dropEndWhile_prefix p s

theorem trim_subset (s : Text) : trim s ⊆ s := by
  intro c hc
  exact (List.dropWhile_suffix isBlank).subset (dropEndWhile_subset isBlank _ hc)

theorem not_mem_of_mem_splitOn {c : Char} {s piece : Text} (h : piece ∈ splitOn c s) :
    c ∉ piece := by
  induction s generalizing piece with
  | nil =>
      rw [List.mem_singleton.1 h]
      exact List.not_mem_nil
  | cons d s ih =>
      rw [splitOn] at h
      split at h
      · obtain rfl | h := List.mem_cons.1 h
        · exact List.not_mem_nil
        · exact ih h
      · rename_i hd
        cases hs : splitOn c s with
        | nil => exact absurd hs (splitOn_ne_nil c s)
        | cons first more =>
            rw [hs] at h ih
            obtain rfl | h := List.mem_cons.1 h
            · rw [List.mem_cons, not_or]
              exact ⟨Ne.symm hd, ih List.mem_cons_self⟩
            · exact ih (List.mem_cons_of_mem _ h)

theorem dropReturn_subset (line : Text) : dropReturn line ⊆ line := by
  rw [dropReturn]
  split
  · exact List.dropLast_subset line
  · exact List.Subset.refl line

theorem exists_piece_of_mem {pieces : List Text} {line : Text} (h : line ∈ linesOfPieces pieces) :
    ∃ piece ∈ pieces, line ⊆ piece := by
  fun_induction linesOfPieces pieces with
  | case1 => cases h
  | case2 => cases h
  | case3 last _ =>
      rw [List.mem_singleton.1 h]
      exact ⟨last, List.mem_singleton_self _, List.Subset.refl _⟩
  | case4 piece more _ ih =>
      obtain rfl | h := List.mem_cons.1 h
      · exact ⟨piece, List.mem_cons_self, dropReturn_subset piece⟩
      · obtain ⟨other, hmem, hsub⟩ := ih h
        exact ⟨other, List.mem_cons_of_mem _ hmem, hsub⟩

/-- A line of a text holds no line break. -/
theorem break_not_mem_lines {s line : Text} (h : line ∈ lines s) : '\n' ∉ line := by
  obtain ⟨piece, hpiece, hsub⟩ := exists_piece_of_mem h
  exact fun hbreak => not_mem_of_mem_splitOn hpiece (hsub hbreak)

end Text

namespace Table

open Text

def MarkupLine.text? : MarkupLine → Option Text
  | .cell text | .spanningCell text _ => some text
  | .rowSeparator | .directive | .ignored => none

theorem unframe_subset (line : Text) : unframe line ⊆ line := by
  intro c hc
  have hbars := (List.dropWhile_suffix _).subset (dropEndWhile_subset _ _ (trim_subset _ hc))
  exact (List.dropWhile_suffix _).subset (dropEndWhile_subset _ _ hbars)

theorem dropQuote_suffix (s : Text) : dropQuote s <:+ s := by
  rw [dropQuote.eq_def]
  split
  · exact List.suffix_cons _ _
  · exact List.suffix_cons _ _
  · exact List.suffix_refl _

theorem valueAt?_suffix {s digits text : Text} (h : valueAt? s = some (digits, text)) :
    text <:+ s := by
  rw [valueAt?.eq_def] at h
  split at h
  · simp only at h
    split at h
    · cases h
      refine (List.dropWhile_suffix _).trans ((dropQuote_suffix _).trans ?_)
      exact (List.dropWhile_suffix _).trans ((dropQuote_suffix _).trans (List.suffix_cons _ _))
    · cases h
  · cases h

theorem value?_suffix {s digits text : Text} (h : value? s = some (digits, text)) : text <:+ s := by
  fun_induction value? s with
  | case1 s found hfound =>
      cases h
      exact valueAt?_suffix hfound
  | case2 => cases h
  | case3 c s _ ih => exact (ih h).trans (List.suffix_cons c s)

theorem plainCell_subset {line text : Text} (h : (plainCell line).text? = some text) :
    text ⊆ line := by
  rw [plainCell.eq_def] at h
  split at h
  · cases h
    exact List.subset_cons_of_subset _ (trim_subset _)
  · cases h
    exact List.subset_cons_of_subset _ (trim_subset _)
  · cases h

/-- The text of a cell is taken from its line. -/
theorem classify_subset {markup text : Text} (h : (classify markup).text? = some text) :
    text ⊆ markup := by
  refine List.Subset.trans ?_ (unframe_subset markup)
  simp only [classify] at h
  split at h
  · cases h
  split at h
  · cases h
  split at h
  · split at h
    · rename_i span text' hspanned
      cases h
      simp only [spanned?] at hspanned
      split at hspanned
      · rename_i hvalue
        split at hspanned
        · cases hspanned
          exact List.Subset.trans (trim_subset _) (value?_suffix hvalue).subset
        · cases hspanned
      · cases hspanned
    · exact plainCell_subset h
  · exact plainCell_subset h

/-- What holds for all texts of the lines holds for the cells of the rows that they make. -/
theorem forall_rowsFrom {P : Text → Prop} {cells : List Cell} {lines : List MarkupLine}
    (hcells : ∀ cell ∈ cells, P cell.text) (hlines : ∀ line ∈ lines, ∀ text ∈ line.text?, P text) :
    ∀ row ∈ rowsFrom cells lines, ∀ cell ∈ row.cells, P cell.text := by
  have hadd : ∀ (cells : List Cell) (added : Cell), (∀ cell ∈ cells, P cell.text) →
      P added.text → ∀ cell ∈ cells ++ [added], P cell.text := by
    intro cells added hcells hadded
    rw [List.forall_mem_append, List.forall_mem_singleton]
    exact ⟨hcells, hadded⟩
  fun_induction rowsFrom cells lines with
  | case1 cells =>
      rw [List.forall_mem_singleton]
      exact hcells
  | case2 cells lines _ ih =>
      exact ih (by simp) (List.forall_mem_cons.1 hlines).2
  | case3 cells lines _ ih =>
      rw [List.forall_mem_cons]
      exact ⟨hcells, ih (by simp) (List.forall_mem_cons.1 hlines).2⟩
  | case4 cells text lines ih | case5 cells text span lines ih =>
      obtain ⟨hline, hlines⟩ := List.forall_mem_cons.1 hlines
      exact ih (hadd cells _ hcells (hline text rfl)) hlines
  | case6 cells lines ih | case7 cells lines ih =>
      exact ih hcells (List.forall_mem_cons.1 hlines).2

/-- A table without line breaks in its cells. -/
def Unbroken (table : Table) : Prop := ∀ row ∈ table.rows, ∀ cell ∈ row.cells, '\n' ∉ cell.text

theorem unbroken_prune {table : Table} (h : table.Unbroken) : table.prune.Unbroken := by
  intro pruned hpruned cell hcell
  obtain ⟨row, hrow, rfl⟩ := List.mem_map.1 (List.mem_filter.1 hpruned).1
  exact h row hrow cell (List.mem_filter.1 hcell).1

theorem unbroken_ofMarkup (source : Text) : (ofMarkup source).Unbroken := by
  have hlines : ∀ line ∈ (lines source).map classify, ∀ text ∈ line.text?, '\n' ∉ text := by
    intro line hline text htext hbreak
    obtain ⟨markup, hmarkup, rfl⟩ := List.mem_map.1 hline
    exact break_not_mem_lines hmarkup (classify_subset htext hbreak)
  exact unbroken_prune (forall_rowsFrom (List.forall_mem_nil _) hlines)

theorem unbroken_fill {row : Row} (h : ∀ cell ∈ row.cells, '\n' ∉ cell.text) (columns : Nat) :
    ∀ cell ∈ (row.fill columns).cells, '\n' ∉ cell.text := by
  obtain ⟨n, hn⟩ := Row.cells_fill columns row
  rw [hn, List.forall_mem_append]
  refine ⟨h, fun cell hcell => ?_⟩
  rw [(List.mem_replicate.1 hcell).2]
  exact List.not_mem_nil

theorem unbroken_layout {table : Table} (h : table.Unbroken) : Unbroken ⟨table.layout⟩ := by
  intro laid hlaid
  simp only [layout] at hlaid
  split at hlaid
  · obtain ⟨row, hrow, rfl⟩ := List.mem_map.1 hlaid
    refine unbroken_fill ?_ _
    rw [List.forall_mem_append, List.forall_mem_singleton]
    exact ⟨h row hrow, List.not_mem_nil⟩
  · obtain ⟨row, hrow, rfl⟩ := List.mem_map.1 hlaid
    exact unbroken_fill (h row hrow) _

theorem break_not_mem_intercalate {pieces : List Text} (h : ∀ piece ∈ pieces, '\n' ∉ piece) :
    '\n' ∉ [' '].intercalate pieces := by
  intro hbreak
  obtain hblank | ⟨piece, hpiece, hbreak⟩ := mem_of_mem_intercalate hbreak
  · exact absurd hblank (by decide)
  · exact h piece hpiece hbreak

theorem break_not_mem_replicate {c : Char} (hc : c ≠ '\n') (n : Nat) :
    '\n' ∉ List.replicate n c := by
  intro hbreak
  exact hc (List.mem_replicate.1 hbreak).2.symm

theorem break_not_mem_rule (widths : List Nat) : '\n' ∉ rule widths := by
  refine break_not_mem_intercalate fun piece hpiece => ?_
  obtain ⟨width, -, rfl⟩ := List.mem_map.1 hpiece
  exact break_not_mem_replicate (by decide) width

theorem break_not_mem_rowLines {row : Row} (h : ∀ cell ∈ row.cells, '\n' ∉ cell.text)
    (widths : List Nat) : ∀ line ∈ row.lines widths, '\n' ∉ line := by
  have hline : '\n' ∉ row.line widths := by
    intro hbreak
    refine break_not_mem_intercalate (fun piece hpiece => ?_) (dropEndWhile_subset isBlank _ hbreak)
    obtain ⟨p, hp, rfl⟩ := List.mem_map.1 hpiece
    obtain ⟨hmem, -⟩ := mem_placeFrom hp
    exact List.not_mem_append (h _ hmem) (break_not_mem_replicate (by decide) _)
  have hunderline : '\n' ∉ row.underline widths := by
    refine break_not_mem_intercalate fun piece hpiece => ?_
    obtain ⟨p, -, rfl⟩ := List.mem_map.1 hpiece
    exact break_not_mem_replicate (by decide) _
  rw [Row.lines, List.forall_mem_cons]
  refine ⟨hline, ?_⟩
  split
  · rw [List.forall_mem_singleton]
    exact hunderline
  · simp

/-- No line of a set table holds a line break if no cell does. -/
theorem break_not_mem_render {table : Table} (h : table.Unbroken) :
    ∀ line ∈ table.render, '\n' ∉ line := by
  have hrows := unbroken_layout h
  simp only [render]
  split
  · simp
  · rename_i header body hlayout
    rw [hlayout, Unbroken, List.forall_mem_cons] at hrows
    have hrule := break_not_mem_rule (columnWidths table.layout)
    have hheader := break_not_mem_rowLines hrows.1 (columnWidths table.layout)
    intro line hline
    simp only [List.mem_append, List.mem_cons, List.not_mem_nil, or_false] at hline
    obtain (((rfl | hline) | hline) | hline) | rfl | rfl := hline
    · exact hrule
    · exact hheader line hline
    · split at hline
      · cases hline
      · rw [List.mem_singleton.1 hline]
        exact hrule
    · obtain ⟨row, hrow, hline⟩ := List.mem_flatMap.1 hline
      exact break_not_mem_rowLines (hrows.2 row hrow) _ line hline
    · exact hrule
    · exact List.not_mem_nil

end Table
end WikiDocs

import WikiDocs.Proofs.Indentation

/-!
Normal lines. No plain spelling holds a backslash or the letter `n`, and none
changes how far a line is indented; so characters can be replaced before or
after escapes are expanded. Between its escapes a line falls into pieces in one
way only, and its normal form is made of these.
-/

namespace WikiDocs

namespace Text

/-- Pieces that are joined by a line break and `n` spaces are indented lines. -/
theorem splitOn_intercalate_indent {n : Nat} {first : Text} {later : List Text}
    (h : ∀ piece ∈ first :: later, '\n' ∉ piece) :
    splitOn '\n' (('\n' :: List.replicate n ' ').intercalate (first :: later)) =
      first :: later.map (indent n) := by
  induction later generalizing first with
  | nil =>
      rw [List.intercalate_singleton]
      exact splitOn_of_not_mem (h first List.mem_cons_self)
  | cons next later ih =>
      rw [List.forall_mem_cons] at h
      rw [List.intercalate_cons_cons, List.append_assoc, List.cons_append, splitOn_append h.1,
        ← indent, splitOn_indent (ih h.2), List.map_cons]

end Text

namespace Line

open Text

def escape : Text := ['\\', 'n']

/-- The pieces of a line between its escapes; there is always one. -/
structure CutAtEscapes (line : Text) (pieces : List Text) : Prop where
  ne_nil : pieces ≠ []
  free : ∀ piece ∈ pieces, ¬ escape <:+: piece
  whole : escape.intercalate pieces = line

/-- What may stand behind a piece of a line. -/
def Continues (rest : Text) : Prop := rest = [] ∨ ∃ more, rest = escape ++ more

variable {line : Text} {pieces : List Text}

theorem exists_cutAtEscapes (line : Text) : ∃ pieces, CutAtEscapes line pieces := by
  by_cases h : escape <:+: line
  · obtain ⟨front, back, hline⟩ := h
    obtain ⟨pieces, hpieces⟩ := exists_cutAtEscapes front
    obtain ⟨others, hothers⟩ := exists_cutAtEscapes back
    refine ⟨pieces ++ others, ?_, List.forall_mem_append.2 ⟨hpieces.free, hothers.free⟩, ?_⟩
    · exact List.append_ne_nil_of_left_ne_nil hpieces.ne_nil others
    · rw [intercalate_append hpieces.ne_nil hothers.ne_nil, hpieces.whole, hothers.whole, hline]
  · exact ⟨[line], List.cons_ne_nil _ _, by simpa using h, List.intercalate_singleton⟩
termination_by line.length
decreasing_by
  all_goals
    rw [← hline]
    simp only [List.length_append, escape, List.length_cons]
    omega

/-- An escape does not overlap another, so no piece goes on where it could have ended. -/
theorem eq_nil_of_free {piece more rest : Text} (hfree : ¬ escape <:+: piece ++ more)
    (hrest : Continues rest) (hmore : Continues (more ++ rest)) : more = [] := by
  obtain hnil | ⟨after, hafter⟩ := hmore
  · exact (List.append_eq_nil_iff.1 hnil).1
  cases more with
  | nil => rfl
  | cons c more =>
      exfalso
      rw [escape, List.cons_append, List.cons_append, List.cons.injEq] at hafter
      obtain ⟨rfl, hafter⟩ := hafter
      cases more with
      | nil => obtain rfl | ⟨further, rfl⟩ := hrest <;> cases hafter
      | cons d more =>
          rw [List.cons_append, List.cons_append, List.cons.injEq] at hafter
          obtain ⟨rfl, -⟩ := hafter
          exact hfree ⟨piece, more, by rw [List.append_assoc]; rfl⟩

theorem append_inj_of_free {piece other rest rest' : Text} (hpiece : ¬ escape <:+: piece)
    (hother : ¬ escape <:+: other) (hrest : Continues rest) (hrest' : Continues rest')
    (h : piece ++ rest = other ++ rest') : piece = other ∧ rest = rest' := by
  obtain ⟨more, rfl, rfl⟩ | ⟨more, rfl, rfl⟩ := List.append_eq_append_iff.1 h
  · have hmore := eq_nil_of_free hother hrest' hrest
    exact ⟨by rw [hmore, List.append_nil], by rw [hmore, List.nil_append]⟩
  · have hmore := eq_nil_of_free hpiece hrest hrest'
    exact ⟨by rw [hmore, List.append_nil], by rw [hmore, List.nil_append]⟩

namespace CutAtEscapes

theorem exists_first {piece : Text} (h : CutAtEscapes line (piece :: pieces)) :
    ∃ rest, line = piece ++ rest ∧ Continues rest ∧
      ((rest = [] ∧ pieces = []) ∨ ∃ more, rest = escape ++ more ∧ CutAtEscapes more pieces) := by
  have hfree := (List.forall_mem_cons.1 h.free).2
  cases pieces with
  | nil =>
      refine ⟨[], ?_, .inl rfl, .inl ⟨rfl, rfl⟩⟩
      rw [← h.whole, List.intercalate_singleton, List.append_nil]
  | cons next pieces =>
      refine ⟨_, ?_, .inr ⟨_, rfl⟩, .inr ⟨_, rfl, List.cons_ne_nil _ _, hfree, rfl⟩⟩
      rw [← h.whole, List.intercalate_cons_cons, List.append_assoc]

/-- A line is cut at its escapes in one way only. -/
theorem unique {others : List Text} (h : CutAtEscapes line pieces)
    (hothers : CutAtEscapes line others) : pieces = others := by
  induction pieces generalizing line others with
  | nil => exact absurd rfl h.ne_nil
  | cons piece pieces ih =>
      cases others with
      | nil => exact absurd rfl hothers.ne_nil
      | cons other others =>
          obtain ⟨rest, hline, hrest, hpieces⟩ := h.exists_first
          obtain ⟨rest', hline', hrest', hothers'⟩ := hothers.exists_first
          obtain ⟨rfl, rfl⟩ := append_inj_of_free (h.free piece List.mem_cons_self)
            (hothers.free other List.mem_cons_self) hrest hrest' (hline.symm.trans hline')
          obtain ⟨rfl, rfl⟩ | ⟨more, rfl, hpieces⟩ := hpieces
          · obtain ⟨-, rfl⟩ | ⟨more, hmore, -⟩ := hothers'
            · rfl
            · cases hmore
          · obtain ⟨hnil, -⟩ | ⟨more', hmore, hothers'⟩ := hothers'
            · cases hnil
            · obtain rfl := List.append_cancel_left hmore
              rw [ih hpieces hothers']

theorem isInfix {piece : Text} (h : CutAtEscapes line pieces) (hpiece : piece ∈ pieces) :
    piece <:+: line := by
  induction pieces generalizing line with
  | nil => cases hpiece
  | cons first pieces ih =>
      obtain ⟨rest, rfl, -, hpieces⟩ := h.exists_first
      obtain rfl | hpiece := List.mem_cons.1 hpiece
      · exact (List.prefix_append piece rest).isInfix
      · obtain ⟨-, rfl⟩ | ⟨more, rfl, hmore⟩ := hpieces
        · cases hpiece
        · exact (ih hmore hpiece).trans
            ((List.suffix_append escape more).trans (List.suffix_append first _)).isInfix

theorem expandEscapes_eq (h : CutAtEscapes line pieces) (lineBreak : Text) :
    expandEscapes lineBreak line = lineBreak.intercalate pieces := by
  rw [← h.whole]
  exact expandEscapes_intercalate h.free

end CutAtEscapes

/-- What a character becomes: itself, or a spelling by other characters. -/
theorem plain_cases (c : Char) :
    (plain c = [c] ∧ c ∉ substitutions.map Prod.fst) ∨ (c, plain c) ∈ substitutions := by
  by_cases hc : c ∈ substitutions.map Prod.fst
  · obtain ⟨pair, hpair, rfl⟩ := List.mem_map.1 hc
    have hne : ∀ pair ∈ substitutions, plain pair.1 ≠ [pair.1] := by decide
    exact .inr ((plain_eq pair.1).resolve_left (hne pair hpair))
  · exact .inl ⟨plain_of_not_mem hc, hc⟩

theorem not_mem_of_mem_plain {c d : Char} (h : d ∈ plain c) :
    d ∉ substitutions.map Prod.fst := by
  obtain ⟨hself, hc⟩ | hmem := plain_cases c
  · rw [hself, List.mem_singleton] at h
    rwa [h]
  · have hall : ∀ pair ∈ substitutions,
        pair.2.all (· ∉ substitutions.map Prod.fst) = true := by decide
    exact of_decide_eq_true (List.all_eq_true.1 (hall _ hmem) d h)

theorem substitute_intercalate (separator : Text) (pieces : List Text) :
    substitute (separator.intercalate pieces) =
      (substitute separator).intercalate (pieces.map substitute) := by
  induction pieces with
  | nil => rfl
  | cons piece pieces ih =>
      cases pieces with
      | nil => simp
      | cons next pieces =>
          rw [List.intercalate_cons_cons, substitute_append, substitute_append, ih]
          exact List.intercalate_cons_cons.symm

theorem head?_of_substitute {s : Text} (h : (substitute s).head? = some 'n') :
    s.head? = some 'n' := by
  cases s with
  | nil => cases h
  | cons c s =>
      rw [substitute_cons, List.head?_append_of_ne_nil _ (plain_ne_nil c)] at h
      obtain ⟨hself, -⟩ | hmem := plain_cases c
      · rwa [hself] at h
      · have hall : ∀ pair ∈ substitutions, pair.2.head? ≠ some 'n' := by decide
        exact absurd h (hall _ hmem)

/-- No spelling makes an escape, alone or with what stands around it. -/
theorem escape_infix_of_substitute {s : Text} (h : escape <:+: substitute s) : escape <:+: s := by
  induction s with
  | nil => exact h
  | cons c s ih =>
      rw [substitute_cons] at h
      obtain ⟨hself, -⟩ | hmem := plain_cases c
      · rw [hself, List.singleton_append, List.infix_cons_iff] at h
        obtain ⟨rest, hrest⟩ | h := h
        · rw [escape, List.cons_append, List.cons.injEq] at hrest
          obtain ⟨rfl, hrest⟩ := hrest
          have hhead : s.head? = some 'n' := head?_of_substitute (by rw [← hrest]; rfl)
          obtain ⟨s, rfl⟩ := List.head?_eq_some_iff.1 hhead
          exact ⟨[], s, rfl⟩
        · exact List.infix_cons (ih h)
      · have hall : ∀ pair ∈ substitutions, pair.2.all (· ∉ escape) = true := by decide
        have hnot : ∀ d ∈ plain c, d ∉ escape :=
          fun d hd => of_decide_eq_true (List.all_eq_true.1 (hall _ hmem) d hd)
        exact List.infix_cons (ih (infix_of_append hnot h))

theorem CutAtEscapes.substitute (h : CutAtEscapes line pieces) :
    CutAtEscapes (Line.substitute line) (pieces.map Line.substitute) where
  ne_nil := mt List.map_eq_nil_iff.1 h.ne_nil
  free := by
    intro piece hpiece
    obtain ⟨piece, hmem, rfl⟩ := List.mem_map.1 hpiece
    exact mt escape_infix_of_substitute (h.free piece hmem)
  whole := by
    rw [← h.whole, substitute_intercalate]
    rfl

/-- A blank is spelled by a space, and no other spelling begins with one. -/
theorem indentation_substitute (line : Text) :
    indentation (substitute line) = indentation line := by
  have hcons : ∀ (c : Char) (s : Text), indentation (c :: s) =
      if isBlank c then indentation s + 1 else 0 := by
    intro c s
    rw [indentation, List.takeWhile_cons]
    split <;> rfl
  induction line with
  | nil => rfl
  | cons c line ih =>
      rw [substitute_cons, hcons]
      obtain ⟨hself, -⟩ | hmem := plain_cases c
      · rw [hself, List.singleton_append, hcons, ih]
      · have hall : ∀ pair ∈ substitutions, (isBlank pair.1 = true ∧ pair.2 = [' ']) ∨
            (isBlank pair.1 = false ∧ pair.2.head?.map isBlank = some false) := by decide
        obtain ⟨hblank, hspace⟩ | ⟨hblank, hhead⟩ := hall _ hmem
        · simp only at hblank hspace
          rw [hspace, List.singleton_append, hcons, ih, hblank]
          rfl
        · obtain ⟨d, hd, hnot⟩ := Option.map_eq_some_iff.1 hhead
          obtain ⟨more, hmore⟩ := List.head?_eq_some_iff.1 hd
          simp only at hblank hmore
          rw [hmore, List.cons_append, hcons, hblank, hnot]
          rfl

theorem substitute_lineBreak (line : Text) : substitute (lineBreak line) = lineBreak line := by
  refine substitute_of_plain fun c hc => ?_
  obtain rfl | hc := List.mem_cons.1 hc
  · exact plain_of_le (by decide)
  · rw [List.eq_of_mem_replicate hc]
    exact plain_of_le (by decide)

theorem CutAtEscapes.normalize_eq (h : CutAtEscapes line pieces) :
    normalize true line = (lineBreak line).intercalate (pieces.map Line.substitute) := by
  rw [normalize, if_pos rfl, h.expandEscapes_eq, substitute_intercalate, substitute_lineBreak]

theorem break_not_mem_substitute {s : Text} (h : '\n' ∉ s) : '\n' ∉ substitute s := by
  intro hmem
  obtain ⟨c, hc, hplain⟩ := List.mem_flatMap.1 hmem
  exact break_not_mem_plain (ne_of_mem_of_not_mem hc h) hplain

/-- A line on which there is nothing left to do. -/
structure Normal (expand : Bool) (line : Text) : Prop where
  plain : ∀ c ∈ line, c ∉ substitutions.map Prod.fst
  no_escape : expand = true → ¬ escape <:+: line

theorem not_mem_of_mem_substitute {s : Text} {c : Char} (h : c ∈ substitute s) :
    c ∉ substitutions.map Prod.fst := by
  obtain ⟨d, -, hd⟩ := List.mem_flatMap.1 h
  exact not_mem_of_mem_plain hd

theorem normal_normalize (expand : Bool) (line : Text) : Normal expand (normalize expand line) where
  plain _ := not_mem_of_mem_substitute
  no_escape := by
    rintro rfl hinfix
    obtain ⟨pieces, hpieces⟩ := exists_cutAtEscapes line
    have hbreak : ∀ d ∈ lineBreak line, d ∉ escape := by
      intro d hd
      obtain rfl | hd := List.mem_cons.1 hd
      · decide
      · rw [List.eq_of_mem_replicate hd]
        decide
    rw [hpieces.normalize_eq] at hinfix
    obtain hnil | ⟨piece, hpiece, hinfix⟩ := infix_of_intercalate hbreak hinfix
    · cases hnil
    · exact hpieces.substitute.free piece hpiece hinfix

theorem Normal.normalize_eq {expand : Bool} (h : Normal expand line) :
    normalize expand line = line := by
  have hexpand : (if expand then expandEscapes (lineBreak line) line else line) = line := by
    split
    · rename_i htrue
      exact expandEscapes_eq_self (h.no_escape htrue)
    · rfl
  rw [normalize, hexpand]
  exact substitute_of_plain fun c hc => plain_of_not_mem (h.plain c hc)

/-- Normalization that first looks whether there is anything to do: escapes are expanded on a line
that has one, and characters replaced on a line that is not all ASCII. -/
def normalizeAsNeeded (expand : Bool) (line : Text) : Text :=
  let expanded :=
    if expand && holds escape line then expandEscapes (lineBreak line) line else line
  if expanded.any fun c => 0x80 ≤ c.toNat then substitute expanded else expanded

/-- Normalization in the other order: characters are replaced before escapes are expanded, and the
indentation is that of the line with the characters replaced. -/
def normalizeLate (expand : Bool) (line : Text) : Text :=
  let spelled := substitute line
  if expand then expandEscapes (lineBreak spelled) spelled else spelled

theorem substitute_of_ascii {s : Text} (h : (s.any fun c => 0x80 ≤ c.toNat) = false) :
    substitute s = s := by
  refine substitute_of_plain fun c hc => plain_of_ascii ?_
  have hnot := List.any_eq_false.1 h c hc
  rw [decide_eq_true_eq] at hnot
  exact Nat.not_le.1 hnot

theorem normalizeAsNeeded_eq (expand : Bool) (line : Text) :
    normalizeAsNeeded expand line = normalize expand line := by
  have hexpanded : (if expand && holds escape line then expandEscapes (lineBreak line) line
      else line) = if expand then expandEscapes (lineBreak line) line else line := by
    cases hholds : holds escape line with
    | true => rw [Bool.and_true]
    | false =>
        have hfree : ¬ escape <:+: line := by
          rw [← holds_iff, hholds]
          exact Bool.false_ne_true
        rw [Bool.and_false, if_neg Bool.false_ne_true, expandEscapes_eq_self hfree, ite_self]
  rw [normalizeAsNeeded, hexpanded, normalize]
  generalize (if expand then expandEscapes (lineBreak line) line else line) = expanded
  split
  · rfl
  · rename_i hascii
    exact (substitute_of_ascii (Bool.eq_false_iff.2 hascii)).symm

theorem normalizeLate_eq (expand : Bool) (line : Text) :
    normalizeLate expand line = normalize expand line := by
  cases expand with
  | false => rfl
  | true =>
      obtain ⟨pieces, hpieces⟩ := exists_cutAtEscapes line
      have hbreak : lineBreak (substitute line) = lineBreak line := by
        rw [lineBreak, lineBreak, indentation_substitute]
      rw [normalizeLate, if_pos rfl, hbreak, hpieces.substitute.expandEscapes_eq,
        hpieces.normalize_eq]

/-- A normalized line is normal, whatever the line; it is the same when characters are replaced
only as needed, or before escapes are expanded; and to normalize it again changes nothing. With
escapes expanded it is made of the pieces between the escapes of the line, each with its characters
replaced, and between them a line break and as many spaces as the line has blanks in front. -/
theorem normalize_settles (line : Text) :
    (∀ expand, Normal expand (normalize expand line) ∧
      normalize expand (normalize expand line) = normalize expand line ∧
      normalizeAsNeeded expand line = normalize expand line ∧
      normalizeLate expand line = normalize expand line) ∧
    ∃ first later, CutAtEscapes line (first :: later) ∧
      (∀ pieces, CutAtEscapes line pieces → pieces = first :: later) ∧
      normalize true line =
        (lineBreak line).intercalate (substitute first :: later.map substitute) ∧
      ('\n' ∉ line → splitOn '\n' (normalize true line) =
        substitute first :: later.map fun piece => indent (indentation line) (substitute piece)) := by
  refine ⟨fun expand => ?_, ?_⟩
  · have hnormal := normal_normalize expand line
    exact ⟨hnormal, hnormal.normalize_eq, normalizeAsNeeded_eq expand line,
      normalizeLate_eq expand line⟩
  · obtain ⟨pieces, hpieces⟩ := exists_cutAtEscapes line
    cases pieces with
    | nil => exact absurd rfl hpieces.ne_nil
    | cons first later =>
        have hnormal := hpieces.normalize_eq
        rw [List.map_cons] at hnormal
        refine ⟨first, later, hpieces, fun _ h => h.unique hpieces, hnormal, fun hbreak => ?_⟩
        have hlines : ∀ piece ∈ substitute first :: later.map substitute, '\n' ∉ piece := by
          rw [← List.map_cons, List.forall_mem_map]
          exact fun piece hpiece =>
            break_not_mem_substitute fun hmem => hbreak ((hpieces.isInfix hpiece).subset hmem)
        rw [hnormal, lineBreak, splitOn_intercalate_indent hlines, List.map_map]
        rfl

example : normalize true "\u2009a\\\\nb\\n\u03BC".toList = " a\\\n b\n mu".toList := by decide

end Line
end WikiDocs

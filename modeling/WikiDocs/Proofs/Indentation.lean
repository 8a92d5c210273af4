import WikiDocs.Proofs.TableLine
import WikiDocs.Proofs.UnbrokenTables

/-!
Indented lines. Spaces in front of a line are repeated behind each line break
of its normal form, and change nothing else: the same characters are replaced,
and the same marks are found.
-/

namespace WikiDocs

namespace Text

/-- A text behind `n` spaces. -/
def indent (n : Nat) (s : Text) : Text := List.replicate n ' ' ++ s

theorem indent_zero (s : Text) : indent 0 s = s := rfl

/-- A text with `n` spaces behind each of its line breaks. -/
def reindent (n : Nat) (s : Text) : Text :=
  s.flatMap fun c => if c = '\n' then '\n' :: List.replicate n ' ' else [c]

theorem reindent_append (n : Nat) (s t : Text) :
    reindent n (s ++ t) = reindent n s ++ reindent n t :=
  List.flatMap_append

theorem reindent_cons {c : Char} (hc : c ≠ '\n') (n : Nat) (s : Text) :
    reindent n (c :: s) = c :: reindent n s := by
  rw [reindent, List.flatMap_cons, if_neg hc]
  rfl

theorem reindent_break (n : Nat) (s : Text) :
    reindent n ('\n' :: s) = '\n' :: indent n (reindent n s) := rfl

theorem reindent_of_not_mem {s : Text} (h : '\n' ∉ s) (n : Nat) : reindent n s = s := by
  induction s with
  | nil => rfl
  | cons c s ih =>
      rw [List.mem_cons, not_or] at h
      rw [reindent_cons (Ne.symm h.1), ih h.2]

theorem reindent_zero (s : Text) : reindent 0 s = s := by
  have hself : (fun c => if c = '\n' then '\n' :: List.replicate 0 ' ' else [c]) =
      fun c : Char => [c] := by
    funext c
    split
    · rename_i hc
      rw [hc]
      rfl
    · rfl
  rw [reindent, hself, List.flatMap_singleton']

theorem not_mem_indentation {c : Char} (hc : c ≠ ' ') (n : Nat) : c ∉ List.replicate n ' ' :=
  fun hmem => hc (List.eq_of_mem_replicate hmem)

theorem dropEndWhile_cons (p : Char → Bool) (c : Char) (s : Text) :
    dropEndWhile p (c :: s) =
      if p c = true ∧ dropEndWhile p s = [] then [] else c :: dropEndWhile p s := by
  simp only [dropEndWhile, List.reverse_cons, List.dropWhile_append, List.isEmpty_iff,
    List.reverse_eq_nil_iff]
  cases hc : p c with
  | true => split <;> simp_all
  | false => split <;> simp_all

theorem dropEndWhile_append {p : Char → Bool} {front : Text} (h : ∀ c ∈ front, p c = false)
    (s : Text) : dropEndWhile p (front ++ s) = front ++ dropEndWhile p s := by
  induction front with
  | nil => rfl
  | cons c front ih =>
      rw [List.forall_mem_cons] at h
      rw [List.cons_append, dropEndWhile_cons, if_neg (by simp [h.1]), ih h.2, List.cons_append]

/-- It does not matter which end of a text is dropped first. -/
theorem dropEndWhile_dropWhile (p q : Char → Bool) (s : Text) :
    dropEndWhile q (s.dropWhile p) = (dropEndWhile q s).dropWhile p := by
  induction s with
  | nil => rfl
  | cons c s ih =>
      rw [dropEndWhile_cons]
      cases hc : p c with
      | true =>
          rw [List.dropWhile_cons_of_pos hc, ih]
          split
          · rename_i hall
            rw [hall.2]
          · rw [List.dropWhile_cons_of_pos hc]
      | false =>
          rw [List.dropWhile_cons_of_neg (Bool.eq_false_iff.1 hc), dropEndWhile_cons]
          split
          · rfl
          · rw [List.dropWhile_cons_of_neg (Bool.eq_false_iff.1 hc)]

/-- A mark is found behind characters that it does not begin with. -/
theorem cutAfter_append_front {c : Char} {mark front : Text} (h : c ∉ front) (s : Text) :
    cutAfter (c :: mark) (front ++ s) =
      (cutAfter (c :: mark) s).map fun (upTo, rest) => (front ++ upTo, rest) := by
  induction front with
  | nil => exact Option.map_id'.symm
  | cons d front ih =>
      rw [List.mem_cons, not_or] at h
      have hlead : dropLead (c :: mark) (d :: (front ++ s)) = none := if_neg h.1
      rw [List.cons_append, cutAfter.eq_def, hlead]
      simp only [ih h.2, Option.map_map]
      rfl

/-- Spaces behind line breaks do not matter to a mark without a line break. -/
theorem dropLead_reindent {mark : Text} (hmark : '\n' ∉ mark) (n : Nat) (s : Text) :
    dropLead mark (reindent n s) = (dropLead mark s).map (reindent n) := by
  induction mark generalizing s with
  | nil => rfl
  | cons c mark ih =>
      rw [List.mem_cons, not_or] at hmark
      cases s with
      | nil => rfl
      | cons d s =>
          by_cases hd : d = '\n'
          · subst hd
            have hno : dropLead (c :: mark) ('\n' :: s) = none := if_neg (Ne.symm hmark.1)
            have hno' : dropLead (c :: mark) (reindent n ('\n' :: s)) = none :=
              if_neg (Ne.symm hmark.1)
            rw [hno, hno']
            rfl
          · rw [reindent_cons hd, dropLead, dropLead]
            split
            · exact ih hmark.2 s
            · rfl

theorem cutAfter_reindent {c : Char} {mark : Text} (hmark : '\n' ∉ c :: mark) (hc : c ≠ ' ')
    (n : Nat) (s : Text) :
    cutAfter (c :: mark) (reindent n s) =
      (cutAfter (c :: mark) s).map fun (upTo, rest) => (reindent n upTo, reindent n rest) := by
  induction s with
  | nil => rfl
  | cons d s ih =>
      have hlead := dropLead_reindent hmark n (d :: s)
      cases hdrop : dropLead (c :: mark) (d :: s) with
      | some rest =>
          rw [hdrop] at hlead
          rw [cutAfter.eq_def, hlead, cutAfter.eq_def, hdrop]
          simp only [Option.map_some, reindent_of_not_mem hmark]
      | none =>
          rw [hdrop] at hlead
          rw [cutAfter.eq_def _ (d :: s), hdrop]
          by_cases hd : d = '\n'
          · subst hd
            have hfront : c ∉ '\n' :: List.replicate n ' ' := by
              rw [List.mem_cons, not_or]
              exact ⟨fun heq => hmark (heq ▸ List.mem_cons_self), not_mem_indentation hc n⟩
            rw [reindent_break, indent, ← List.cons_append, cutAfter_append_front hfront, ih]
            simp only [Option.map_map]
            rfl
          · rw [reindent_cons hd] at hlead ⊢
            rw [cutAfter.eq_def, hlead]
            simp only [ih, Option.map_map]
            refine congrArg (Option.map · _) (funext fun cut => ?_)
            exact congrArg (·, _) (reindent_cons hd n cut.1).symm

theorem splitOn_indent {first s : Text} {later : List Text} (h : splitOn '\n' s = first :: later)
    (n : Nat) : splitOn '\n' (indent n s) = indent n first :: later := by
  induction n with
  | zero => exact h
  | succ n ih =>
      have hcons : ∀ t : Text, indent (n + 1) t = ' ' :: indent n t := fun _ => rfl
      rw [hcons, splitOn, if_neg (by decide), ih, hcons]

/-- The pieces of a text between line breaks, when spaces are put behind these. -/
theorem splitOn_reindent (n : Nat) (s : Text) :
    ∃ first later, splitOn '\n' s = first :: later ∧
      splitOn '\n' (reindent n s) = first :: later.map (indent n) := by
  induction s with
  | nil => exact ⟨[], [], rfl, rfl⟩
  | cons c s ih =>
      obtain ⟨first, later, hs, hindented⟩ := ih
      by_cases hc : c = '\n'
      · subst hc
        refine ⟨[], first :: later, by rw [splitOn, if_pos rfl, hs], ?_⟩
        rw [reindent_break, splitOn, if_pos rfl, splitOn_indent hindented]
        rfl
      · refine ⟨c :: first, later, by rw [splitOn, if_neg hc, hs], ?_⟩
        rw [reindent_cons hc, splitOn, if_neg hc, hindented]

theorem dropReturn_indent (n : Nat) (line : Text) :
    dropReturn (indent n line) = indent n (dropReturn line) := by
  obtain rfl | hne := eq_or_ne line []
  · have hlast : (indent n []).getLast? ≠ some '\r' := by
      intro hlast
      have hmem := List.mem_of_getLast? hlast
      rw [indent, List.append_nil] at hmem
      exact not_mem_indentation (by decide) n hmem
    rw [dropReturn, if_neg hlast]
    rfl
  · have hlast : (indent n line).getLast? = line.getLast? :=
      List.getLast?_append_of_ne_nil _ hne
    rw [dropReturn, dropReturn, hlast]
    split
    · exact List.dropLast_append_of_ne_nil hne
    · rfl

theorem linesOfPieces_indent {n : Nat} {later : List Text}
    (h : ∀ last ∈ later.getLast?, last ≠ []) :
    linesOfPieces (later.map (indent n)) = (linesOfPieces later).map (indent n) := by
  fun_induction linesOfPieces later with
  | case1 => rfl
  | case2 => exact absurd rfl (h [] rfl)
  | case3 last hlast =>
      have hindent : indent n last ≠ [] := List.append_ne_nil_of_right_ne_nil _ hlast
      exact if_neg hindent
  | case4 piece more hmore ih =>
      obtain ⟨next, more, rfl⟩ := List.exists_cons_of_ne_nil hmore
      rw [List.getLast?_cons_cons] at h
      calc linesOfPieces ((piece :: next :: more).map (indent n))
        _ = dropReturn (indent n piece) :: linesOfPieces ((next :: more).map (indent n)) := rfl
        _ = (dropReturn piece :: linesOfPieces (next :: more)).map (indent n) := by
            rw [dropReturn_indent, ih h, List.map_cons]

/-- The last piece of a text is not empty unless the text ends where it is cut. -/
theorem getLast?_splitOn {c : Char} {s : Text} (hne : s ≠ []) (hlast : s.getLast? ≠ some c) :
    ∀ last ∈ (splitOn c s).getLast?, last ≠ [] := by
  induction s with
  | nil => exact absurd rfl hne
  | cons d s ih =>
      obtain rfl | hs := eq_or_ne s []
      · have hd : d ≠ c := fun hd => hlast (hd ▸ rfl)
        rw [splitOn_of_not_mem (by simpa using Ne.symm hd)]
        rintro last ⟨⟩
        exact hne
      · have hrest : s.getLast? ≠ some c := by
          rwa [List.getLast?_cons_of_ne_nil hs] at hlast
        obtain ⟨first, later, hsplit⟩ := List.exists_cons_of_ne_nil (splitOn_ne_nil c s)
        have ih := ih hs hrest
        rw [splitOn]
        split
        · rwa [List.getLast?_cons_of_ne_nil (splitOn_ne_nil c s)]
        · rw [hsplit] at ih ⊢
          cases later with
          | nil =>
              rintro last ⟨⟩
              exact List.cons_ne_nil d first
          | cons next later =>
              rwa [List.getLast?_cons_cons] at ih ⊢

/-- The lines of a text that no line break ends, when spaces are put behind its line breaks. -/
theorem lines_reindent {s : Text} (hne : s ≠ []) (hlast : s.getLast? ≠ some '\n') (n : Nat) :
    ∃ first later, lines s = first :: later ∧
      lines (reindent n s) = first :: later.map (indent n) := by
  obtain ⟨first, later, hsplit, hindented⟩ := splitOn_reindent n s
  have hpieces := getLast?_splitOn hne hlast
  rw [lines, lines, hsplit, hindented]
  rw [hsplit] at hpieces
  cases later with
  | nil =>
      have hfirst : first ≠ [] := hpieces first rfl
      exact ⟨first, [], if_neg hfirst, if_neg hfirst⟩
  | cons next later =>
      rw [List.getLast?_cons_cons] at hpieces
      refine ⟨dropReturn first, linesOfPieces (next :: later), rfl, ?_⟩
      rw [← linesOfPieces_indent hpieces]
      rfl

end Text

namespace Token

open Text

variable {s : Text} {l : Lexeme}

theorem exists_of_tableStart? (h : tableStart? s = some l) :
    l.token = .tableStart ∧ s = l.taken ++ l.after ∧
      (l.taken = ['\x7b', '|'] ∨ l.taken = ['\x7b', '\\', '|']) := by
  rw [tableStart?.eq_def] at h
  split at h
  · cases h
    exact ⟨rfl, rfl, .inl rfl⟩
  · cases h
    exact ⟨rfl, rfl, .inr rfl⟩
  · cases h

theorem exists_brace (h : tableStart? s = some l) : ∃ after, s = '\x7b' :: after := by
  obtain ⟨-, rfl, htaken | htaken⟩ := exists_of_tableStart? h
  · exact ⟨'|' :: l.after, by rw [htaken]; rfl⟩
  · exact ⟨'\\' :: '|' :: l.after, by rw [htaken]; rfl⟩

theorem lexeme?_tableStart (h : tableStart? s = some l) (start : Bool) :
    lexeme? start s = some l := by
  rw [tableStart?.eq_def] at h
  split at h
  · cases h
    cases start <;> rfl
  · cases h
    cases start <;> rfl
  · cases h

/-- No token begins with the spaces in front of a brace. -/
theorem lexeme?_spaces (start : Bool) (n : Nat) (after : Text) :
    lexeme? start (indent (n + 1) ('\x7b' :: after)) = none := by
  have hspaces : ∀ c ∈ List.replicate (n + 1) ' ', isBlank c = true := by
    intro c hc
    rw [List.eq_of_mem_replicate hc]
    rfl
  have hbrace : ∀ c ∈ ('\x7b' :: after).head?, isBlank c = false := by
    rintro c ⟨⟩
    rfl
  have hdrop : (indent (n + 1) ('\x7b' :: after)).dropWhile isBlank = '\x7b' :: after :=
    (cut_run hspaces hbrace).2
  have hheading : ∀ level : Level, heading? level (indent (n + 1) ('\x7b' :: after)) = none := by
    intro level
    rw [heading?, hdrop]
    cases level <;> rfl
  refine lexeme?_eq_none_iff.2 fun kind => ?_
  cases kind with
  | title | subtitle | minorTitle =>
      cases start with
      | false => rfl
      | true => exact hheading _
  | listItem => cases start <;> rfl
  | literalBlock =>
      rw [Kind.lexeme?, literalBlock?, hdrop]
      rfl
  | pageBreak | tableStart | image | newline => rfl

theorem findFrom?_indent (h : tableStart? s = some l) (n : Nat) (passed : Text) :
    findFrom? passed (indent n s) = some ⟨l, passed.reverse ++ List.replicate n ' '⟩ := by
  induction n generalizing passed with
  | zero =>
      rw [indent, List.replicate_zero, List.nil_append, findFrom?.eq_def, lexeme?_tableStart h,
        List.append_nil]
  | succ n ih =>
      obtain ⟨after, rfl⟩ := exists_brace h
      rw [findFrom?.eq_def, lexeme?_spaces]
      exact (ih (' ' :: passed)).trans (by simp [List.replicate_succ])

/-- A table behind spaces is the first token of a text. -/
theorem find?_indent (h : tableStart? s = some l) (n : Nat) :
    find? (indent n s) = some ⟨l, List.replicate n ' '⟩ :=
  findFrom?_indent h n []

end Token

namespace Line

open Text Token

theorem break_not_mem_plain {c : Char} (hc : c ≠ '\n') : '\n' ∉ plain c := by
  obtain hself | hmem := plain_eq c
  · rw [hself]
    exact mt List.mem_singleton.1 (Ne.symm hc)
  · have hall : ∀ pair ∈ substitutions, '\n' ∉ pair.2 := by decide
    exact hall _ hmem

theorem substitute_cons (c : Char) (s : Text) : substitute (c :: s) = plain c ++ substitute s :=
  List.flatMap_cons

theorem substitute_append (s t : Text) : substitute (s ++ t) = substitute s ++ substitute t :=
  List.flatMap_append

theorem substitute_indent (n : Nat) (s : Text) :
    substitute (indent n s) = indent n (substitute s) := by
  have hspaces : substitute (List.replicate n ' ') = List.replicate n ' ' :=
    substitute_of_plain fun c hc => List.eq_of_mem_replicate hc ▸ plain_of_le (by decide)
  rw [indent, substitute_append, hspaces, indent]

/-- Characters are replaced within lines. -/
theorem substitute_reindent (n : Nat) (s : Text) :
    substitute (reindent n s) = reindent n (substitute s) := by
  induction s with
  | nil => rfl
  | cons c s ih =>
      by_cases hc : c = '\n'
      · subst hc
        have hbreak : plain '\n' = ['\n'] := plain_of_le (by decide)
        rw [reindent_break, substitute_cons, substitute_cons, hbreak, substitute_indent, ih]
        rfl
      · rw [reindent_cons hc, substitute_cons, substitute_cons, reindent_append,
          reindent_of_not_mem (break_not_mem_plain hc), ih]

theorem expandEscapes_cons {c : Char} (hc : c ≠ '\\') (lineBreak s : Text) :
    expandEscapes lineBreak (c :: s) = c :: expandEscapes lineBreak s := by
  cases s with
  | nil => rfl
  | cons d s => rw [expandEscapes, if_neg fun h => hc h.1]

theorem expandEscapes_indent (lineBreak : Text) (n : Nat) (s : Text) :
    expandEscapes lineBreak (indent n s) = indent n (expandEscapes lineBreak s) := by
  induction n with
  | zero => rfl
  | succ n ih => exact (expandEscapes_cons (by decide) _ _).trans (congrArg _ ih)

theorem expandEscapes_reindent {s : Text} (h : '\n' ∉ s) (n : Nat) :
    expandEscapes ('\n' :: List.replicate n ' ') s = reindent n (expandEscapes ['\n'] s) := by
  fun_induction expandEscapes ['\n'] s with
  | case1 => rfl
  | case2 c =>
      rw [reindent_of_not_mem h]
      rfl
  | case3 c d line hescape ih =>
      simp only [List.mem_cons, not_or] at h
      rw [expandEscapes, if_pos hescape, ih h.2.2]
      rfl
  | case4 c d line hno ih =>
      rw [List.mem_cons, not_or] at h
      rw [expandEscapes, if_neg hno, ih h.2, reindent_cons (Ne.symm h.1)]

/-- An escape does not reach over a character that is no part of one. -/
theorem expandEscapes_append_cons {c : Char} (hc : c ≠ '\\' ∧ c ≠ 'n') (lineBreak s t : Text) :
    expandEscapes lineBreak (s ++ c :: t) =
      expandEscapes lineBreak s ++ c :: expandEscapes lineBreak t := by
  fun_induction expandEscapes lineBreak s with
  | case1 => exact expandEscapes_cons hc.1 lineBreak t
  | case2 d =>
      have hno : ¬ (d = '\\' ∧ c = 'n') := fun h => hc.2 h.2
      rw [List.singleton_append, expandEscapes, if_neg hno, expandEscapes_cons hc.1]
      rfl
  | case3 d e s hescape ih =>
      rw [List.cons_append, List.cons_append, expandEscapes, if_pos hescape, ih, List.append_assoc]
  | case4 d e s hno ih =>
      rw [List.cons_append, List.cons_append, expandEscapes, if_neg hno, ← List.cons_append, ih]
      rfl

theorem indentation_indent {s : Text} (hhead : ∀ c ∈ s.head?, isBlank c = false) (n : Nat) :
    indentation (indent n s) = n := by
  have hspaces : ∀ c ∈ List.replicate n ' ', isBlank c = true := by
    intro c hc
    rw [List.eq_of_mem_replicate hc]
    rfl
  rw [indentation, indent, (cut_run hspaces hhead).1, List.length_replicate]

/-- The spaces in front of a line stay there, and stand behind each of its line breaks too. -/
theorem normalize_indent {s : Text} (hbreak : '\n' ∉ s) (hhead : ∀ c ∈ s.head?, isBlank c = false)
    (expand : Bool) (n : Nat) :
    normalize expand (indent n s) = indent n (reindent n (normalize expand s)) := by
  cases expand with
  | false =>
      have hsame : substitute s = reindent n (substitute s) := by
        rw [← substitute_reindent, reindent_of_not_mem hbreak]
      exact (substitute_indent n s).trans (congrArg (indent n) hsame)
  | true =>
      have hnone : lineBreak s = ['\n'] := by
        have hzero : indentation s = 0 := indentation_indent hhead 0
        rw [lineBreak, hzero]
        rfl
      simp only [normalize, if_true]
      rw [hnone, lineBreak, indentation_indent hhead, expandEscapes_indent,
        expandEscapes_reindent hbreak, substitute_indent, substitute_reindent]

theorem tableEnd_infix_substitute {s : Text} (h : tableEnd <:+: s) :
    tableEnd <:+: substitute s := by
  obtain ⟨front, rest, rfl⟩ := h
  have hmark : substitute tableEnd = tableEnd := rfl
  exact ⟨substitute front, substitute rest, by rw [substitute_append, substitute_append, hmark]⟩

theorem tableEnd_infix_expandEscapes (lineBreak : Text) {s : Text} (h : tableEnd <:+: s) :
    tableEnd <:+: expandEscapes lineBreak s := by
  obtain ⟨front, rest, rfl⟩ := h
  have hsplit : expandEscapes lineBreak (front ++ '|' :: '\x7d' :: rest) =
      expandEscapes lineBreak front ++ '|' :: '\x7d' :: expandEscapes lineBreak rest := by
    rw [expandEscapes_append_cons (by decide), expandEscapes_cons (by decide)]
  have hassoc : front ++ tableEnd ++ rest = front ++ '|' :: '\x7d' :: rest :=
    List.append_assoc front tableEnd rest
  rw [hassoc, hsplit]
  exact ⟨expandEscapes lineBreak front, expandEscapes lineBreak rest, List.append_assoc _ _ _⟩

/-- The mark at the end of a table stays in the normal form of its line. -/
theorem tableEnd_infix_normalize {s : Text} (h : tableEnd <:+: s) (expand : Bool) :
    tableEnd <:+: normalize expand s := by
  cases expand with
  | false => exact tableEnd_infix_substitute h
  | true => exact tableEnd_infix_substitute (tableEnd_infix_expandEscapes _ h)

/-- A line that opens a table does so in its normal form. -/
theorem exists_normalize_eq {s : Text} {l : Lexeme} (h : tableStart? s = some l) (expand : Bool) :
    ∃ after, normalize expand s = l.taken ++ after := by
  obtain ⟨-, rfl, htaken⟩ := exists_of_tableStart? h
  have hplain : substitute l.taken = l.taken := by
    obtain htaken | htaken := htaken <;> rw [htaken] <;> rfl
  have hescape : ¬ ['\\', 'n'] <:+: l.taken ∧ l.taken.getLast? ≠ some '\\' := by
    obtain htaken | htaken := htaken <;> rw [htaken] <;> decide
  cases expand with
  | false => exact ⟨substitute l.after, (substitute_append _ _).trans (by rw [hplain])⟩
  | true =>
      rw [normalize, if_pos rfl, expandEscapes_append hescape.1 fun h => absurd h hescape.2,
        substitute_append, hplain]
      exact ⟨_, rfl⟩

end Line

end WikiDocs

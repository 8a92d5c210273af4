import Mathlib.Algebra.Ring.Parity
import Mathlib.Data.List.Basic
import WikiDocs.Rst

/-!
Finished lines. What stands behind the last loose asterisk of a line has no
loose asterisk, and the character in front of it is no backslash; so when it is
dropped, no other asterisk changes and no single backslash comes to the end.
A finished line is therefore left as it is when it is finished again.
-/

namespace WikiDocs.Rst

/-- A line that ends in one backslash and not in two. -/
def Continued (line : Text) : Prop := ∃ front, line = front ++ ['\\'] ∧ front.getLast? ≠ some '\\'

/-- An asterisk of a line without a backslash right before it, and the texts around it. -/
structure LooseStar (line front back : Text) : Prop where
  whole : line = front ++ '*' :: back
  loose : front.getLast? ≠ some '\\'

/-- Whether what follows `front` is escaped, where `escaped` tells whether `front` itself is. -/
def escapes (escaped : Bool) (front : Text) : Bool := front.foldl (fun _ c => c == '\\') escaped

theorem escapes_eq_false_iff {front : Text} :
    escapes false front = false ↔ front.getLast? ≠ some '\\' := by
  obtain rfl | ⟨front, c, rfl⟩ := List.eq_nil_or_concat front
  · simp [escapes]
  · simp [escapes]

variable {line front back : Text} {position n : Nat} {escaped : Bool}

theorem starsFrom_append (position : Nat) (escaped : Bool) (s t : Text) :
    starsFrom position escaped (s ++ t) =
      starsFrom position escaped s ++ starsFrom (position + s.length) (escapes escaped s) t := by
  induction s generalizing position escaped with
  | nil => rfl
  | cons c s ih =>
      have hlength : position + (c :: s).length = position + 1 + s.length := by
        rw [List.length_cons]
        omega
      have hescapes : escapes escaped (c :: s) = escapes (c == '\\') s := rfl
      rw [List.cons_append, starsFrom, starsFrom, ih, hlength, hescapes]
      split
      · rfl
      · rfl

/-- How many asterisks are loose does not depend on where the positions are counted from. -/
theorem length_starsFrom (position position' : Nat) (escaped : Bool) (line : Text) :
    (starsFrom position escaped line).length = (starsFrom position' escaped line).length := by
  induction line generalizing position position' escaped with
  | nil => rfl
  | cons c line ih =>
      have hlater := ih (position + 1) (position' + 1) (c == '\\')
      rw [starsFrom, starsFrom]
      split
      · exact congrArg (· + 1) hlater
      · exact hlater

theorem exists_of_mem_starsFrom (h : n ∈ starsFrom position escaped line) :
    ∃ front back, line = front ++ '*' :: back ∧ escapes escaped front = false ∧
      n = position + front.length := by
  induction line generalizing position escaped with
  | nil => cases h
  | cons c line ih =>
      have hlater : n ∈ starsFrom (position + 1) (c == '\\') line →
          ∃ front back, c :: line = front ++ '*' :: back ∧ escapes escaped front = false ∧
            n = position + front.length := by
        intro hmem
        obtain ⟨front, back, rfl, hescapes, rfl⟩ := ih hmem
        refine ⟨c :: front, back, rfl, hescapes, ?_⟩
        rw [List.length_cons]
        omega
      rw [starsFrom] at h
      split at h
      · rename_i hstar
        obtain ⟨rfl, rfl⟩ := hstar
        obtain rfl | hmem := List.mem_cons.1 h
        · exact ⟨[], line, rfl, rfl, rfl⟩
        · exact hlater hmem
      · exact hlater h

theorem le_of_mem_starsFrom (h : n ∈ starsFrom position escaped line) : position ≤ n := by
  obtain ⟨front, -, -, -, rfl⟩ := exists_of_mem_starsFrom h
  exact Nat.le_add_right ..

theorem pairwise_starsFrom (position : Nat) (escaped : Bool) (line : Text) :
    (starsFrom position escaped line).Pairwise (· < ·) := by
  induction line generalizing position escaped with
  | nil => exact .nil
  | cons c line ih =>
      rw [starsFrom]
      split
      · exact .cons (fun _ hmem => le_of_mem_starsFrom hmem) (ih (position + 1) (c == '\\'))
      · exact ih (position + 1) (c == '\\')

theorem LooseStar.stars_eq (h : LooseStar line front back) :
    stars line = stars front ++ front.length :: starsFrom (front.length + 1) false back := by
  have hescapes := escapes_eq_false_iff.2 h.loose
  rw [h.whole, stars, starsFrom_append, hescapes, Nat.zero_add, starsFrom, if_pos ⟨rfl, rfl⟩]
  rfl

/-- The positions listed for a line are those of its loose asterisks. -/
theorem mem_stars_iff :
    n ∈ stars line ↔ ∃ front back, LooseStar line front back ∧ front.length = n := by
  constructor
  · intro h
    obtain ⟨front, back, hwhole, hescapes, rfl⟩ := exists_of_mem_starsFrom h
    exact ⟨front, back, ⟨hwhole, escapes_eq_false_iff.1 hescapes⟩, (Nat.zero_add _).symm⟩
  · rintro ⟨front, back, h, rfl⟩
    rw [h.stars_eq]
    exact List.mem_append_right _ List.mem_cons_self

/-- Behind the last of the loose asterisks there is none, wherever positions are counted from. -/
theorem exists_last_loose (h : stars line ≠ []) :
    ∃ front back, LooseStar line front back ∧ (stars line).getLast? = some front.length ∧
      ∀ position, starsFrom position false back = [] := by
  obtain ⟨last, hlast⟩ := Option.ne_none_iff_exists'.1 (mt List.getLast?_eq_none_iff.1 h)
  obtain ⟨front, back, hstar, rfl⟩ := mem_stars_iff.1 (List.mem_of_getLast? hlast)
  refine ⟨front, back, hstar, hlast, fun position => ?_⟩
  have hnone : starsFrom (front.length + 1) false back = [] := by
    by_contra hne
    rw [hstar.stars_eq, List.getLast?_append_of_ne_nil _ (List.cons_ne_nil _ _),
      List.getLast?_cons_of_ne_nil hne] at hlast
    exact absurd (le_of_mem_starsFrom (List.mem_of_getLast? hlast)) (Nat.not_succ_le_self _)
  have hlength := length_starsFrom position (front.length + 1) false back
  rw [hnone] at hlength
  exact List.length_eq_zero_iff.1 hlength

theorem pairStars_of_even (h : Even (stars line).length) : pairStars line = line := by
  rw [pairStars, if_neg]
  rw [Nat.even_iff.1 h]
  exact Nat.zero_ne_one

/-- The last loose asterisk is dropped if their number is odd. The others stay what they are. -/
theorem pairStars_of_odd (h : Odd (stars line).length) :
    ∃ front back, LooseStar line front back ∧
      (∀ front' back', LooseStar line front' back' → front'.length ≤ front.length) ∧
      pairStars line = front ++ back ∧ Even (stars (front ++ back)).length := by
  have hne : stars line ≠ [] := by
    intro hnil
    rw [hnil] at h
    exact absurd h (by decide)
  obtain ⟨front, back, hstar, hlast, hnone⟩ := exists_last_loose hne
  have hline : stars line = stars front ++ [front.length] := by
    rw [hstar.stars_eq, hnone]
  have hrest : stars (front ++ back) = stars front := by
    rw [stars, starsFrom_append, escapes_eq_false_iff.2 hstar.loose, hnone, List.append_nil]
    rfl
  refine ⟨front, back, hstar, fun front' back' hstar' => ?_, ?_, ?_⟩
  · have hmem : front'.length ∈ stars line := mem_stars_iff.2 ⟨front', back', hstar', rfl⟩
    have hpairs := pairwise_starsFrom 0 false line
    rw [hline] at hmem
    rw [← stars, hline] at hpairs
    obtain hmem | hmem := List.mem_append.1 hmem
    · exact Nat.le_of_lt ((List.pairwise_append.1 hpairs).2.2 _ hmem _ (List.mem_singleton_self _))
    · exact Nat.le_of_eq (List.mem_singleton.1 hmem)
  · rw [pairStars, if_pos (Nat.odd_iff.1 h), List.getLastD_eq_getLast?, hlast, Option.getD_some,
      hstar.whole, List.eraseIdx_append_of_length_le le_rfl, Nat.sub_self]
    rfl
  · rw [hline, List.length_append, List.length_singleton] at h
    rw [hrest]
    exact Nat.not_odd_iff_even.1 (Nat.odd_add_one.1 h)

theorem continued_iff : Continued line ↔ ['\\'] <:+ line ∧ ¬ ['\\', '\\'] <:+ line := by
  constructor
  · rintro ⟨front, rfl, hfront⟩
    refine ⟨List.suffix_append front _, ?_⟩
    rintro ⟨more, hmore⟩
    have hfront' : more ++ ['\\'] = front := by
      rw [← List.append_left_inj ['\\'], ← hmore, List.append_assoc]
      rfl
    rw [← hfront', List.getLast?_concat] at hfront
    exact hfront rfl
  · rintro ⟨⟨front, rfl⟩, hnot⟩
    refine ⟨front, rfl, fun hlast => hnot ?_⟩
    obtain ⟨more, rfl⟩ := List.getLast?_eq_some_iff.1 hlast
    exact ⟨more, (List.append_assoc more ['\\'] ['\\']).symm⟩

theorem dropContinuation_of_not_continued (h : ¬ Continued line) : dropContinuation line = line :=
  if_neg (mt continued_iff.2 h)

theorem dropContinuation_of_continued (h : Continued line) :
    line = dropContinuation line ++ ['\\'] ∧ ¬ Continued (dropContinuation line) := by
  have hif : dropContinuation line = line.dropLast := if_pos (continued_iff.1 h)
  obtain ⟨front, rfl, hfront⟩ := h
  rw [hif, List.dropLast_concat]
  refine ⟨rfl, ?_⟩
  rintro ⟨more, rfl, -⟩
  exact hfront List.getLast?_concat

theorem not_continued_dropContinuation (line : Text) : ¬ Continued (dropContinuation line) := by
  by_cases h : Continued line
  · exact (dropContinuation_of_continued h).2
  · rwa [dropContinuation_of_not_continued h]

/-- Without a loose asterisk a line still does not end in a single backslash. -/
theorem LooseStar.not_continued (hstar : LooseStar line front back) (h : ¬ Continued line) :
    ¬ Continued (front ++ back) := by
  rintro ⟨rest, hrest, hlast⟩
  obtain rfl | ⟨back, c, rfl⟩ := List.eq_nil_or_concat back
  · rw [List.append_nil] at hrest
    refine hstar.loose ?_
    rw [hrest, List.getLast?_concat]
  · rw [List.concat_eq_append, ← List.append_assoc] at hrest
    obtain ⟨rfl, hc⟩ := List.append_inj' hrest rfl
    refine h ⟨front ++ '*' :: back, ?_, ?_⟩
    · rw [hstar.whole, List.concat_eq_append, hc, List.append_assoc]
      rfl
    · obtain rfl | hne := eq_or_ne back []
      · rw [List.getLast?_concat]
        decide
      · rwa [List.getLast?_append_of_ne_nil _ (List.cons_ne_nil _ _),
          List.getLast?_cons_of_ne_nil hne, ← List.getLast?_append_of_ne_nil front hne]

/-- A line with an even number of loose asterisks that does not end in a single backslash. -/
structure Finished (line : Text) : Prop where
  even : Even (stars line).length
  not_continued : ¬ Continued line

theorem finished_finishLine (line : Text) : Finished (finishLine line) := by
  have hcontinued := not_continued_dropContinuation line
  obtain heven | hodd := Nat.even_or_odd (stars (dropContinuation line)).length
  · rw [finishLine, pairStars_of_even heven]
    exact ⟨heven, hcontinued⟩
  · obtain ⟨front, back, hstar, -, hpair, heven⟩ := pairStars_of_odd hodd
    rw [finishLine, hpair]
    exact ⟨heven, hstar.not_continued hcontinued⟩

/-- The finished lines are those that finishing does not change. -/
theorem finishLine_eq_self_iff : finishLine line = line ↔ Finished line := by
  constructor
  · intro h
    rw [← h]
    exact finished_finishLine line
  · intro h
    rw [finishLine, dropContinuation_of_not_continued h.not_continued, pairStars_of_even h.even]

/-- How a line comes out of a segment: at its end a single backslash is dropped, of what is kept
the last loose asterisk if their number is odd, and nothing else. -/
structure Finishes (segment kept line : Text) : Prop where
  continued : Continued segment → segment = kept ++ ['\\']
  not_continued : ¬ Continued segment → segment = kept
  odd : Odd (stars kept).length → ∃ front back, LooseStar kept front back ∧
    (∀ front' back', LooseStar kept front' back' → front'.length ≤ front.length) ∧
    line = front ++ back
  even : Even (stars kept).length → line = kept

theorem finishes_finishLine (segment : Text) :
    Finishes segment (dropContinuation segment) (finishLine segment) where
  continued h := (dropContinuation_of_continued h).1
  not_continued h := (dropContinuation_of_not_continued h).symm
  odd h := by
    obtain ⟨front, back, hstar, hlast, hpair, -⟩ := pairStars_of_odd h
    exact ⟨front, back, hstar, hlast, hpair⟩
  even h := pairStars_of_even h

/-- The positions listed for a line are those of its loose asterisks, each of them once. A finished
line has an even number of these; it is its segment without a single backslash at the end and
without the last loose asterisk of an odd number; and to finish it again changes nothing. -/
theorem finishLine_balances (segment : Text) :
    (∀ line, (stars line).Pairwise (· < ·) ∧
      ∀ n, n ∈ stars line ↔ ∃ front back, LooseStar line front back ∧ front.length = n) ∧
    Even (stars (finishLine segment)).length ∧
    (∃ kept, Finishes segment kept (finishLine segment)) ∧
    finishLine (finishLine segment) = finishLine segment := by
  have hfinished := finished_finishLine segment
  refine ⟨fun line => ⟨pairwise_starsFrom 0 false line, fun _ => mem_stars_iff⟩, hfinished.even,
    ⟨_, finishes_finishLine segment⟩, finishLine_eq_self_iff.2 hfinished⟩

example : finishLine "2 \\* 3 *x \\".toList = "2 \\* 3 x ".toList := by decide

end WikiDocs.Rst

import Mathlib.Data.List.Forall2
import WikiDocs.Proofs.Restart

/-!
Texts joined and cut again. A mark that occurs in a joined text occurs in one
of its pieces, unless it holds what joins them; lines joined by line feeds are
read as those lines; and what is trimmed begins and ends without blanks.
-/

namespace WikiDocs

namespace Text

theorem exists_of_forall₂_of_mem {α β : Type} {R : α → β → Prop} {as : List α} {bs : List β}
    (h : List.Forall₂ R as bs) {b : β} (hb : b ∈ bs) : ∃ a ∈ as, R a b := by
  induction h with
  | nil => cases hb
  | cons hab _ ih =>
      rcases List.mem_cons.1 hb with rfl | hb
      · exact ⟨_, List.mem_cons_self, hab⟩
      · obtain ⟨a, ha, hab⟩ := ih hb
        exact ⟨a, List.mem_cons_of_mem _ ha, hab⟩

theorem holds_iff {mark s : Text} : holds mark s = true ↔ mark <:+: s := by
  constructor
  · intro h
    obtain ⟨⟨upTo, rest⟩, hcut⟩ := Option.isSome_iff_exists.1 h
    rw [← append_of_cutAfter hcut]
    exact (mark_suffix_of_cutAfter hcut).isInfix.trans (List.prefix_append ..).isInfix
  · rintro ⟨front, rest, rfl⟩
    exact cutAfter_isSome mark front rest

theorem holds_eq_false {mark s : Text} (h : ¬ mark <:+: s) : holds mark s = false := by
  rw [Bool.eq_false_iff]
  exact fun hs => h (holds_iff.1 hs)

/-- A mark does not reach over a character that it has not. -/
theorem infix_or_infix {mark s t : Text} {c : Char} (hc : c ∉ mark)
    (h : mark <:+: s ++ c :: t) : mark <:+: s ∨ mark <:+: t := by
  obtain hs | ht | ⟨front, rest, rfl, hfront, hrest⟩ := List.infix_append_iff.1 h
  · exact .inl hs
  · obtain ht | ht := List.infix_cons_iff.1 ht
    · cases mark with
      | nil => exact .inl (List.nil_infix ..)
      | cons d mark =>
          cases (List.cons_prefix_cons.1 ht).1
          exact absurd (List.mem_cons_self ..) hc
    · exact .inr ht
  · cases rest with
    | nil => exact .inl (by simpa using hfront.isInfix)
    | cons d rest =>
        cases (List.cons_prefix_cons.1 hrest).1
        exact absurd (by simp) hc

theorem infix_of_append {mark s t : Text} (hs : ∀ c ∈ s, c ∉ mark) (h : mark <:+: s ++ t) :
    mark <:+: t := by
  induction s with
  | nil => exact h
  | cons c s ih =>
      rw [List.forall_mem_cons] at hs
      obtain hnil | ht := infix_or_infix (s := []) hs.1 h
      · rw [List.infix_nil.1 hnil]
        exact List.nil_infix
      · exact ih hs.2 ht

/-- A mark that shares no character with what joins the pieces occurs in one of them. -/
theorem infix_of_intercalate {mark separator : Text} {c : Char}
    (hc : ∀ d ∈ c :: separator, d ∉ mark) {pieces : List Text}
    (h : mark <:+: (c :: separator).intercalate pieces) :
    mark = [] ∨ ∃ piece ∈ pieces, mark <:+: piece := by
  induction pieces with
  | nil => exact .inl (List.infix_nil.1 h)
  | cons piece pieces ih =>
      cases pieces with
      | nil => exact .inr ⟨piece, List.mem_singleton_self _, by simpa using h⟩
      | cons next pieces =>
          rw [List.forall_mem_cons] at hc
          rw [List.intercalate_cons_cons, List.append_assoc, List.cons_append] at h
          obtain h | h := infix_or_infix hc.1 h
          · exact .inr ⟨piece, List.mem_cons_self, h⟩
          · refine (ih (infix_of_append hc.2 h)).imp_right ?_
            rintro ⟨other, hmem, hother⟩
            exact ⟨other, List.mem_cons_of_mem _ hmem, hother⟩

theorem mem_of_mem_intercalate {α : Type} {separator : List α} {a : α} {pieces : List (List α)}
    (h : a ∈ separator.intercalate pieces) : a ∈ separator ∨ ∃ piece ∈ pieces, a ∈ piece := by
  induction pieces with
  | nil => cases h
  | cons piece pieces ih =>
      cases pieces with
      | nil => exact .inr ⟨piece, List.mem_singleton_self _, by simpa using h⟩
      | cons next pieces =>
          rw [List.intercalate_cons_cons, List.append_assoc, List.mem_append, List.mem_append] at h
          obtain h | h | h := h
          · exact .inr ⟨piece, List.mem_cons_self, h⟩
          · exact .inl h
          · exact (ih h).imp_right fun ⟨p, hp, ha⟩ => ⟨p, List.mem_cons_of_mem _ hp, ha⟩

theorem intercalate_append {separator : Text} {front back : List Text} (hfront : front ≠ [])
    (hback : back ≠ []) :
    separator.intercalate (front ++ back) =
      separator.intercalate front ++ separator ++ separator.intercalate back := by
  induction front with
  | nil => exact absurd rfl hfront
  | cons piece front ih =>
      cases front with
      | nil =>
          rw [List.singleton_append, List.intercalate_cons_of_ne_nil hback,
            List.intercalate_singleton]
      | cons next front =>
          have hrest := ih (List.cons_ne_nil next front)
          rw [List.cons_append] at hrest
          rw [List.cons_append, List.cons_append, List.intercalate_cons_cons,
            List.intercalate_cons_cons, hrest]
          simp only [List.append_assoc]

theorem intercalate_concat {separator last : Text} {pieces : List Text} (hne : pieces ≠ []) :
    separator.intercalate (pieces ++ [last]) =
      separator.intercalate pieces ++ separator ++ last := by
  rw [intercalate_append hne (List.cons_ne_nil _ _), List.intercalate_singleton]

theorem dropEndWhile_eq_self {p : Char → Bool} {s : Text} (h : ∀ c ∈ s.getLast?, p c = false) :
    dropEndWhile p s = s := by
  obtain rfl | ⟨s, c, rfl⟩ := List.eq_nil_or_concat s
  · rfl
  · rw [List.concat_eq_append] at h ⊢
    rw [dropEndWhile, List.reverse_append, List.reverse_singleton, List.singleton_append,
      List.dropWhile_cons_of_neg (by simpa using h c), List.reverse_cons, List.reverse_reverse]

theorem dropEndWhile_concat {p : Char → Bool} {c : Char} (hc : p c = true) (s : Text) :
    dropEndWhile p (s ++ [c]) = dropEndWhile p s := by
  rw [dropEndWhile, List.reverse_append, List.reverse_singleton, List.singleton_append,
    List.dropWhile_cons_of_pos hc, dropEndWhile]

theorem dropEndWhile_prefix (p : Char → Bool) (s : Text) : dropEndWhile p s <+: s := by
  rw [← List.reverse_suffix, dropEndWhile, List.reverse_reverse]
  exact List.dropWhile_suffix p

theorem getLast?_dropEndWhile {p : Char → Bool} {s : Text} {c : Char}
    (h : c ∈ (dropEndWhile p s).getLast?) : p c = false := by
  rw [dropEndWhile, List.getLast?_reverse] at h
  have hnot := List.head?_dropWhile_not p s.reverse
  rw [h] at hnot
  exact hnot

theorem mem_getLast?_append_cons {s t : Text} {c d : Char} (h : c ∈ (s ++ d :: t).getLast?) :
    c = d ∨ c ∈ t.getLast? := by
  rw [List.getLast?_append] at h
  cases t with
  | nil => exact .inl (by simpa [eq_comm] using h)
  | cons e t => exact .inr (by simpa using h)

theorem trimStart_eq_self {s : Text} (h : ∀ c ∈ s.head?, isBlank c = false) : trimStart s = s := by
  cases s with
  | nil => rfl
  | cons c s => exact List.dropWhile_cons_of_neg (by simpa using h c)

theorem trimEnd_eq_self {s : Text} (h : ∀ c ∈ s.getLast?, isBlank c = false) : trimEnd s = s :=
  dropEndWhile_eq_self h

/-- A text without blanks at its ends. -/
def Trimmed (s : Text) : Prop := trim s = s

theorem Trimmed.last {s : Text} (h : Trimmed s) : ∀ c ∈ s.getLast?, isBlank c = false := by
  intro c hc
  rw [← h] at hc
  exact getLast?_dropEndWhile hc

theorem Trimmed.head {s : Text} (h : Trimmed s) : ∀ c ∈ s.head?, isBlank c = false := by
  intro c hc
  obtain ⟨rest, hrest⟩ : trim s <+: trimStart s := dropEndWhile_prefix isBlank _
  have hnot := List.head?_dropWhile_not isBlank s
  rw [h] at hrest
  rw [← trimStart, ← hrest, List.head?_append, hc] at hnot
  exact hnot

theorem splitOn_of_not_mem {c : Char} {s : Text} (h : c ∉ s) : splitOn c s = [s] := by
  induction s with
  | nil => rfl
  | cons d s ih =>
      rw [List.mem_cons, not_or] at h
      rw [splitOn, if_neg (Ne.symm h.1), ih h.2]

theorem splitOn_ne_nil (c : Char) (s : Text) : splitOn c s ≠ [] := by
  cases s with
  | nil => exact List.cons_ne_nil _ _
  | cons d s =>
      rw [splitOn]
      split
      · exact List.cons_ne_nil _ _
      · split <;> exact List.cons_ne_nil _ _

theorem splitOn_append_cons (c : Char) (s t : Text) :
    splitOn c (s ++ c :: t) = splitOn c s ++ splitOn c t := by
  induction s with
  | nil => simp [splitOn]
  | cons d s ih =>
      rw [List.cons_append, splitOn, splitOn, ih]
      split
      · rfl
      · cases hs : splitOn c s with
        | nil => exact absurd hs (splitOn_ne_nil c s)
        | cons piece pieces => rfl

theorem splitOn_append {c : Char} {s : Text} (h : c ∉ s) (t : Text) :
    splitOn c (s ++ c :: t) = s :: splitOn c t := by
  rw [splitOn_append_cons, splitOn_of_not_mem h, List.singleton_append]

/-- Lines joined by line feeds are read as those lines. A line that ends in a carriage return, and
an empty line at the end, would be read otherwise. -/
theorem lines_intercalate {ls : List Text} (hne : ls ≠ []) (hbreak : ∀ line ∈ ls, '\n' ∉ line)
    (hreturn : ∀ line ∈ ls, line.getLast? ≠ some '\r') (hlast : ∀ line ∈ ls.getLast?, line ≠ []) :
    lines (['\n'].intercalate ls) = ls := by
  induction ls with
  | nil => exact absurd rfl hne
  | cons line ls ih =>
      have hline := hbreak line List.mem_cons_self
      cases ls with
      | nil =>
          rw [List.intercalate_singleton, lines, splitOn_of_not_mem hline, linesOfPieces,
            if_neg (hlast line rfl)]
      | cons next ls =>
          have hrest := ih (by simp)
            (fun l hl => hbreak l (List.mem_cons_of_mem _ hl))
            (fun l hl => hreturn l (List.mem_cons_of_mem _ hl))
            (by simpa [List.getLast?_cons_cons] using hlast)
          rw [lines] at hrest
          rw [List.intercalate_cons_cons, List.append_assoc, List.singleton_append, lines,
            splitOn_append hline]
          generalize splitOn '\n' (['\n'].intercalate (next :: ls)) = pieces at hrest ⊢
          cases pieces with
          | nil => cases hrest
          | cons piece pieces =>
              rw [linesOfPieces, hrest, dropReturn, if_neg (hreturn line List.mem_cons_self)]
              simp

end Text
end WikiDocs

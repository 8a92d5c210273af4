import Mathlib.Data.List.Infix
import WikiDocs.Proofs.Arbitration

/-!
The grammar of page breaks. The first word that blanks and a date stamp follow
opens a document; its title is the whole word, and all digits of the stamp
belong to the page break.
-/

namespace WikiDocs.Token

open Pattern Text

/-- A dated word in a text, from its first character on. -/
structure BreaksPage (s front title gap stamp after : Text) : Prop where
  whole : s = front ++ (title ++ (gap ++ (stamp ++ after)))
  maximal : ∀ c ∈ front.getLast?, isWord c = false
  dated : Dated (title ++ (gap ++ (stamp ++ after))) title gap stamp after

variable {s front title gap stamp after : Text}

/-- A word with one more character in front of it is dated too. -/
theorem Dated.cons {c : Char} (h : Dated s title gap stamp after) (hc : isWord c = true) :
    Dated (c :: s) (c :: title) gap stamp after :=
  { h with
    whole := by rw [h.whole, List.cons_append]
    title_ne := List.cons_ne_nil c title
    word := List.forall_mem_cons.2 ⟨hc, h.word⟩ }

theorem Dated.matchAt?_eq (h : Dated s title gap stamp after) (start : Bool) :
    (Kind.pattern .pageBreak).matchAt? start s =
      some ⟨title ++ (gap ++ stamp), after, [("title", title)]⟩ := by
  have hwhole : s = title ++ (gap ++ stamp) ++ after := by
    rw [h.whole]
    simp only [List.append_assoc]
  rw [hwhole]
  exact h.prefers start

theorem Dated.readings_ne_nil (h : Dated s title gap stamp after) (start : Bool) :
    (Kind.pattern .pageBreak).readings start s ≠ [] := by
  intro hnil
  have hmatch := h.matchAt?_eq start
  rw [matchAt?, hnil] at hmatch
  cases hmatch

/-- Where the pattern of a page break matches stands a word with a date. -/
theorem dated_of_matchAt? {start : Bool} {r : Reading}
    (h : (Kind.pattern .pageBreak).matchAt? start s = some r) :
    ∃ title gap stamp after, Dated s title gap stamp after ∧
      r = ⟨title ++ (gap ++ stamp), after, [("title", title)]⟩ := by
  have hlexeme : pageBreak? s = _ := Kind.lexeme?_eq .pageBreak start s
  rw [h, Option.map_some] at hlexeme
  obtain ⟨title, gap, stamp, after, hdated, -⟩ := dated_of_pageBreak? hlexeme
  have hmatch := hdated.matchAt?_eq start
  exact ⟨title, gap, stamp, after, hdated, Option.some.inj (h.symm.trans hmatch)⟩

/-- The pattern of a page break takes the first dated word of a text from its first character on. -/
theorem breaksPage_of_match? {before : Text} {r : Reading}
    (h : (Kind.pattern .pageBreak).match? s = some (before, r)) :
    ∃ title gap stamp after, BreaksPage s before title gap stamp after ∧
      r = ⟨title ++ (gap ++ stamp), after, [("title", title)]⟩ ∧
      ∀ front title gap stamp after, BreaksPage s front title gap stamp after →
        before <+: front := by
  obtain ⟨rest, rfl, hat, hsooner⟩ := matchFrom?_eq_some_iff.1 h
  obtain ⟨title, gap, stamp, after, hdated, hr⟩ := dated_of_matchAt? hat
  refine ⟨title, gap, stamp, after, ⟨by rw [hdated.whole], ?_, hdated.whole ▸ hdated⟩, hr, ?_⟩
  · intro c hc
    by_contra hword
    obtain ⟨front, rfl⟩ := List.getLast?_eq_some_iff.1 hc
    exact (hdated.cons (by simpa using hword)).readings_ne_nil _
      (hsooner front [c] rfl (List.cons_ne_nil _ _))
  · intro front title' gap' stamp' after' hbreaks
    obtain ⟨more, hmore, -⟩ | ⟨more, rfl, hrest⟩ := List.append_eq_append_iff.1 hbreaks.whole
    · exact ⟨more, hmore.symm⟩
    · by_cases hne : more = []
      · rw [hne, List.append_nil]
      · refine absurd (hsooner front more rfl hne) ?_
        rw [← hrest]
        exact hbreaks.dated.readings_ne_nil _

theorem match?_pageBreak_ne_none_iff :
    (Kind.pattern .pageBreak).match? s ≠ none ↔
      ∃ front title gap stamp after, BreaksPage s front title gap stamp after := by
  constructor
  · intro h
    obtain ⟨⟨before, r⟩, hmatch⟩ := Option.ne_none_iff_exists'.1 h
    obtain ⟨title, gap, stamp, after, hbreaks, -⟩ := breaksPage_of_match? hmatch
    exact ⟨before, title, gap, stamp, after, hbreaks⟩
  · rintro ⟨front, title, gap, stamp, after, hbreaks⟩
    rw [hbreaks.whole]
    exact matchFrom?_ne_none (hbreaks.dated.readings_ne_nil _)

end WikiDocs.Token

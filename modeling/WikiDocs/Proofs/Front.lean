import Mathlib.Data.List.TakeWhile
import WikiDocs.Proofs.Scan

/-!
Tokens in the front of a text. A token that ends within the front of a text is
found in that front alone, and no token but a line break ends in one; so behind
a text without tokens a line break is what is found first.
-/

namespace WikiDocs.Text

/-- What begins a text and satisfies `p` is cut off where it ends. -/
theorem cut_run {p : Char → Bool} {run rest : Text} (hrun : ∀ c ∈ run, p c = true)
    (hrest : ∀ c ∈ rest.head?, p c = false) :
    (run ++ rest).takeWhile p = run ∧ (run ++ rest).dropWhile p = rest := by
  rw [List.takeWhile_append_of_pos hrun, List.dropWhile_append_of_pos hrun]
  cases rest with
  | nil => exact ⟨List.append_nil run, rfl⟩
  | cons c rest =>
      have hc : ¬ p c = true := by simpa using hrest c
      rw [List.takeWhile_cons_of_neg hc, List.dropWhile_cons_of_neg hc, List.append_nil]
      exact ⟨rfl, rfl⟩

theorem exists_run (p : Char → Bool) (s : Text) :
    ∃ run rest, s = run ++ rest ∧ s.takeWhile p = run ∧ s.dropWhile p = rest ∧
      (∀ c ∈ run, p c = true) ∧ ∀ c ∈ rest.head?, p c = false := by
  refine ⟨_, _, List.takeWhile_append_dropWhile.symm, rfl, rfl, ?_, ?_⟩
  · exact List.all_eq_true.1 List.all_takeWhile
  · intro c hc
    have hnot := List.head?_dropWhile_not p s
    rwa [hc] at hnot

end WikiDocs.Text

namespace WikiDocs.Token

open Text

theorem takeWhile_front {p : Char → Bool} {s t : Text}
    (h : ((s ++ t).takeWhile p).length ≤ s.length) :
    (s ++ t).takeWhile p = s.takeWhile p ∧ (s ++ t).dropWhile p = s.dropWhile p ++ t := by
  rw [List.takeWhile_append] at h ⊢
  rw [List.dropWhile_append]
  have hsplit := List.takeWhile_append_dropWhile (p := p) (l := s)
  split at h
  · rename_i hall
    have hs : s.takeWhile p = s := (List.takeWhile_prefix p).eq_of_length hall
    have hd : s.dropWhile p = [] := by
      rw [hs] at hsplit
      exact List.append_right_eq_self.1 hsplit
    rw [List.length_append] at h
    have ht : t.takeWhile p = [] := List.length_eq_zero_iff.1 (by omega)
    have htd : t.dropWhile p = t := by
      have := List.takeWhile_append_dropWhile (p := p) (l := t)
      rwa [ht, List.nil_append] at this
    simp [hs, hd, ht, htd]
  · rename_i hall
    have hd : s.dropWhile p ≠ [] := by
      intro hd
      rw [hd, List.append_nil] at hsplit
      exact hall (congrArg List.length hsplit)
    simp [hall, hd]

/-- A run that ends within a text, or at its end, does not change with what follows the text. -/
theorem span_append {p : Char → Bool} {s t : Text}
    (h : s.dropWhile p ≠ [] ∨ ∀ c ∈ t.head?, p c = false) :
    (s ++ t).takeWhile p = s.takeWhile p ∧ (s ++ t).dropWhile p = s.dropWhile p ++ t := by
  apply takeWhile_front
  by_cases hs : s.dropWhile p = []
  · obtain ⟨htake, -⟩ :=
      cut_run (List.dropWhile_eq_nil_iff.1 hs) (h.resolve_left (not_not_intro hs))
    rw [htake]
  · rw [List.takeWhile_append, if_neg]
    · exact (List.takeWhile_prefix p).length_le
    · intro hall
      have hself := (List.takeWhile_prefix p).eq_of_length hall
      exact hs (List.dropWhile_eq_nil_iff.2 (List.takeWhile_eq_self_iff.1 hself))

theorem length_span (p : Char → Bool) (s : Text) :
    (s.takeWhile p).length + (s.dropWhile p).length = s.length := by
  rw [← List.length_append, List.takeWhile_append_dropWhile]

theorem append_front {taken after s t : Text} (h : s ++ t = taken ++ after)
    (hl : taken.length ≤ s.length) : ∃ u, after = u ++ t ∧ s = taken ++ u := by
  obtain ⟨u, ht, ha⟩ | ⟨u, hs, ha⟩ := List.append_eq_append_iff.1 h
  · have hlen := congrArg List.length ht
    rw [List.length_append] at hlen
    have hu : u = [] := List.length_eq_zero_iff.1 (by omega)
    subst hu
    rw [List.append_nil] at ht
    rw [List.nil_append] at ha
    exact ⟨[], ha.symm, by rw [ht, List.append_nil]⟩
  · exact ⟨u, ha, hs⟩

theorem length_le_of_not_mem {taken after s t : Text} {c : Char}
    (h : taken ++ after = s ++ c :: t) (hc : c ∉ taken) : taken.length ≤ s.length := by
  obtain ⟨u, hs, -⟩ | ⟨u, htaken, hu⟩ := List.append_eq_append_iff.1 h
  · rw [hs, List.length_append]
    omega
  · cases u with
    | nil => rw [htaken, List.append_nil]
    | cons d u =>
        cases hu
        exact absurd (by simp [htaken]) hc

theorem dropLead_front {lead s t after : Text} (h : dropLead lead (s ++ t) = some after)
    (hl : lead.length ≤ s.length) : ∃ u, after = u ++ t ∧ dropLead lead s = some u := by
  obtain ⟨u, ha, hs⟩ := append_front (dropLead_eq_some_iff.1 h) hl
  exact ⟨u, ha, dropLead_eq_some_iff.2 hs⟩

theorem length_of_dropLead {lead s after : Text} (h : dropLead lead s = some after) :
    s.length = lead.length + after.length := by
  rw [dropLead_eq_some_iff.1 h, List.length_append]

theorem stamp?_front {s t stamp after : Text} (h : stamp? (s ++ t) = some (stamp, after))
    (hl : stamp.length ≤ s.length) : ∃ u, after = u ++ t ∧ stamp? s = some (stamp, u) := by
  have hlong : 7 ≤ stamp.length := by
    simp only [stamp?] at h
    split at h
    · split at h <;> cases h
      simp
    · cases h
  match s, (by omega : 7 ≤ s.length) with
  | c₁ :: c₂ :: y₁ :: y₂ :: m₁ :: m₂ :: d₁ :: s, _ =>
      simp only [List.cons_append, stamp?] at h ⊢
      split at h
      · rename_i heq
        simp only [List.cons.injEq] at heq
        obtain ⟨rfl, rfl, rfl, rfl, rfl, rfl, rfl, rfl⟩ := heq
        split at h
        · rename_i hc
          cases h
          simp only [List.length_cons] at hl
          obtain ⟨htake, hdrop⟩ := takeWhile_front (p := isDigit) (s := s) (t := t) (by omega)
          rw [htake] at hc ⊢
          exact ⟨_, hdrop, if_pos hc⟩
        · cases h
      · cases h

/-- A token lies in the front `s` of a text, and it is found in `s` alone as well. -/
def Lexeme.InFront (l : Lexeme) (found : Option Lexeme) (t : Text) : Prop :=
  ∃ u, l.after = u ++ t ∧ found = some { l with after := u }

theorem pageBreak?_front {s t : Text} {l : Lexeme} (h : pageBreak? (s ++ t) = some l)
    (hl : l.taken.length ≤ s.length) : l.InFront (pageBreak? s) t := by
  simp only [pageBreak?] at h ⊢
  split at h
  · cases h
  · rename_i hc
    obtain ⟨⟨stamp, after⟩, hs, rfl⟩ := Option.map_eq_some_iff.1 h
    simp only [List.length_append] at hl
    obtain ⟨ht₁, hd₁⟩ := takeWhile_front (p := isWord) (s := s) (t := t) (by omega)
    have hlen₁ := length_span isWord s
    rw [hd₁] at hs hc hl ⊢
    rw [ht₁] at hc hl ⊢
    obtain ⟨ht₂, hd₂⟩ := takeWhile_front (p := isBlank) (s := s.dropWhile isWord) (t := t)
      (by omega)
    have hlen₂ := length_span isBlank (s.dropWhile isWord)
    rw [hd₂] at hs
    rw [ht₂] at hc hl ⊢
    obtain ⟨u, rfl, hu⟩ := stamp?_front hs (by omega)
    exact ⟨u, rfl, by rw [if_neg hc, hu]; rfl⟩

theorem heading?_front {level : Level} {s t : Text} {l : Lexeme}
    (h : heading? level (s ++ t) = some l) (hl : l.taken.length ≤ s.length) :
    l.InFront (heading? level s) t := by
  simp only [heading?] at h ⊢
  split at h
  · rename_i hc
    cases h
    simp only [List.length_append, List.length_take] at hl
    obtain ⟨ht₁, hd₁⟩ := takeWhile_front (p := isBlank) (s := s) (t := t) (by omega)
    have hlen₁ := length_span isBlank s
    rw [hd₁] at hc hl ⊢
    rw [ht₁] at hl ⊢
    generalize s.dropWhile isBlank = s₁ at *
    obtain ⟨ht₂, hd₂⟩ := takeWhile_front (p := (· == '=')) (s := s₁) (t := t) (by omega)
    have hlen₂ := length_span (· == '=') s₁
    rw [hd₂] at hc hl ⊢
    rw [ht₂] at hc hl ⊢
    generalize s₁.dropWhile (· == '=') = s₂ at *
    obtain ⟨ht₃, hd₃⟩ := takeWhile_front (p := (· != '=')) (s := s₂) (t := t) (by omega)
    have hlen₃ := length_span (· != '=') s₂
    rw [hd₃] at hc hl ⊢
    rw [ht₃] at hc hl ⊢
    generalize s₂.dropWhile (· != '=') = s₃ at *
    have hlen₄ := length_span (· == '=') (s₃ ++ t)
    rw [List.length_append] at hl hlen₄
    have hs₃ : level.signs ≤ s₃.length := by omega
    have hclose : level.signs ≤ (s₃.takeWhile (· == '=')).length := by
      have hsigns := hc.2.2
      rw [List.takeWhile_append] at hsigns
      split at hsigns <;> omega
    rw [List.take_append_of_le_length hs₃, List.drop_append_of_le_length hs₃]
    exact ⟨_, rfl, by rw [if_pos ⟨hc.1, hc.2.1, hclose⟩]⟩
  · cases h

theorem listItem?_front {s t : Text} {l : Lexeme} (h : listItem? (s ++ t) = some l)
    (hl : l.taken.length ≤ s.length) : l.InFront (listItem? s) t := by
  simp only [listItem?] at h ⊢
  split at h
  · rename_i hc
    cases h
    simp only [List.length_append] at hl
    obtain ⟨ht₁, hd₁⟩ := takeWhile_front (p := isMark) (s := s) (t := t) (by omega)
    have hlen₁ := length_span isMark s
    rw [hd₁] at hl ⊢
    rw [ht₁] at hc hl ⊢
    obtain ⟨ht₂, hd₂⟩ := takeWhile_front (p := isBlank) (s := s.dropWhile isMark) (t := t)
      (by omega)
    rw [ht₂, hd₂, if_pos hc]
    exact ⟨_, rfl, rfl⟩
  · cases h

theorem literalBlock?_front {s t : Text} {l : Lexeme} (h : literalBlock? (s ++ t) = some l)
    (hl : l.taken.length ≤ s.length) : l.InFront (literalBlock? s) t := by
  obtain ⟨after, hs, rfl⟩ := Option.map_eq_some_iff.1 h
  simp only [List.length_append, List.length_cons, List.length_nil] at hl
  obtain ⟨ht₁, hd₁⟩ := takeWhile_front (p := isBlank) (s := s) (t := t) (by omega)
  have hlen₁ := length_span isBlank s
  rw [hd₁] at hs
  rw [ht₁] at hl ⊢
  obtain ⟨u, rfl, hu⟩ := dropLead_front hs (by simp only [List.length_cons, List.length_nil]; omega)
  exact ⟨u, rfl, by simp only [literalBlock?, hu, Option.map_some]⟩

theorem tableStart?_front {s t : Text} {l : Lexeme} (h : tableStart? (s ++ t) = some l)
    (hl : l.taken.length ≤ s.length) : l.InFront (tableStart? s) t := by
  obtain ⟨happ, -⟩ := tableStart?_begins h
  obtain ⟨u, ha, rfl⟩ := append_front happ.symm hl
  simp only [tableStart?] at h
  split at h
  · cases h
    exact ⟨u, ha, rfl⟩
  · cases h
    exact ⟨u, ha, rfl⟩
  · cases h

theorem image?_front {s t : Text} {l : Lexeme} (h : image? (s ++ t) = some l)
    (hl : l.taken.length ≤ s.length) : l.InFront (image? s) t := by
  simp only [image?, Option.bind_eq_bind, Option.bind_eq_some_iff] at h
  obtain ⟨s₁, h₁, _, hdigits, s₂, h₂, label, hlabel, s₃, h₃, _, hpath, after, h₄, h₅⟩ := h
  cases h₅
  simp only [List.length_append] at hl
  obtain ⟨u₁, rfl, e₁⟩ := dropLead_front h₁ (by omega)
  have hlen₁ := length_of_dropLead e₁
  obtain ⟨ht₁, hd₁⟩ := takeWhile_front (p := isDigit) (s := u₁) (t := t) (by omega)
  have hspan₁ := length_span isDigit u₁
  rw [hd₁] at h₂
  rw [ht₁] at hdigits hl ⊢
  obtain ⟨u₂, rfl, e₂⟩ := dropLead_front h₂ (by omega)
  have hlen₂ := length_of_dropLead e₂
  obtain ⟨ht₂, hd₂⟩ := takeWhile_front (p := (· != '<')) (s := u₂) (t := t) (by omega)
  have hspan₂ := length_span (· != '<') u₂
  rw [hd₂] at h₃
  rw [ht₂] at hlabel hl ⊢
  obtain ⟨u₃, rfl, e₃⟩ := dropLead_front h₃ (by omega)
  have hlen₃ := length_of_dropLead e₃
  obtain ⟨ht₃, hd₃⟩ := takeWhile_front (p := (· != '>')) (s := u₃) (t := t) (by omega)
  have hspan₃ := length_span (· != '>') u₃
  rw [hd₃] at h₄
  rw [ht₃] at hpath hl ⊢
  obtain ⟨u, rfl, e₄⟩ := dropLead_front h₄ (by omega)
  refine ⟨u, rfl, ?_⟩
  simp only [image?, Option.bind_eq_bind, Option.bind_eq_some_iff]
  exact ⟨u₁, e₁, _, hdigits, u₂, e₂, label, hlabel, u₃, e₃, _, hpath, u, e₄, rfl⟩

theorem newline?_front {s t : Text} {l : Lexeme} (h : newline? (s ++ t) = some l)
    (hl : l.taken.length ≤ s.length) : l.InFront (newline? s) t := by
  cases s with
  | nil =>
      obtain ⟨-, hpos⟩ := newline?_begins h
      have hlen : l.taken = [] := List.length_eq_zero_iff.1 (by simpa using hl)
      rw [hlen] at hpos
      exact absurd hpos (Nat.lt_irrefl 0)
  | cons c s =>
      simp only [newline?, List.cons_append] at h ⊢
      split at h
      · rename_i heq
        cases heq
        cases h
        exact ⟨s, rfl, rfl⟩
      · cases h

/-- A token that ends within the front of a text is found in the front alone. -/
theorem Kind.lexeme?_front {kind : Kind} {start : Bool} {s t : Text} {l : Lexeme}
    (h : kind.lexeme? start (s ++ t) = some l) (hl : l.taken.length ≤ s.length) :
    l.InFront (kind.lexeme? start s) t := by
  cases kind with
  | pageBreak => exact pageBreak?_front h hl
  | title | subtitle | minorTitle =>
      cases start with
      | true => exact heading?_front h hl
      | false => cases h
  | listItem =>
      cases start with
      | true => exact listItem?_front h hl
      | false => cases h
  | literalBlock => exact literalBlock?_front h hl
  | tableStart => exact tableStart?_front h hl
  | image => exact image?_front h hl
  | newline => exact newline?_front h hl

theorem isBlank_digit {c : Char} (h : isDigit c = true) : isBlank c = false := by
  simp only [isDigit, Bool.and_eq_true, decide_eq_true_eq, Char.le_def, UInt32.le_iff_toNat_le] at h
  have hc : 48 ≤ c.toNat ∧ c.toNat ≤ 57 := h
  simp only [isBlank, Bool.or_eq_false_iff, Bool.and_eq_false_iff, decide_eq_false_iff_not,
    beq_eq_false_iff_ne]
  omega

/-- The character at the end of a token is not blank. -/
def Lexeme.EndsFull (l : Lexeme) : Prop := ∃ c, l.taken.getLast? = some c ∧ isBlank c = false

theorem stamp?_ends {s stamp after : Text} (h : stamp? s = some (stamp, after)) :
    ∃ c, stamp.getLast? = some c ∧ isDigit c = true := by
  simp only [stamp?] at h
  split at h
  · rename_i s
    split at h
    · rename_i hc
      cases h
      have hmore := hc.2.2.2.2.2.2.2
      refine ⟨(s.takeWhile isDigit).getLast hmore,
        by simp [List.getLast?_cons, List.getLast?_eq_some_getLast hmore], ?_⟩
      exact List.all_eq_true.1 (List.all_takeWhile ..) _ (List.getLast_mem hmore)
    · cases h
  · cases h

theorem pageBreak?_ends {s : Text} {l : Lexeme} (h : pageBreak? s = some l) : l.EndsFull := by
  simp only [pageBreak?] at h
  split at h
  · cases h
  · obtain ⟨⟨stamp, after⟩, hs, rfl⟩ := Option.map_eq_some_iff.1 h
    obtain ⟨c, hlast, hdigit⟩ := stamp?_ends hs
    exact ⟨c, by simp [hlast], isBlank_digit hdigit⟩

theorem heading?_ends {level : Level} {s : Text} {l : Lexeme} (h : heading? level s = some l) :
    l.EndsFull := by
  simp only [heading?] at h
  split at h
  · rename_i hc
    cases h
    generalize ((s.dropWhile isBlank).dropWhile (· == '=')).dropWhile (· != '=') = rest at hc ⊢
    have hsigns : rest.take level.signs = List.replicate level.signs '=' := by
      have htake : rest.take level.signs = (rest.takeWhile (· == '=')).take level.signs := by
        have happ := List.takeWhile_append_dropWhile (p := (· == '=')) (l := rest)
        conv => lhs; rw [← happ]
        rw [List.take_append_of_le_length hc.2.2]
      rw [htake]
      refine List.eq_replicate_iff.2 ⟨List.length_take_of_le hc.2.2, ?_⟩
      intro c hmem
      simpa using List.all_eq_true.1 (List.all_takeWhile ..) c (List.mem_of_mem_take hmem)
    refine ⟨'=', ?_, by decide⟩
    rw [hsigns]
    cases level <;> simp [Level.signs, List.replicate_succ]
  · cases h

theorem literalBlock?_ends {s : Text} {l : Lexeme} (h : literalBlock? s = some l) :
    l.EndsFull := by
  obtain ⟨after, -, rfl⟩ := Option.map_eq_some_iff.1 h
  exact ⟨':', by simp, by decide⟩

theorem tableStart?_ends {s : Text} {l : Lexeme} (h : tableStart? s = some l) : l.EndsFull := by
  simp only [tableStart?] at h
  split at h
  · cases h
    exact ⟨'|', rfl, by decide⟩
  · cases h
    exact ⟨'|', rfl, by decide⟩
  · cases h

theorem image?_ends {s : Text} {l : Lexeme} (h : image? s = some l) : l.EndsFull := by
  simp only [image?, Option.bind_eq_bind, Option.bind_eq_some_iff] at h
  obtain ⟨_, -, _, -, _, -, _, -, _, -, _, -, after, -, h⟩ := h
  cases h
  exact ⟨'_', by simp [imageEnd], by decide⟩

theorem taken_ne_nil {l : Lexeme} {s : Text} (h : l.Begins s) : l.taken ≠ [] := by
  intro hl
  have hpos := h.2
  rw [hl] at hpos
  exact absurd hpos (Nat.lt_irrefl 0)

/-- A token that reaches into the line breaks after a text ends in one of them. -/
theorem Lexeme.EndsFull.not_lt {l : Lexeme} {s t : Text} (hl : l.EndsFull)
    (hb : l.Begins (s ++ t)) (ht : ∀ c ∈ t, c = '\n') : l.taken.length ≤ s.length := by
  obtain ⟨c, hlast, hfull⟩ := hl
  obtain ⟨u, hs, -⟩ | ⟨u, htaken, hrest⟩ := List.append_eq_append_iff.1 hb.1
  · rw [hs, List.length_append]
    omega
  · cases hu : u.getLast? with
    | none =>
        have hsame : l.taken = s := by
          rw [htaken, List.getLast?_eq_none_iff.1 hu, List.append_nil]
        exact Nat.le_of_eq (congrArg List.length hsame)
    | some d =>
        have hmem : d ∈ t := by
          rw [hrest]
          exact List.mem_append_left _ (List.mem_of_getLast? hu)
        have hcd : d = c := by simpa [htaken, hu] using hlast
        rw [← hcd, ht d hmem] at hfull
        cases hfull

/-- Where line breaks follow a text, nothing is found but what is found in the text alone, or the
first of the line breaks. -/
theorem Kind.lexeme?_lineBreaks {kind : Kind} {start : Bool} {s t : Text} {l : Lexeme}
    (ht : ∀ c ∈ t, c = '\n') (h : kind.lexeme? start (s ++ t) = some l) :
    kind.lexeme? start s ≠ none ∨ s = [] ∧ kind = .newline := by
  have hb := Kind.lexeme?_begins h
  have hfront : l.taken.length ≤ s.length → kind.lexeme? start s ≠ none := by
    intro hl
    obtain ⟨u, -, hu⟩ := Kind.lexeme?_front h hl
    rw [hu]
    exact Option.some_ne_none _
  cases kind with
  | pageBreak => exact .inl (hfront ((pageBreak?_ends h).not_lt hb ht))
  | title | subtitle | minorTitle =>
      cases start with
      | true => exact .inl (hfront ((heading?_ends h).not_lt hb ht))
      | false => cases h
  | listItem =>
      cases start with
      | true =>
          left
          change listItem? (s ++ t) = some l at h
          change listItem? s ≠ none
          have hstop : ∀ c ∈ t.head?, isMark c = false := by
            intro c hc
            rw [ht c (List.mem_of_head? hc)]
            rfl
          simp only [listItem?, (span_append (.inr hstop)).1] at h ⊢
          split at h
          · rename_i hstar
            rw [if_pos hstar]
            exact Option.some_ne_none _
          · cases h
      | false => cases h
  | literalBlock => exact .inl (hfront ((literalBlock?_ends h).not_lt hb ht))
  | tableStart => exact .inl (hfront ((tableStart?_ends h).not_lt hb ht))
  | image => exact .inl (hfront ((image?_ends h).not_lt hb ht))
  | newline =>
      by_cases hs : s = []
      · exact .inr ⟨hs, rfl⟩
      · left
        apply hfront
        simp only [lexeme?, newline?] at h
        split at h <;> cases h
        exact List.length_pos_iff.2 hs

theorem lexeme?_eq_none_iff {start : Bool} {s : Text} :
    lexeme? start s = none ↔ ∀ kind : Kind, kind.lexeme? start s = none := by
  simp only [lexeme?, List.findSome?_eq_none_iff]
  exact ⟨fun h kind => h kind (Kind.mem_all kind), fun h kind _ => h kind⟩

theorem lexeme?_nil (start : Bool) : lexeme? start [] = none := by
  cases h : lexeme? start [] with
  | none => rfl
  | some l =>
      have hb := lexeme?_begins h
      exact absurd (List.append_eq_nil_iff.1 hb.1).1 (taken_ne_nil hb)

theorem find?_nil : find? [] = none := by
  rw [find?, findFrom?.eq_def, lexeme?_nil]

/-- A line break before line breaks is the only token there. -/
theorem lexeme?_newline {start : Bool} {t : Text} (ht : ∀ c ∈ t, c = '\n') :
    lexeme? start ('\n' :: t) = some ⟨.newline, ['\n'], t⟩ := by
  have ht' : ∀ c ∈ '\n' :: t, c = '\n' := by simpa using ht
  cases h : lexeme? start ('\n' :: t) with
  | none =>
      have hn := lexeme?_eq_none_iff.1 h .newline
      cases hn
  | some l =>
      have hk := lexeme?_eq_some h
      obtain hnil | ⟨-, hkind⟩ := Kind.lexeme?_lineBreaks (s := []) ht' hk
      · exact absurd (lexeme?_eq_none_iff.1 (lexeme?_nil start) _) hnil
      · rw [hkind] at hk
        exact hk.symm

theorem findFrom?_lineBreaks {passed s t : Text} (ht : ∀ c ∈ t, c = '\n')
    (h : findFrom? passed s = none) :
    findFrom? passed (s ++ '\n' :: t) = some ⟨⟨.newline, ['\n'], t⟩, passed.reverse ++ s⟩ := by
  induction s generalizing passed with
  | nil =>
      rw [List.nil_append, findFrom?.eq_def, lexeme?_newline ht, List.append_nil]
  | cons c s ih =>
      rw [findFrom?.eq_def] at h
      split at h
      · cases h
      · rename_i hnone
        have hnone' : lexeme? passed.isEmpty (c :: s ++ '\n' :: t) = none := by
          refine lexeme?_eq_none_iff.2 fun kind => ?_
          cases hk : kind.lexeme? passed.isEmpty (c :: s ++ '\n' :: t) with
          | none => rfl
          | some l =>
              obtain hs | ⟨hs, -⟩ := Kind.lexeme?_lineBreaks (by simpa using ht) hk
              · exact absurd (lexeme?_eq_none_iff.1 hnone kind) hs
              · cases hs
        rw [findFrom?.eq_def, hnone']
        simpa using ih h

/-- Line breaks after a text without tokens: the first of them is found, and the text before it. -/
theorem find?_lineBreaks {s t : Text} (ht : ∀ c ∈ t, c = '\n') (h : find? s = none) :
    find? (s ++ '\n' :: t) = some ⟨⟨.newline, ['\n'], t⟩, s⟩ :=
  findFrom?_lineBreaks ht h

end WikiDocs.Token

import WikiDocs.Proofs.BlockStarts

/-!
The grammar of headings. How many signs a text opens with decides which heading
it can begin; it begins that one if as many signs follow a text without signs,
and else none.
-/

namespace WikiDocs.Token

open Pattern Text

/-- A text opens with blanks and then with `k` signs, no fewer and no more. -/
structure Opens (s gap : Text) (k : Nat) (rest : Text) : Prop where
  whole : s = gap ++ (List.replicate k '=' ++ rest)
  blank : ∀ c ∈ gap, isBlank c = true
  stop_blank : ∀ c ∈ (List.replicate k '=' ++ rest).head?, isBlank c = false
  stop_sign : ∀ c ∈ rest.head?, c ≠ '='

/-- A text other than nothing and without signs stands before `k` signs. -/
structure Closes (rest : Text) (k : Nat) (text after : Text) : Prop where
  whole : rest = text ++ (List.replicate k '=' ++ after)
  text_ne : text ≠ []
  free : '=' ∉ text

variable {s gap rest text after : Text} {k : Nat} {level : Level}

theorem exists_opens (s : Text) : ∃ gap k rest, Opens s gap k rest := by
  obtain ⟨gap, s, rfl, -, -, hblank, hstop⟩ := exists_run isBlank s
  obtain ⟨signs, rest, rfl, -, -, hsign, hstop'⟩ := exists_run (· == '=') s
  have hsigns : signs = List.replicate signs.length '=' :=
    List.eq_replicate_iff.2 ⟨rfl, fun c hc => eq_of_beq (hsign c hc)⟩
  rw [hsigns] at hstop ⊢
  exact ⟨gap, signs.length, rest, rfl, hblank, hstop,
    fun c hc => beq_eq_false_iff_ne.1 (hstop' c hc)⟩

namespace Opens

theorem spans (h : Opens s gap k rest) :
    s.takeWhile isBlank = gap ∧ s.dropWhile isBlank = List.replicate k '=' ++ rest ∧
      ((s.dropWhile isBlank).takeWhile (· == '=')) = List.replicate k '=' ∧
      (s.dropWhile isBlank).dropWhile (· == '=') = rest := by
  have hsign : ∀ c ∈ List.replicate k '=', (c == '=') = true := by
    intro c hc
    rw [(List.mem_replicate.1 hc).2]
    rfl
  obtain ⟨htake, hdrop⟩ := cut_run h.blank h.stop_blank
  obtain ⟨htake', hdrop'⟩ := cut_run hsign fun c hc => beq_eq_false_iff_ne.2 (h.stop_sign c hc)
  rw [h.whole, htake, hdrop]
  exact ⟨rfl, rfl, htake', hdrop'⟩

/-- A text opens in one way only. -/
theorem unique {gap' rest' : Text} {k' : Nat} (h : Opens s gap k rest)
    (h' : Opens s gap' k' rest') : gap = gap' ∧ k = k' ∧ rest = rest' := by
  obtain ⟨htake, -, hsigns, hdrop⟩ := h.spans
  obtain ⟨htake', -, hsigns', hdrop'⟩ := h'.spans
  refine ⟨htake.symm.trans htake', ?_, hdrop.symm.trans hdrop'⟩
  have hlength := congrArg List.length (hsigns.symm.trans hsigns')
  rwa [List.length_replicate, List.length_replicate] at hlength

theorem heads (h : Opens s gap level.signs rest) (hclose : Closes rest level.signs text after) :
    Heads level gap text after s where
  whole := by rw [h.whole, hclose.whole]; simp
  blank := h.blank
  text_ne := hclose.text_ne
  free := hclose.free

end Opens

namespace Heads

theorem opens (h : Heads level gap text after s) :
    Opens s gap level.signs (text ++ (List.replicate level.signs '=' ++ after)) where
  whole := by rw [h.whole]; simp
  blank := h.blank
  stop_blank := by
    intro c hc
    have hsign : c = '=' := by
      cases level <;> simpa [Level.signs, List.replicate_succ, eq_comm] using hc
    rw [hsign]
    decide
  stop_sign := by
    intro c hc
    rw [List.head?_append_of_ne_nil _ h.text_ne] at hc
    exact ne_of_mem_of_not_mem (List.mem_of_mem_head? hc) h.free

theorem lexeme?_eq (h : Heads level gap text after s) :
    level.kind.lexeme? true s = some ⟨.heading level (trim text),
      gap ++ (List.replicate level.signs '=' ++ (text ++ List.replicate level.signs '=')),
        after⟩ := by
  rw [Kind.lexeme?_eq]
  cases level with
  | title => exact congrArg (Option.map _) (h.matchAt? (.inr rfl))
  | subtitle => exact congrArg (Option.map _) (h.matchAt? (.inl rfl))
  | minorTitle => exact congrArg (Option.map _) (h.matchAt? (.inl rfl))

end Heads

/-- A text begins a heading of the level with as many signs as it opens with, or none. -/
theorem Opens.lexeme?_ne_none_iff (h : Opens s gap k rest) :
    level.kind.lexeme? true s ≠ none ↔
      level.signs = k ∧ ∃ text after, Closes rest k text after := by
  constructor
  · intro hsome
    obtain ⟨l, hl⟩ := Option.ne_none_iff_exists'.1 hsome
    rw [lexeme?_level, if_pos rfl] at hl
    obtain ⟨gap', text, after, hheads, -⟩ := heads_of_heading? hl
    obtain ⟨rfl, rfl, rfl⟩ := h.unique hheads.opens
    exact ⟨rfl, text, after, rfl, hheads.text_ne, hheads.free⟩
  · rintro ⟨rfl, text, after, hclose⟩
    rw [(h.heads hclose).lexeme?_eq]
    exact Option.some_ne_none _

theorem match?_level_eq_none (h : level.kind.lexeme? true s = none) :
    level.kind.pattern.match? s = none := by
  exact not_not.1 fun hne => (Kind.match?_ne_none_iff (atStart_level level)).1 hne h

theorem exists_level (hpos : 1 ≤ k) (hle : k ≤ 3) : ∃ level : Level, level.signs = k := by
  obtain rfl | rfl | rfl : k = 1 ∨ k = 2 ∨ k = 3 := by omega
  · exact ⟨.minorTitle, rfl⟩
  · exact ⟨.subtitle, rfl⟩
  · exact ⟨.title, rfl⟩

theorem signs_bounds (level : Level) : 1 ≤ level.signs ∧ level.signs ≤ 3 := by
  cases level <;> decide

namespace Heads

/-- A heading of another level does not begin the same text. -/
theorem lexeme?_other {other : Level} (h : Heads level gap text after s) (hne : other ≠ level) :
    other.kind.lexeme? true s = none := by
  by_contra hsome
  have hlevel : level.kind.lexeme? true s ≠ none := by
    rw [h.lexeme?_eq]
    exact Option.some_ne_none _
  exact hne (level_unique hsome hlevel)

/-- Where a heading begins a text no token of another kind is found instead. -/
theorem find?_eq (h : Heads level gap text after s) :
    find? s = some ⟨⟨.heading level (trim text),
      gap ++ (List.replicate level.signs '=' ++ (text ++ List.replicate level.signs '=')), after⟩,
        []⟩ :=
  find?_of_atStart (atStart_level level) h.lexeme?_eq

end Heads

theorem lexeme?_of_heading {m : Match} (hfind : find? s = some m)
    (htoken : m.token = .heading level text) : level.kind.lexeme? true s ≠ none := by
  have hkind : m.token.kind = level.kind := by
    rw [htoken]
    rfl
  obtain ⟨-, hlexeme⟩ := of_find?_atStart hfind (by rw [hkind]; exact atStart_level level)
  rw [hkind] at hlexeme
  rw [hlexeme]
  exact Option.some_ne_none _

/-- A text is found to be a heading if it opens with one, two or three signs and as many follow a
text without signs. The heading is of the level with that many signs, and the patterns of the other
levels do not match; if the text is none, the patterns of all three do not. -/
theorem heading_found (s : Text) :
    (∃ gap k rest, Opens s gap k rest) ∧
    ∀ gap k rest, Opens s gap k rest →
      ((∃ m level text, find? s = some m ∧ m.token = .heading level text) ↔
        (1 ≤ k ∧ k ≤ 3) ∧ ∃ text after, Closes rest k text after) ∧
      (∀ m level text, find? s = some m → m.token = .heading level text → level.signs = k) ∧
      (∀ text after, 1 ≤ k → k ≤ 3 → Closes rest k text after →
        ∃ level : Level, level.signs = k ∧
          (∃ m, find? s = some m ∧ m.token = .heading level (trim text) ∧ m.start = 0 ∧
            m.taken = gap ++ (List.replicate k '=' ++ (text ++ List.replicate k '=')) ∧
            m.after = after) ∧
          ∀ other : Level, other ≠ level → other.kind.pattern.match? s = none) ∧
      (¬ ((1 ≤ k ∧ k ≤ 3) ∧ ∃ text after, Closes rest k text after) →
        ∀ level : Level, level.kind.pattern.match? s = none) := by
  refine ⟨exists_opens s, fun gap k rest h => ⟨⟨?_, ?_⟩, ?_, ?_, ?_⟩⟩
  · rintro ⟨m, level, text, hfind, htoken⟩
    obtain ⟨rfl, hclose⟩ := h.lexeme?_ne_none_iff.1 (lexeme?_of_heading hfind htoken)
    exact ⟨signs_bounds level, hclose⟩
  · rintro ⟨⟨hpos, hle⟩, text, after, hclose⟩
    obtain ⟨level, rfl⟩ := exists_level hpos hle
    exact ⟨_, level, trim text, (h.heads hclose).find?_eq, rfl⟩
  · intro m level text hfind htoken
    exact (h.lexeme?_ne_none_iff.1 (lexeme?_of_heading hfind htoken)).1
  · intro text after hpos hle hclose
    obtain ⟨level, rfl⟩ := exists_level hpos hle
    have hheads := h.heads hclose
    exact ⟨level, rfl, ⟨_, hheads.find?_eq, rfl, rfl, rfl, rfl⟩,
      fun other hne => match?_level_eq_none (hheads.lexeme?_other hne)⟩
  · intro hnot level
    refine match?_level_eq_none ?_
    by_contra hne
    obtain ⟨rfl, hclose⟩ := h.lexeme?_ne_none_iff.1 hne
    exact hnot ⟨signs_bounds level, hclose⟩

end WikiDocs.Token

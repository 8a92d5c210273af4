import WikiDocs.Proofs.Arbitration

/-!
Blocks at the start of a line. Headings and list items exclude each other there,
and nothing else begins a line beside one of them but a line break, which comes
last in the order of priority. So a line starts a block just in case a block is
the token found in it.
-/

namespace WikiDocs.Token

open Pattern Text

variable {line s : Text} {kind other : Kind}

theorem atStart_level (level : Level) : level.kind.atStart = true := by cases level <;> rfl

theorem lexeme?_level (level : Level) (start : Bool) (s : Text) :
    level.kind.lexeme? start s = if start then heading? level s else none := by
  cases level <;> rfl

theorem signs_injective {level level' : Level} (h : level.signs = level'.signs) : level = level' := by
  cases level <;> cases level' <;> first | rfl | cases h

theorem Kind.lexeme?_inside (h : kind.atStart = true) (s : Text) :
    kind.lexeme? false s = none := by
  cases kind with
  | title | subtitle | minorTitle | listItem => rfl
  | pageBreak | literalBlock | tableStart | image | newline => cases h

/-- The pattern of a heading or of a list item has a match in a text only if it has one at the
start. -/
theorem Kind.match?_ne_none_iff (h : kind.atStart = true) :
    kind.pattern.match? s ≠ none ↔ kind.lexeme? true s ≠ none := by
  constructor
  · contrapose!
    intro hnone
    refine matchFrom?_eq_none fun front back after hs hleads => Kind.lexeme?_of_leadsTo hleads ?_
    cases front with
    | nil =>
        rw [List.nil_append] at hs
        rw [← hs]
        exact hnone
    | cons c front => exact Kind.lexeme?_inside h back
  · intro hsome
    have hreadings : kind.pattern.readings (true && ([] : Text).isEmpty) s ≠ [] :=
      mt Kind.readings_eq_nil_iff.1 hsome
    exact matchFrom?_ne_none hreadings

theorem sign_of_lexeme? {level : Level} (h : level.kind.lexeme? true line ≠ none) :
    ∃ rest, line.dropWhile isBlank = '=' :: rest := by
  obtain ⟨l, hl⟩ := Option.ne_none_iff_exists'.1 h
  rw [lexeme?_level, if_pos rfl] at hl
  exact sign_of_heading? hl

theorem not_listItem_of_level {level : Level} (h : level.kind.lexeme? true line ≠ none) :
    Kind.lexeme? .listItem true line = none := by
  by_contra hitem
  obtain ⟨rest, hdrop⟩ := sign_of_lexeme? h
  obtain ⟨l, hl⟩ := Option.ne_none_iff_exists'.1 hitem
  obtain ⟨c, rest', rfl, hmark⟩ := mark_of_listItem? hl
  rw [List.dropWhile_cons_of_neg (by simp [isBlank_of_isMark hmark])] at hdrop
  cases hdrop
  cases hmark

/-- A line opens with as many signs as one level has. -/
theorem level_unique {level level' : Level} (h : level.kind.lexeme? true line ≠ none)
    (h' : level'.kind.lexeme? true line ≠ none) : level = level' := by
  rw [lexeme?_level, if_pos rfl, heading?_ne_none_iff] at h h'
  exact signs_injective (h.1.symm.trans h'.1)

theorem Kind.level_or_listItem (h : kind.atStart = true) :
    (∃ level : Level, kind = level.kind) ∨ kind = .listItem := by
  cases kind with
  | title => exact .inl ⟨.title, rfl⟩
  | subtitle => exact .inl ⟨.subtitle, rfl⟩
  | minorTitle => exact .inl ⟨.minorTitle, rfl⟩
  | listItem => exact .inr rfl
  | pageBreak | literalBlock | tableStart | image | newline => cases h

/-- No two kinds of block begin the same line. -/
theorem Kind.eq_of_atStart (hkind : kind.atStart = true) (hother : other.atStart = true)
    (h : kind.lexeme? true line ≠ none) (h' : other.lexeme? true line ≠ none) : kind = other := by
  obtain ⟨level, rfl⟩ | rfl := Kind.level_or_listItem hkind
  · obtain ⟨level', rfl⟩ | rfl := Kind.level_or_listItem hother
    · rw [level_unique h h']
    · exact absurd (not_listItem_of_level h) h'
  · obtain ⟨level', rfl⟩ | rfl := Kind.level_or_listItem hother
    · exact absurd (not_listItem_of_level h') h
    · rfl

/-- An image begins with a backslash before a space, which is neither a list item nor a heading. -/
theorem image?_of_atStart (hkind : kind.atStart = true) (h : kind.lexeme? true line ≠ none) :
    image? line = none := by
  by_contra himage
  obtain ⟨rest, hlead⟩ : ∃ rest, line = '\\' :: ' ' :: rest := by
    obtain ⟨l, hl⟩ := Option.ne_none_iff_exists'.1 himage
    obtain ⟨s, hs, -⟩ := Option.bind_eq_some_iff.1 hl
    exact ⟨_, dropLead_eq_some_iff.1 hs⟩
  obtain ⟨level, rfl⟩ | rfl := Kind.level_or_listItem hkind
  · obtain ⟨rest', hdrop⟩ := sign_of_lexeme? h
    rw [hlead] at hdrop
    cases hdrop
  · rw [hlead] at h
    exact h rfl

/-- Beside a block nothing begins a line but a line break. -/
theorem Kind.eq_newline_of_atStart (hkind : kind.atStart = true) (hother : other.atStart = false)
    (h : kind.lexeme? true line ≠ none) (h' : other.lexeme? true line ≠ none) :
    other = .newline := by
  have hline : startsBlock line = true := startsBlock_iff.2 ⟨kind, hkind, h⟩
  obtain ⟨c, rest, hdrop, hsign⟩ := sign_of_startsBlock hline
  cases other with
  | pageBreak => exact absurd (pageBreak?_of_head (isWord_of_dropWhile hdrop hsign)) h'
  | literalBlock =>
      have hcolons := colons_of_startsBlock hline
      refine absurd ?_ h'
      rw [Kind.lexeme?, literalBlock?, hcolons]
      rfl
  | tableStart =>
      exfalso
      obtain ⟨after, rfl⟩ | ⟨after, rfl⟩ := tableStart?_ne_none_iff.1 h'
      all_goals
        cases hdrop
        revert hsign
        decide
  | image => exact absurd (image?_of_atStart hkind h) h'
  | newline => rfl
  | title | subtitle | minorTitle | listItem => cases hother

theorem Kind.priority_lt_newline (h : kind.atStart = true) :
    kind.priority < Kind.priority .newline := by
  revert h
  cases kind <;> decide

/-- A block that begins a line is the token of the line. -/
theorem find?_of_atStart {l : Lexeme} (hkind : kind.atStart = true)
    (h : kind.lexeme? true line = some l) : find? line = some { l with before := [] } := by
  have hsome : kind.lexeme? true line ≠ none := by
    rw [h]
    exact Option.some_ne_none l
  have hfirst : lexeme? true line = some l := by
    refine lexeme?_of_first h fun other hlt => ?_
    by_contra hother
    cases hat : other.atStart with
    | true =>
        rw [Kind.eq_of_atStart hkind hat hsome hother] at hlt
        exact Nat.lt_irrefl _ hlt
    | false =>
        rw [Kind.eq_newline_of_atStart hkind hat hsome hother] at hlt
        exact Nat.lt_asymm hlt (Kind.priority_lt_newline hkind)
  rw [find?, findFrom?.eq_def, List.isEmpty_nil, hfirst]
  rfl

/-- A line starts a block if the pattern of a heading or of a list item matches in it, and just in
case the token found in it is a block, which is then found at its start. It is of the one kind whose
pattern matches; a kind that is not bound to the start can match there too only if it has a lower
priority, and only as a line break. -/
theorem startsBlock_agrees (line : Text) :
    (startsBlock line = true ↔
      ∃ kind : Kind, kind.atStart = true ∧ kind.pattern.match? line ≠ none) ∧
    (startsBlock line = true ↔ ∃ m, find? line = some m ∧ m.token.kind.atStart = true) ∧
    (∀ m, find? line = some m → m.token.kind.atStart = true → m.start = 0) ∧
    ∀ kind : Kind, kind.atStart = true → kind.pattern.match? line ≠ none →
      (∃ m, find? line = some m ∧ m.token.kind = kind) ∧
      ∀ other : Kind, other ≠ kind → other.pattern.readings true line ≠ [] →
        kind.priority < other.priority ∧ other = .newline := by
  have hblock : startsBlock line = true ↔
      ∃ kind : Kind, kind.atStart = true ∧ kind.pattern.match? line ≠ none := by
    rw [startsBlock_iff]
    exact exists_congr fun kind => and_congr_right fun h => (Kind.match?_ne_none_iff h).symm
  refine ⟨hblock, ⟨fun h => ?_, ?_⟩, fun m hm hat => ?_, fun kind hkind hmatch => ?_⟩
  · obtain ⟨m, hm, -, hat⟩ := find?_of_startsBlock h
    exact ⟨m, hm, hat⟩
  · rintro ⟨m, hm, hat⟩
    obtain ⟨-, hl⟩ := of_find?_atStart hm hat
    exact startsBlock_iff.2 ⟨m.token.kind, hat, by rw [hl]; exact Option.some_ne_none _⟩
  · obtain ⟨hbefore, -⟩ := of_find?_atStart hm hat
    rw [Match.start, hbefore]
    rfl
  · have hsome := (Kind.match?_ne_none_iff hkind).1 hmatch
    obtain ⟨l, hl⟩ := Option.ne_none_iff_exists'.1 hsome
    refine ⟨⟨_, find?_of_atStart hkind hl, Kind.kind_of_lexeme? hl⟩, fun other hne hreadings => ?_⟩
    have hother : other.lexeme? true line ≠ none := mt Kind.readings_eq_nil_iff.2 hreadings
    cases hat : other.atStart with
    | true => exact absurd (Kind.eq_of_atStart hkind hat hsome hother).symm hne
    | false =>
        obtain rfl := Kind.eq_newline_of_atStart hkind hat hsome hother
        exact ⟨Kind.priority_lt_newline hkind, rfl⟩

end WikiDocs.Token

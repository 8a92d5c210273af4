import WikiDocs.Proofs.BlockLines

/-!
Texts that go on. Where a token begins a text, a token of the same kind begins
it whatever follows. So no token is in the front of a text without tokens, and
none is in the text before a token.
-/

namespace WikiDocs.Token

open Text

variable {s t : Text}

theorem takeWhile_prefix_append (p : Char → Bool) (s t : Text) :
    s.takeWhile p <+: (s ++ t).takeWhile p := by
  rw [List.takeWhile_append]
  split
  · exact (List.takeWhile_prefix p).trans (List.prefix_append s _)
  · exact List.prefix_refl _

theorem stamp?_digits (y₁ y₂ m₁ m₂ d₁ : Char) (s : Text) :
    stamp? ('2' :: '0' :: y₁ :: y₂ :: m₁ :: m₂ :: d₁ :: s) =
      if '0' ≤ y₁ ∧ y₁ ≤ '3' ∧ isDigit y₂ ∧ (m₁ = '0' ∨ m₁ = '1') ∧ isDigit m₂ ∧
          '0' ≤ d₁ ∧ d₁ ≤ '3' ∧ s.takeWhile isDigit ≠ [] then
        some ('2' :: '0' :: y₁ :: y₂ :: m₁ :: m₂ :: d₁ :: s.takeWhile isDigit,
          s.dropWhile isDigit)
      else none := rfl

theorem stamp?_longer (h : stamp? s ≠ none) : stamp? (s ++ t) ≠ none := by
  unfold stamp? at h
  split at h
  · rename_i y₁ y₂ m₁ m₂ d₁ rest
    simp only [ne_eq, ite_eq_right_iff, reduceCtorEq, imp_false, not_not] at h
    obtain ⟨h₁, h₂, h₃, h₄, h₅, h₆, h₇, hmore⟩ := h
    have hlonger : (rest ++ t).takeWhile isDigit ≠ [] := fun hnil =>
      hmore (List.prefix_nil.1 (hnil ▸ takeWhile_prefix_append isDigit rest t))
    simp only [List.cons_append]
    rw [stamp?_digits, if_pos ⟨h₁, h₂, h₃, h₄, h₅, h₆, h₇, hlonger⟩]
    exact Option.some_ne_none _
  · exact absurd rfl h

theorem pageBreak?_ne_none_iff :
    pageBreak? s ≠ none ↔ s.takeWhile isWord ≠ [] ∧ (s.dropWhile isWord).takeWhile isBlank ≠ [] ∧
      stamp? ((s.dropWhile isWord).dropWhile isBlank) ≠ none := by
  simp only [pageBreak?]
  split
  · rename_i hnil
    refine ⟨fun h => absurd rfl h, ?_⟩
    rintro ⟨htitle, hgap, -⟩
    exact absurd hnil (not_or.2 ⟨htitle, hgap⟩)
  · rename_i hfull
    rw [ne_eq, Option.map_eq_none_iff]
    exact ⟨fun h => ⟨(not_or.1 hfull).1, (not_or.1 hfull).2, h⟩, fun h => h.2.2⟩

theorem ne_nil_of_stamp? (h : stamp? s ≠ none) : s ≠ [] := by
  rintro rfl
  exact h rfl

theorem ne_nil_of_takeWhile {p : Char → Bool} (h : s.takeWhile p ≠ []) : s ≠ [] := by
  rintro rfl
  exact h rfl

theorem pageBreak?_longer (h : pageBreak? s ≠ none) : pageBreak? (s ++ t) ≠ none := by
  obtain ⟨htitle, hgap, hstamp⟩ := pageBreak?_ne_none_iff.1 h
  obtain ⟨htake₁, hdrop₁⟩ := span_append (t := t) (.inl (ne_nil_of_takeWhile hgap))
  obtain ⟨htake₂, hdrop₂⟩ := span_append (t := t) (.inl (ne_nil_of_stamp? hstamp))
  rw [pageBreak?_ne_none_iff, htake₁, hdrop₁, htake₂, hdrop₂]
  exact ⟨htitle, hgap, stamp?_longer hstamp⟩

theorem heading?_longer {level : Level} (h : heading? level s ≠ none) :
    heading? level (s ++ t) ≠ none := by
  obtain ⟨hopen, htext, hclose⟩ := heading?_ne_none_iff.1 h
  have hsigns : 0 < level.signs := by cases level <;> decide
  have hne₁ : (s.dropWhile isBlank).dropWhile (· == '=') ≠ [] := ne_nil_of_takeWhile htext
  have hne₀ : s.dropWhile isBlank ≠ [] := by
    intro hnil
    exact hne₁ (by rw [hnil]; rfl)
  have hne₂ : ((s.dropWhile isBlank).dropWhile (· == '=')).dropWhile (· != '=') ≠ [] := by
    intro hnil
    rw [hnil] at hclose
    exact absurd hclose (Nat.not_le_of_lt hsigns)
  obtain ⟨-, hdrop₀⟩ := span_append (t := t) (.inl hne₀)
  obtain ⟨htake₁, hdrop₁⟩ := span_append (t := t) (.inl hne₁)
  obtain ⟨htake₂, hdrop₂⟩ := span_append (t := t) (.inl hne₂)
  rw [heading?_ne_none_iff, hdrop₀, htake₁, hdrop₁, htake₂, hdrop₂]
  exact ⟨hopen, htext, hclose.trans (takeWhile_prefix_append _ _ t).length_le⟩

theorem listItem?_ne_none_iff : listItem? s ≠ none ↔ '*' ∈ s.takeWhile isMark := by
  simp only [listItem?]
  split <;> simp_all

theorem listItem?_longer (h : listItem? s ≠ none) : listItem? (s ++ t) ≠ none :=
  listItem?_ne_none_iff.2
    ((takeWhile_prefix_append isMark s t).subset (listItem?_ne_none_iff.1 h))

theorem dropLead_ne_none_iff {lead : Text} : dropLead lead s ≠ none ↔ lead <+: s := by
  rw [Option.ne_none_iff_exists']
  exact ⟨fun ⟨rest, h⟩ => ⟨rest, (dropLead_eq_some_iff.1 h).symm⟩,
    fun ⟨rest, h⟩ => ⟨rest, dropLead_eq_some_iff.2 h.symm⟩⟩

theorem literalBlock?_ne_none_iff :
    literalBlock? s ≠ none ↔ [':', ':'] <+: s.dropWhile isBlank := by
  rw [literalBlock?, ne_eq, Option.map_eq_none_iff, ← ne_eq, dropLead_ne_none_iff]

theorem literalBlock?_longer (h : literalBlock? s ≠ none) : literalBlock? (s ++ t) ≠ none := by
  have hcolons := literalBlock?_ne_none_iff.1 h
  have hne : s.dropWhile isBlank ≠ [] := by
    intro hnil
    rw [hnil] at hcolons
    cases List.prefix_nil.1 hcolons
  rw [literalBlock?_ne_none_iff, (span_append (.inl hne)).2]
  exact hcolons.trans (List.prefix_append _ t)

theorem tableStart?_ne_none_iff :
    tableStart? s ≠ none ↔ ['\x7b', '|'] <+: s ∨ ['\x7b', '\\', '|'] <+: s := by
  unfold tableStart?
  split
  · simp
  · simp
  · rename_i hbar hback
    refine ⟨fun h => absurd rfl h, ?_⟩
    rintro (⟨rest, rfl⟩ | ⟨rest, rfl⟩)
    · exact absurd rfl (hbar rest)
    · exact absurd rfl (hback rest)

theorem tableStart?_longer (h : tableStart? s ≠ none) : tableStart? (s ++ t) ≠ none := by
  rw [tableStart?_ne_none_iff] at h ⊢
  exact h.imp (·.trans (List.prefix_append s t)) (·.trans (List.prefix_append s t))

theorem image?_ne_none_iff :
    image? s ≠ none ↔ ∃ s₁ s₂ s₃, s = imageLead ++ s₁ ∧ s₁.takeWhile isDigit ≠ [] ∧
      s₁.dropWhile isDigit = imagePixels ++ s₂ ∧ label? (s₂.takeWhile (· != '<')) ≠ none ∧
      s₂.dropWhile (· != '<') = imagePath ++ s₃ ∧ s₃.takeWhile (· != '>') ≠ [] ∧
      imageEnd <+: s₃.dropWhile (· != '>') := by
  rw [Option.ne_none_iff_exists']
  simp only [image?, Option.bind_eq_bind, Option.bind_eq_some_iff, dropLead_eq_some_iff,
    Option.guard_eq_some', Option.ne_none_iff_exists']
  constructor
  · rintro ⟨l, s₁, h₁, _, hdigits, s₂, h₂, label, hlabel, s₃, h₃, _, hpath, after, h₄, -⟩
    exact ⟨s₁, s₂, s₃, h₁, hdigits, h₂, ⟨label, hlabel⟩, h₃, hpath, after, h₄.symm⟩
  · rintro ⟨s₁, s₂, s₃, h₁, hdigits, h₂, ⟨label, hlabel⟩, h₃, hpath, after, h₄⟩
    exact ⟨_, s₁, h₁, (), hdigits, s₂, h₂, label, hlabel, s₃, h₃, (), hpath, after, h₄.symm, rfl⟩

theorem image?_longer (h : image? s ≠ none) : image? (s ++ t) ≠ none := by
  obtain ⟨s₁, s₂, s₃, rfl, hdigits, h₂, hlabel, h₃, hpath, hend⟩ := image?_ne_none_iff.1 h
  have hne₁ : s₁.dropWhile isDigit ≠ [] := by
    rw [h₂]
    exact List.append_ne_nil_of_left_ne_nil (List.cons_ne_nil _ _) s₂
  have hne₂ : s₂.dropWhile (· != '<') ≠ [] := by
    rw [h₃]
    exact List.append_ne_nil_of_left_ne_nil (by decide) s₃
  have hne₃ : s₃.dropWhile (· != '>') ≠ [] := by
    intro hnil
    rw [hnil] at hend
    cases List.prefix_nil.1 hend
  obtain ⟨htake₁, hdrop₁⟩ := span_append (t := t) (.inl hne₁)
  obtain ⟨htake₂, hdrop₂⟩ := span_append (t := t) (.inl hne₂)
  obtain ⟨htake₃, hdrop₃⟩ := span_append (t := t) (.inl hne₃)
  refine image?_ne_none_iff.2
    ⟨s₁ ++ t, s₂ ++ t, s₃ ++ t, List.append_assoc .., ?_, ?_, ?_, ?_, ?_, ?_⟩
  · rwa [htake₁]
  · rw [hdrop₁, h₂, List.append_assoc]
  · rwa [htake₂]
  · rw [hdrop₂, h₃, List.append_assoc]
  · rwa [htake₃]
  · rw [hdrop₃]
    exact hend.trans (List.prefix_append _ t)

theorem newline?_ne_none_iff : newline? s ≠ none ↔ ['\n'] <+: s := by
  unfold newline?
  split
  · simp
  · rename_i hbreak
    refine ⟨fun h => absurd rfl h, ?_⟩
    rintro ⟨rest, rfl⟩
    exact absurd rfl (hbreak rest)

/-- Where a token of a kind begins a text, one of that kind begins it whatever follows. -/
theorem Kind.lexeme?_longer {kind : Kind} {start : Bool} (h : kind.lexeme? start s ≠ none) :
    kind.lexeme? start (s ++ t) ≠ none := by
  cases kind with
  | pageBreak => exact pageBreak?_longer h
  | title | subtitle | minorTitle =>
      cases start with
      | true => exact heading?_longer h
      | false => exact absurd rfl h
  | listItem =>
      cases start with
      | true => exact listItem?_longer h
      | false => exact absurd rfl h
  | literalBlock => exact literalBlock?_longer h
  | tableStart => exact tableStart?_longer h
  | image => exact image?_longer h
  | newline =>
      exact newline?_ne_none_iff.2 ((newline?_ne_none_iff.1 h).trans (List.prefix_append s t))

theorem lexeme?_shorter {start : Bool} (h : lexeme? start (s ++ t) = none) :
    lexeme? start s = none := by
  rw [lexeme?_eq_none_iff] at h ⊢
  intro kind
  by_contra hkind
  exact Kind.lexeme?_longer hkind (h kind)

/-- No token is found in a text if none begins any of its ends. -/
theorem findFrom?_eq_none_iff {passed s : Text} :
    findFrom? passed s = none ↔
      ∀ front rest, s = front ++ rest → lexeme? (passed ++ front).isEmpty rest = none := by
  induction s generalizing passed with
  | nil =>
      rw [findFrom?.eq_def, lexeme?_nil]
      refine ⟨fun _ front rest h => ?_, fun _ => rfl⟩
      rw [(List.append_eq_nil_iff.1 h.symm).2]
      exact lexeme?_nil _
  | cons c s ih =>
      rw [findFrom?.eq_def]
      constructor
      · intro h front rest hs
        split at h
        · cases h
        · rename_i hnone
          cases front with
          | nil =>
              rw [List.append_nil, ← List.nil_append rest, ← hs]
              exact hnone
          | cons d front =>
              cases hs
              have hrest := ih.1 h front rest rfl
              rwa [List.isEmpty_eq_false_iff.2 (by simp)] at hrest ⊢
      · intro h
        have hnone := h [] (c :: s) rfl
        rw [List.append_nil] at hnone
        rw [hnone]
        refine ih.2 fun front rest hs => ?_
        have hrest := h (c :: front) rest (by rw [hs, List.cons_append])
        rwa [List.isEmpty_eq_false_iff.2 (by simp)] at hrest ⊢

theorem find?_eq_none_iff :
    find? s = none ↔ ∀ front rest, s = front ++ rest → lexeme? front.isEmpty rest = none :=
  findFrom?_eq_none_iff

/-- Where no token is found, none begins any end of the text. -/
theorem lexeme?_of_suffix (h : find? s = none) {rest : Text} (hrest : rest <:+ s) :
    ∃ start, ∀ kind : Kind, kind.lexeme? start rest = none := by
  obtain ⟨front, rfl⟩ := hrest
  exact ⟨front.isEmpty, lexeme?_eq_none_iff.1 (find?_eq_none_iff.1 h front rest rfl)⟩

/-- The front of a text without tokens has none. -/
theorem find?_shorter (h : find? (s ++ t) = none) : find? s = none := by
  rw [find?_eq_none_iff] at h ⊢
  rintro front rest rfl
  exact lexeme?_shorter (h front (rest ++ t) (List.append_assoc front rest t))

/-- Before the token that is found no token begins. -/
theorem lexeme?_before {passed s : Text} {m : Match} (h : findFrom? passed s = some m) :
    ∃ front, m.before = passed.reverse ++ front ∧ s = front ++ (m.taken ++ m.after) ∧
      ∀ f r, front = f ++ r → r ≠ [] →
        lexeme? (passed ++ f).isEmpty (r ++ (m.taken ++ m.after)) = none := by
  fun_induction findFrom? passed s with
  | case1 passed s l hl =>
      cases h
      refine ⟨[], (List.append_nil _).symm, (lexeme?_begins hl).1.symm, fun f r hfr hr => ?_⟩
      exact absurd (List.append_eq_nil_iff.1 hfr.symm).2 hr
  | case2 => cases h
  | case3 passed c s hnone ih =>
      obtain ⟨front, hbefore, rfl, hnot⟩ := ih h
      refine ⟨c :: front, by simp [hbefore], rfl, fun f r hfr hr => ?_⟩
      cases f with
      | nil =>
          rw [List.append_nil, ← List.nil_append r, ← hfr]
          exact hnone
      | cons d f =>
          cases hfr
          have hrest := hnot f r rfl hr
          rwa [List.isEmpty_eq_false_iff.2 (by simp)] at hrest ⊢

/-- The text before a token holds no token. -/
theorem find?_before {m : Match} (h : find? s = some m) : find? m.before = none := by
  obtain ⟨front, hbefore, -, hnot⟩ := lexeme?_before h
  rw [hbefore, find?_eq_none_iff]
  rintro f r hfr
  by_cases hr : r = []
  · rw [hr]
    exact lexeme?_nil _
  · exact lexeme?_shorter (hnot f r hfr hr)

end WikiDocs.Token

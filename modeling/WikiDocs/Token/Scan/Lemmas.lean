import WikiDocs.Token.Scan

/-!
What finding a token does to the text: the token and the texts around it make
up the whole, and the token takes a character that is neither a space nor a
hyphen.
-/

namespace WikiDocs.Token

open Text

/-- A token begins the text `s`: what it takes and what follows make up `s`, and it takes a
character other than spaces and hyphens. -/
def Lexeme.Begins (l : Lexeme) (s : Text) : Prop := l.taken ++ l.after = s ∧ 0 < l.taken.substance

theorem substance_pos {s : Text} {c : Char} (hc : c ∈ s) (h : (c != ' ' && c != '-') = true) :
    0 < s.substance := List.countP_pos_iff.2 ⟨c, hc, h⟩

theorem stamp?_append {s stamp after : Text} (h : stamp? s = some (stamp, after)) :
    stamp ++ after = s ∧ '2' ∈ stamp := by
  unfold stamp? at h
  split at h
  · rename_i y₁ y₂ m₁ m₂ d₁ s
    dsimp only at h
    split at h
    · cases h
      simp [List.takeWhile_append_dropWhile]
    · cases h
  · cases h

theorem pageBreak?_begins {s : Text} {l : Lexeme} (h : pageBreak? s = some l) : l.Begins s := by
  unfold pageBreak? at h
  dsimp only at h
  split at h
  · cases h
  · obtain ⟨⟨stamp, after⟩, hs, rfl⟩ := Option.map_eq_some_iff.1 h
    obtain ⟨happ, hmem⟩ := stamp?_append hs
    refine ⟨?_, substance_pos (c := '2') (by simp [hmem]) (by decide)⟩
    simp only [List.append_assoc, happ, List.takeWhile_append_dropWhile]

theorem heading?_begins {level : Level} {s : Text} {l : Lexeme} (h : heading? level s = some l) :
    l.Begins s := by
  unfold heading? at h
  dsimp only at h
  split at h
  · rename_i hc
    cases h
    refine ⟨?_, ?_⟩
    · simp only [List.append_assoc, List.take_append_drop, List.takeWhile_append_dropWhile]
    · have hlen : 0 < ((s.dropWhile isBlank).takeWhile (· == '=')).length := by
        rw [hc.1]; cases level <;> decide
      obtain ⟨c, hmem⟩ := List.exists_mem_of_length_pos hlen
      have heq : c = '=' := by simpa using List.all_eq_true.1 (List.all_takeWhile ..) c hmem
      exact substance_pos (c := c) (by simp [hmem]) (by subst heq; decide)
  · cases h

theorem listItem?_begins {s : Text} {l : Lexeme} (h : listItem? s = some l) : l.Begins s := by
  unfold listItem? at h
  dsimp only at h
  split at h
  · rename_i hc
    cases h
    refine ⟨?_, substance_pos (c := '*') (by simp [hc]) (by decide)⟩
    simp only [List.append_assoc, List.takeWhile_append_dropWhile]
  · cases h

theorem literalBlock?_begins {s : Text} {l : Lexeme} (h : literalBlock? s = some l) :
    l.Begins s := by
  unfold literalBlock? at h
  obtain ⟨after, hs, rfl⟩ := Option.map_eq_some_iff.1 h
  refine ⟨?_, substance_pos (c := ':') (by simp) (by decide)⟩
  rw [List.append_assoc, ← dropLead_eq_some_iff.1 hs, List.takeWhile_append_dropWhile]

theorem tableStart?_begins {s : Text} {l : Lexeme} (h : tableStart? s = some l) :
    l.Begins s := by
  unfold tableStart? at h
  split at h <;> cases h <;>
    exact ⟨rfl, substance_pos (c := '|') (by simp) (by decide)⟩

theorem image?_begins {s : Text} {l : Lexeme} (h : image? s = some l) : l.Begins s := by
  unfold image? at h
  obtain ⟨s₁, h₁, h⟩ := Option.bind_eq_some_iff.1 h
  obtain ⟨_, _, h⟩ := Option.bind_eq_some_iff.1 h
  obtain ⟨s₂, h₂, h⟩ := Option.bind_eq_some_iff.1 h
  obtain ⟨_, _, h⟩ := Option.bind_eq_some_iff.1 h
  obtain ⟨s₃, h₃, h⟩ := Option.bind_eq_some_iff.1 h
  obtain ⟨_, _, h⟩ := Option.bind_eq_some_iff.1 h
  obtain ⟨after, h₄, h⟩ := Option.bind_eq_some_iff.1 h
  cases h
  have e₁ := dropLead_eq_some_iff.1 h₁
  have e₂ := dropLead_eq_some_iff.1 h₂
  have e₃ := dropLead_eq_some_iff.1 h₃
  have e₄ := dropLead_eq_some_iff.1 h₄
  refine ⟨?_, substance_pos (c := '\\') (by simp [imageLead]) (by decide)⟩
  simp only [List.append_assoc]
  rw [← e₄, List.takeWhile_append_dropWhile, ← e₃, List.takeWhile_append_dropWhile, ← e₂,
    List.takeWhile_append_dropWhile, e₁]

theorem newline?_begins {s : Text} {l : Lexeme} (h : newline? s = some l) : l.Begins s := by
  unfold newline? at h
  split at h <;> cases h
  exact ⟨rfl, substance_pos (c := '\n') (by simp) (by decide)⟩

theorem Kind.lexeme?_begins {kind : Kind} {start : Bool} {s : Text} {l : Lexeme}
    (h : kind.lexeme? start s = some l) : l.Begins s := by
  unfold Kind.lexeme? at h
  cases kind with
  | pageBreak => exact pageBreak?_begins h
  | title | subtitle | minorTitle =>
    cases start with
    | true => exact heading?_begins h
    | false => cases h
  | listItem =>
    cases start with
    | true => exact listItem?_begins h
    | false => cases h
  | literalBlock => exact literalBlock?_begins h
  | tableStart => exact tableStart?_begins h
  | image => exact image?_begins h
  | newline => exact newline?_begins h

theorem lexeme?_begins {start : Bool} {s : Text} {l : Lexeme} (h : lexeme? start s = some l) :
    l.Begins s := by
  obtain ⟨kind, _, hk⟩ := List.exists_of_findSome?_eq_some h
  exact Kind.lexeme?_begins hk

theorem findFrom?_whole {passed s : Text} {m : Match} (h : findFrom? passed s = some m) :
    m.whole = passed.reverse ++ s ∧ 0 < m.taken.substance := by
  fun_induction findFrom? passed s with
  | case1 passed s l hl =>
    cases h
    obtain ⟨happ, hpos⟩ := lexeme?_begins hl
    exact ⟨by simp [Match.whole, happ], hpos⟩
  | case2 => cases h
  | case3 passed c s _ ih => simpa using ih h

/-- The text before a token, the token and the text after it make up the text searched. -/
theorem whole_of_find? {s : Text} {m : Match} (h : find? s = some m) : m.whole = s := by
  simpa using (findFrom?_whole h).1

theorem taken_substance_pos {s : Text} {m : Match} (h : find? s = some m) :
    0 < m.taken.substance := (findFrom?_whole h).2

/-- What surrounds a token has less substance than the text in which it was found. -/
theorem substance_lt_of_find? {s : Text} {m : Match} (h : find? s = some m) :
    m.before.substance + m.after.substance < s.substance := by
  have hw := congrArg Text.substance (whole_of_find? h)
  have hp := taken_substance_pos h
  simp only [Match.whole, substance_append] at hw
  omega

/-- What follows a table has less substance than the text that the table begins. -/
theorem substance_lt_of_cutTable? {s table rest : Text} (h : cutTable? s = some (table, rest)) :
    rest.substance < s.substance := by
  have happ := congrArg Text.substance (append_of_cutAfter h)
  have hmem : '|' ∈ table := (mark_suffix_of_cutAfter h).subset (by decide)
  have hp := substance_pos hmem (by decide)
  rw [substance_append] at happ
  omega

end WikiDocs.Token

import Mathlib.Data.Option.Basic
import WikiDocs.Token.Scan.Lemmas
import WikiDocs.Rst

/-!
Where tokens are found. Headings and list items are found only at the start of
a text, and not behind a list marker.
-/

namespace WikiDocs.Token

open Text

theorem Kind.priority_injective {kind kind' : Kind} (h : kind.priority = kind'.priority) :
    kind = kind' := by
  have hk := List.getElem_idxOf (List.idxOf_lt_length_of_mem kind.mem_all)
  have hk' := List.getElem_idxOf (List.idxOf_lt_length_of_mem kind'.mem_all)
  simp only [priority] at h
  rw [← hk, ← hk']
  simp only [h]

theorem Kind.kind_of_lexeme? {kind : Kind} {start : Bool} {s : Text} {l : Lexeme}
    (h : kind.lexeme? start s = some l) : l.token.kind = kind := by
  cases kind with
  | pageBreak =>
      simp only [lexeme?, pageBreak?] at h
      split at h
      · cases h
      · obtain ⟨_, -, rfl⟩ := Option.map_eq_some_iff.1 h
        rfl
  | title | subtitle | minorTitle =>
      simp only [lexeme?] at h
      split at h
      · simp only [heading?] at h
        split at h <;> cases h
        rfl
      · cases h
  | listItem =>
      simp only [lexeme?] at h
      split at h
      · simp only [listItem?] at h
        split at h <;> cases h
        rfl
      · cases h
  | literalBlock =>
      obtain ⟨_, -, rfl⟩ := Option.map_eq_some_iff.1 h
      rfl
  | tableStart =>
      simp only [lexeme?, tableStart?] at h
      split at h <;> cases h <;> rfl
  | image =>
      simp only [lexeme?, image?, Option.bind_eq_bind, Option.bind_eq_some_iff] at h
      obtain ⟨_, -, _, -, _, -, _, -, _, -, _, -, _, -, h⟩ := h
      cases h
      rfl
  | newline =>
      simp only [lexeme?, newline?] at h
      split at h <;> cases h
      rfl

theorem lexeme?_eq_some {start : Bool} {s : Text} {l : Lexeme} (h : lexeme? start s = some l) :
    l.token.kind.lexeme? start s = some l := by
  obtain ⟨kind, -, hk⟩ := List.exists_of_findSome?_eq_some h
  rwa [Kind.kind_of_lexeme? hk]

theorem lexeme?_of_findFrom? {passed s : Text} {m : Match} (h : findFrom? passed s = some m) :
    ∃ start, m.token.kind.lexeme? start (m.taken ++ m.after) = some m.toLexeme := by
  fun_induction findFrom? passed s with
  | case1 passed s l hl =>
      cases h
      obtain ⟨happend, -⟩ := lexeme?_begins hl
      exact ⟨_, happend ▸ lexeme?_eq_some hl⟩
  | case2 => cases h
  | case3 passed c s hnone ih => exact ih h

/-- Away from the start no heading and no list item is found. -/
theorem not_atStart_of_lexeme? {s : Text} {l : Lexeme} (h : lexeme? false s = some l) :
    l.token.kind.atStart = false := by
  have hk := lexeme?_eq_some h
  cases hkind : l.token.kind with
  | title | subtitle | minorTitle | listItem => simp [hkind, Kind.lexeme?] at hk
  | pageBreak | literalBlock | tableStart | image | newline => rfl

theorem not_atStart_of_findFrom? {passed s : Text} {m : Match} (hp : passed ≠ [])
    (h : findFrom? passed s = some m) : m.token.kind.atStart = false := by
  fun_induction findFrom? passed s with
  | case1 s passed l hl =>
      cases h
      have hstart : passed.isEmpty = false := by simpa using hp
      rw [hstart] at hl
      exact not_atStart_of_lexeme? hl
  | case2 => cases h
  | case3 passed c s _ ih => exact ih (List.cons_ne_nil _ _) h

/-- A heading or a list item is found with nothing before it. -/
theorem of_find?_atStart {s : Text} {m : Match} (h : find? s = some m)
    (ha : m.token.kind.atStart = true) :
    m.before = [] ∧ m.token.kind.lexeme? true s = some m.toLexeme := by
  rw [find?, findFrom?.eq_def] at h
  split at h
  · rename_i l hl
    cases h
    exact ⟨rfl, lexeme?_eq_some hl⟩
  · split at h
    · cases h
    · rw [not_atStart_of_findFrom? (List.cons_ne_nil _ _) h] at ha
      cases ha

theorem listMarker_chars (depth : Nat) : ∀ c ∈ Rst.listMarker depth, c = ' ' ∨ c = '-' := by
  intro c hc
  simp only [Rst.listMarker, List.mem_append, List.mem_replicate, List.mem_cons,
    List.not_mem_nil, or_false] at hc
  rcases hc with ⟨-, h⟩ | h | h
  · exact .inl h
  · exact .inr h
  · exact .inl h

theorem heading?_listMarker (level : Level) (depth : Nat) (s : Text) :
    heading? level (Rst.listMarker depth ++ s) = none := by
  have hdrop : (Rst.listMarker depth ++ s).dropWhile isBlank = '-' :: ' ' :: s := by
    rw [Rst.listMarker, List.append_assoc, List.dropWhile_append_of_pos]
    · rfl
    · intro c hc
      rw [(List.mem_replicate.1 hc).2]
      decide
  simp only [heading?, hdrop]
  cases level <;> simp [Level.signs]

theorem listItem?_listMarker (depth : Nat) (s : Text) :
    listItem? (Rst.listMarker depth ++ s) = none := by
  have htake : (Rst.listMarker depth ++ s).takeWhile isMark = [] := by
    cases depth with
    | zero => simp [Rst.listMarker, isMark]
    | succ n => simp [Rst.listMarker, List.replicate_succ, Nat.mul_succ, isMark]
  simp [listItem?, htake]

/-- A list marker keeps headings and list items from being found. -/
theorem not_atStart_of_listMarker {depth : Nat} {s : Text} {m : Match}
    (h : find? (Rst.listMarker depth ++ s) = some m) : m.token.kind.atStart = false := by
  cases ha : m.token.kind.atStart with
  | false => rfl
  | true =>
      obtain ⟨-, hl⟩ := of_find?_atStart h ha
      cases hk : m.token.kind with
      | title | subtitle | minorTitle =>
          rw [hk, Kind.lexeme?, if_pos rfl, heading?_listMarker] at hl
          cases hl
      | listItem =>
          rw [hk, Kind.lexeme?, if_pos rfl, listItem?_listMarker] at hl
          cases hl
      | pageBreak | literalBlock | tableStart | image | newline =>
          rw [hk] at ha
          cases ha

end WikiDocs.Token

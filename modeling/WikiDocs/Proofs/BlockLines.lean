import WikiDocs.Proofs.Joining
import WikiDocs.Proofs.Opening

/-!
Lines that start a block, joined to a pending text by a line break. Of the
tokens of the joined text only a heading can reach over the break: where the
text is blank and the line is a heading, or where the text opens a heading that
the line closes. Otherwise the break is found first, and then the block.
-/

namespace WikiDocs

open Text

namespace Text

theorem isWord_of_isBlank {c : Char} (h : isBlank c = true) : isWord c = false := by
  have hcode : c.toNat ∈ [9, 10, 11, 12, 13, 0x20, 0x85, 0xA0, 0x1680, 0x2000, 0x2001, 0x2002,
      0x2003, 0x2004, 0x2005, 0x2006, 0x2007, 0x2008, 0x2009, 0x200A, 0x2028, 0x2029, 0x202F,
      0x205F, 0x3000] := by
    simp only [isBlank, Bool.or_eq_true, Bool.and_eq_true, decide_eq_true_eq, beq_iff_eq] at h
    simp only [List.mem_cons, List.not_mem_nil, or_false]
    omega
  rw [← Char.ofNat_toNat c]
  revert hcode
  generalize c.toNat = n
  revert n
  decide +kernel

end Text

namespace Token

theorem pageBreak?_of_head {s : Text} (h : ∀ c ∈ s.head?, isWord c = false) :
    pageBreak? s = none := by
  have htitle : s.takeWhile isWord = [] := by
    cases s with
    | nil => rfl
    | cons c s => exact List.takeWhile_cons_of_neg (by simp [h c rfl])
  simp only [pageBreak?, htitle, true_or, if_true]

theorem sign_of_heading? {level : Level} {s : Text} {l : Lexeme}
    (h : heading? level s = some l) : ∃ rest, s.dropWhile isBlank = '=' :: rest := by
  simp only [heading?] at h
  split at h
  · rename_i hc
    cases hs : s.dropWhile isBlank with
    | nil =>
        rw [hs] at hc
        cases level <;> cases hc.1
    | cons c rest =>
        rw [hs] at hc
        have hsign : (c == '=') = true := by
          by_contra hne
          rw [List.takeWhile_cons_of_neg (p := (· == '=')) hne] at hc
          cases level <;> cases hc.1
        exact ⟨rest, by rw [eq_of_beq hsign]⟩
  · cases h

theorem mark_of_listItem? {s : Text} {l : Lexeme} (h : listItem? s = some l) :
    ∃ c rest, s = c :: rest ∧ isMark c = true := by
  simp only [listItem?] at h
  split at h
  · rename_i hstar
    cases s with
    | nil => cases hstar
    | cons c rest =>
        refine ⟨c, rest, rfl, ?_⟩
        by_contra hne
        rw [List.takeWhile_cons_of_neg hne] at hstar
        cases hstar
  · cases h

theorem isBlank_of_isMark {c : Char} (h : isMark c = true) : isBlank c = false := by
  simp only [isMark, Bool.or_eq_true, beq_iff_eq] at h
  obtain rfl | rfl := h <;> decide

theorem startsBlock_iff {line : Text} :
    startsBlock line = true ↔ ∃ kind : Kind, kind.atStart = true ∧ kind.lexeme? true line ≠ none := by
  rw [startsBlock, List.any_eq_true]
  constructor
  · rintro ⟨kind, -, h⟩
    rw [Bool.and_eq_true, Option.isSome_iff_ne_none] at h
    exact ⟨kind, h⟩
  · rintro ⟨kind, h⟩
    refine ⟨kind, Kind.mem_all kind, ?_⟩
    rwa [Bool.and_eq_true, Option.isSome_iff_ne_none]

/-- Behind its blanks a line that starts a block has an equals sign or a mark. -/
theorem sign_of_startsBlock {line : Text} (h : startsBlock line = true) :
    ∃ c rest, line.dropWhile isBlank = c :: rest ∧ (c = '=' ∨ isMark c = true) := by
  obtain ⟨kind, hstart, hsome⟩ := startsBlock_iff.1 h
  obtain ⟨l, hl⟩ := Option.ne_none_iff_exists'.1 hsome
  cases kind with
  | title | subtitle | minorTitle =>
      obtain ⟨rest, hrest⟩ := sign_of_heading? hl
      exact ⟨'=', rest, hrest, .inl rfl⟩
  | listItem =>
      obtain ⟨c, rest, rfl, hmark⟩ := mark_of_listItem? hl
      have hblank := isBlank_of_isMark hmark
      exact ⟨c, rest, List.dropWhile_cons_of_neg (by simp [hblank]), .inr hmark⟩
  | pageBreak | literalBlock | tableStart | image | newline => cases hstart

theorem isWord_of_sign {c : Char} (h : c = '=' ∨ isMark c = true) : isWord c = false := by
  simp only [isMark, Bool.or_eq_true, beq_iff_eq] at h
  obtain rfl | rfl | rfl := h <;> decide

/-- No word begins where blanks and then a sign stand. -/
theorem isWord_of_dropWhile {s rest : Text} {c : Char} (h : s.dropWhile isBlank = c :: rest)
    (hc : c = '=' ∨ isMark c = true) : ∀ d ∈ s.head?, isWord d = false := by
  intro d hd
  cases s with
  | nil => cases hd
  | cons e s =>
      cases hd
      cases hblank : isBlank d with
      | true => exact isWord_of_isBlank hblank
      | false =>
          rw [List.dropWhile_cons_of_neg (by simp [hblank])] at h
          cases h
          exact isWord_of_sign hc

/-- A token that only begins a text is found there, unless a page break takes its place. -/
theorem lexeme?_atStart {s : Text} {kind : Kind} (hpage : pageBreak? s = none)
    (hkind : kind.atStart = true) (h : kind.lexeme? true s ≠ none) :
    ∃ l, lexeme? true s = some l ∧ l.token.kind.atStart = true := by
  have hall : Kind.all = .pageBreak ::
      (Kind.all.filter Kind.atStart ++ [.literalBlock, .tableStart, .image, .newline]) := rfl
  have hsome : ((Kind.all.filter Kind.atStart).findSome? (·.lexeme? true s)).isSome := by
    refine List.findSome?_isSome_iff.2 ⟨kind, ?_, Option.isSome_iff_ne_none.2 h⟩
    exact List.mem_filter.2 ⟨Kind.mem_all kind, hkind⟩
  obtain ⟨l, hl⟩ := Option.isSome_iff_exists.1 hsome
  refine ⟨l, ?_, ?_⟩
  · have hfirst : Kind.lexeme? .pageBreak true s = none := hpage
    rw [lexeme?, hall, List.findSome?_cons, hfirst, List.findSome?_append, hl, Option.some_or]
  · obtain ⟨kind', hmem, hk⟩ := List.exists_of_findSome?_eq_some hl
    rw [Kind.kind_of_lexeme? hk]
    exact (List.mem_filter.1 hmem).2

/-- In a line that starts a block the block is what is found first. -/
theorem find?_of_startsBlock {line : Text} (h : startsBlock line = true) :
    ∃ m, find? line = some m ∧ m.before = [] ∧ m.token.kind.atStart = true := by
  obtain ⟨c, rest, hdrop, hsign⟩ := sign_of_startsBlock h
  obtain ⟨kind, hstart, hsome⟩ := startsBlock_iff.1 h
  obtain ⟨l, hl, hat⟩ := lexeme?_atStart (pageBreak?_of_head (isWord_of_dropWhile hdrop hsign))
    hstart hsome
  exact ⟨{ l with before := [] }, by rw [find?, findFrom?.eq_def, List.isEmpty_nil, hl]; rfl, rfl,
    hat⟩

section Joined

variable {line : Text} (hline : startsBlock line = true)
include hline

theorem stamp?_of_startsBlock : stamp? (line.dropWhile isBlank) = none := by
  obtain ⟨c, rest, hdrop, hsign⟩ := sign_of_startsBlock hline
  cases hs : stamp? (line.dropWhile isBlank) with
  | none => rfl
  | some parts =>
      obtain ⟨t, ht⟩ := head_of_stamp? hs
      rw [hdrop] at ht
      cases ht
      simp [isMark] at hsign

theorem colons_of_startsBlock : dropLead [':', ':'] (line.dropWhile isBlank) = none := by
  obtain ⟨c, rest, hdrop, hsign⟩ := sign_of_startsBlock hline
  cases hs : dropLead [':', ':'] (line.dropWhile isBlank) with
  | none => rfl
  | some after =>
      have happ := dropLead_eq_some_iff.1 hs
      rw [hdrop] at happ
      cases happ
      simp [isMark] at hsign

/-- No page break reaches over the break into a line that starts a block: it would have to go on
with a date stamp there. -/
theorem pageBreak?_joined {s : Text} {l : Lexeme}
    (h : pageBreak? (s ++ '\n' :: line) = some l) : l.taken.length ≤ s.length := by
  obtain ⟨hword, hrest⟩ := span_append (p := isWord) (s := s) (t := '\n' :: line)
    (.inr fun c hc => by cases hc; decide)
  simp only [pageBreak?, hword, hrest] at h
  split at h
  · cases h
  · obtain ⟨⟨stamp, after⟩, hs, rfl⟩ := Option.map_eq_some_iff.1 h
    by_cases hblank : (s.dropWhile isWord).dropWhile isBlank = []
    · rw [List.dropWhile_append_of_pos (List.dropWhile_eq_nil_iff.1 hblank),
        List.dropWhile_cons_of_pos rfl, stamp?_of_startsBlock hline] at hs
      cases hs
    · obtain ⟨hgap, hdrop⟩ := span_append (t := '\n' :: line) (.inl hblank)
      rw [hdrop] at hs
      have hstamp := length_le_of_not_mem (stamp?_append hs).1
        fun hmem => absurd (digits_of_stamp? hs _ hmem) (by decide)
      have hlen₁ := length_span isWord s
      have hlen₂ := length_span isBlank (s.dropWhile isWord)
      simp only [hgap, List.length_append]
      omega

theorem literalBlock?_joined {s : Text} {l : Lexeme}
    (h : literalBlock? (s ++ '\n' :: line) = some l) : l.taken.length ≤ s.length := by
  obtain ⟨after, hs, rfl⟩ := Option.map_eq_some_iff.1 h
  by_cases hblank : s.dropWhile isBlank = []
  · rw [List.dropWhile_append_of_pos (List.dropWhile_eq_nil_iff.1 hblank),
      List.dropWhile_cons_of_pos rfl, colons_of_startsBlock hline] at hs
    cases hs
  · obtain ⟨hgap, hdrop⟩ := span_append (t := '\n' :: line) (.inl hblank)
    rw [hdrop] at hs
    have hcolons := length_le_of_not_mem (dropLead_eq_some_iff.1 hs).symm (by decide)
    have hlen := length_span isBlank s
    simp only [hgap, List.length_append]
    omega

/-- Of the tokens that begin a text, only a heading reaches over the break after it. -/
theorem Kind.lexeme?_joined {kind : Kind} {start : Bool} {s : Text} {l : Lexeme} (hs : s ≠ [])
    (himage : ¬ imageLead <:+: s)
    (hheading : start = true → ∀ level, heading? level (s ++ '\n' :: line) = none)
    (h : kind.lexeme? start (s ++ '\n' :: line) = some l) : kind.lexeme? start s ≠ none := by
  have hfront : l.taken.length ≤ s.length → kind.lexeme? start s ≠ none := by
    intro hl
    obtain ⟨u, -, hu⟩ := Kind.lexeme?_front h hl
    rw [hu]
    exact Option.some_ne_none _
  cases kind with
  | pageBreak => exact hfront (pageBreak?_joined hline h)
  | title | subtitle | minorTitle =>
      cases start with
      | true =>
          have hnone := hheading rfl
          simp [lexeme?, hnone] at h
      | false => cases h
  | listItem =>
      cases start with
      | true =>
          obtain ⟨hmarks, -⟩ := span_append (p := isMark) (s := s) (t := '\n' :: line)
            (.inr fun c hc => by cases hc; decide)
          simp only [lexeme?, if_true, listItem?, hmarks] at h ⊢
          split at h
          · rename_i hstar
            rw [if_pos hstar]
            exact Option.some_ne_none _
          · cases h
      | false => cases h
  | literalBlock => exact hfront (literalBlock?_joined hline h)
  | tableStart =>
      refine hfront (length_le_of_not_mem (tableStart?_begins h).1 ?_)
      simp only [lexeme?, tableStart?] at h
      split at h <;> cases h <;> simp
  | image =>
      exfalso
      obtain ⟨rest, hlead, -⟩ := Option.bind_eq_some_iff.1 h
      have happ := dropLead_eq_some_iff.1 hlead
      have hlen := length_le_of_not_mem happ.symm (by decide)
      obtain ⟨u, -, hu⟩ := append_front happ hlen
      exact himage (hu ▸ (List.prefix_append imageLead u).isInfix)
  | newline =>
      refine hfront ?_
      simp only [lexeme?, newline?] at h
      split at h <;> cases h
      exact List.length_pos_iff.2 hs

/-- At the break itself, nothing but the break is found. -/
theorem lexeme?_break : lexeme? false ('\n' :: line) = some ⟨.newline, ['\n'], line⟩ := by
  cases h : lexeme? false ('\n' :: line) with
  | none => cases lexeme?_eq_none_iff.1 h .newline
  | some l =>
      have hk := lexeme?_eq_some h
      cases hkind : l.token.kind with
      | newline =>
          rw [hkind] at hk
          exact hk.symm
      | pageBreak =>
          rw [hkind] at hk
          have hlen := pageBreak?_joined (s := []) hline hk
          exact absurd (List.length_eq_zero_iff.1 (Nat.le_zero.1 hlen)) (taken_ne_nil (lexeme?_begins h))
      | literalBlock =>
          rw [hkind] at hk
          have hlen := literalBlock?_joined (s := []) hline hk
          exact absurd (List.length_eq_zero_iff.1 (Nat.le_zero.1 hlen)) (taken_ne_nil (lexeme?_begins h))
      | title | subtitle | minorTitle | listItem | tableStart | image =>
          rw [hkind] at hk
          cases hk

theorem findFrom?_joined {passed s : Text} (hpassed : passed ≠ [] ∨ s ≠ [])
    (himage : ¬ imageLead <:+: s)
    (hheading : passed = [] → ∀ level, heading? level (s ++ '\n' :: line) = none)
    (h : findFrom? passed s = none) :
    findFrom? passed (s ++ '\n' :: line) =
      some ⟨⟨.newline, ['\n'], line⟩, passed.reverse ++ s⟩ := by
  induction s generalizing passed with
  | nil =>
      have hstart : passed.isEmpty = false := by simpa using hpassed
      rw [List.nil_append, findFrom?.eq_def, hstart, lexeme?_break hline, List.append_nil]
  | cons c s ih =>
      rw [findFrom?.eq_def] at h
      split at h
      · cases h
      · rename_i hnone
        have hnone' : lexeme? passed.isEmpty (c :: s ++ '\n' :: line) = none := by
          refine lexeme?_eq_none_iff.2 fun kind => ?_
          cases hk : kind.lexeme? passed.isEmpty (c :: s ++ '\n' :: line) with
          | none => rfl
          | some l =>
              have hsome := Kind.lexeme?_joined hline (List.cons_ne_nil c s) himage
                (fun hstart => hheading (List.isEmpty_iff.1 hstart)) hk
              exact absurd (lexeme?_eq_none_iff.1 hnone kind) hsome
        have hnext : findFrom? (c :: passed) (s ++ '\n' :: line) = _ :=
          ih (.inl (List.cons_ne_nil _ _))
            (fun hs => himage (hs.trans (List.suffix_cons c s).isInfix))
            (fun hnil => absurd hnil (List.cons_ne_nil _ _)) h
        rw [findFrom?.eq_def, hnone']
        simpa using hnext

end Joined

theorem heading?_ne_none_iff {level : Level} {s : Text} :
    heading? level s ≠ none ↔
      ((s.dropWhile isBlank).takeWhile (· == '=')).length = level.signs ∧
        ((s.dropWhile isBlank).dropWhile (· == '=')).takeWhile (· != '=') ≠ [] ∧
        level.signs ≤ ((((s.dropWhile isBlank).dropWhile (· == '=')).dropWhile
          (· != '=')).takeWhile (· == '=')).length := by
  simp only [heading?]
  split
  · rename_i hc
    exact ⟨fun _ => hc, fun _ => Option.some_ne_none _⟩
  · rename_i hc
    exact ⟨fun h => absurd rfl h, fun h => absurd h hc⟩

theorem lexeme?_of_find? {s : Text} (h : find? s = none) (kind : Kind) :
    kind.lexeme? true s = none := by
  refine lexeme?_eq_none_iff.1 ?_ kind
  rw [find?, findFrom?.eq_def] at h
  split at h
  · cases h
  · assumption

/-- A heading takes the pending text and the break between it and the line: the text is blank and
the line is a heading, or the text opens a heading that the line closes. -/
inductive Swallows (buffer line : Text) : Prop where
  | blank (level : Level) (blank : ∀ c ∈ buffer, isBlank c = true)
      (heading : heading? level line ≠ none)
  | closed (level : Level) (gap text front rest : Text) (blank : ∀ c ∈ gap, isBlank c = true)
      (inside : '=' ∉ text ∧ '=' ∉ front)
      (opens : buffer = gap ++ List.replicate level.signs '=' ++ text)
      (closes : line = front ++ List.replicate level.signs '=' ++ rest)

theorem heading?_blank {level : Level} {buffer line : Text}
    (h : ∀ c ∈ buffer, isBlank c = true) :
    heading? level (buffer ++ '\n' :: line) ≠ none ↔ heading? level line ≠ none := by
  have hdrop : (buffer ++ '\n' :: line).dropWhile isBlank = line.dropWhile isBlank := by
    rw [List.dropWhile_append_of_pos h, List.dropWhile_cons_of_pos rfl]
  rw [heading?_ne_none_iff, heading?_ne_none_iff, hdrop]

theorem takeWhile_eq_replicate (c : Char) (s : Text) :
    s.takeWhile (· == c) = List.replicate (s.takeWhile (· == c)).length c := by
  refine List.eq_replicate_iff.2 ⟨rfl, fun d hd => ?_⟩
  simpa using List.all_eq_true.1 (List.all_takeWhile ..) d hd

theorem eq_replicate_append {c : Char} {n : Nat} {s : Text}
    (h : n ≤ (s.takeWhile (· == c)).length) : s = List.replicate n c ++ s.drop n := by
  obtain ⟨rest, hrest⟩ := List.takeWhile_prefix (l := s) (· == c)
  have htake : s.take n = List.replicate n c := by
    rw [← hrest, List.take_append_of_le_length h, takeWhile_eq_replicate, List.take_replicate,
      Nat.min_eq_left h]
  rw [← htake, List.take_append_drop]

/-- A heading that begins in a text and is not there without the line is closed by the line. -/
theorem swallows_of_heading? {level : Level} {buffer line : Text}
    (hnone : heading? level buffer = none)
    (h : heading? level (buffer ++ '\n' :: line) ≠ none) : Swallows buffer line := by
  by_cases hblank : buffer.dropWhile isBlank = []
  · have hall := List.dropWhile_eq_nil_iff.1 hblank
    exact .blank level hall ((heading?_blank hall).1 h)
  · obtain ⟨hopen, htext, hclose⟩ := heading?_ne_none_iff.1 h
    obtain ⟨-, hdrop₁⟩ := span_append (t := '\n' :: line) (.inl hblank)
    rw [hdrop₁] at hopen htext hclose
    obtain ⟨htake₂, hdrop₂⟩ := span_append (p := (· == '=')) (s := buffer.dropWhile isBlank)
      (t := '\n' :: line) (.inr fun c hc => by cases hc; decide)
    rw [htake₂] at hopen
    rw [hdrop₂] at htext hclose
    by_cases hfree : ((buffer.dropWhile isBlank).dropWhile (· == '=')).dropWhile (· != '=') = []
    · -- The text before the line holds no sign, so those that close the heading are in the line.
      have hfree := List.dropWhile_eq_nil_iff.1 hfree
      rw [List.dropWhile_append_of_pos hfree, List.dropWhile_cons_of_pos rfl] at hclose
      refine .closed level (buffer.takeWhile isBlank)
        ((buffer.dropWhile isBlank).dropWhile (· == '=')) (line.takeWhile (· != '='))
        ((line.dropWhile (· != '=')).drop level.signs)
        (List.all_eq_true.1 (List.all_takeWhile ..)) ⟨?_, ?_⟩ ?_ ?_
      · intro hmem
        exact absurd (hfree _ hmem) (by decide)
      · intro hmem
        exact absurd (List.all_eq_true.1 (List.all_takeWhile ..) _ hmem) (by decide)
      · rw [← hopen, ← takeWhile_eq_replicate, List.append_assoc, List.takeWhile_append_dropWhile,
          List.takeWhile_append_dropWhile]
      · rw [List.append_assoc, ← eq_replicate_append hclose, List.takeWhile_append_dropWhile]
    · -- The signs that close the heading stand in the text itself.
      obtain ⟨htake₃, hdrop₃⟩ := span_append (t := '\n' :: line) (.inl hfree)
      rw [htake₃] at htext
      obtain ⟨htake₄, -⟩ := span_append (p := (· == '='))
        (s := ((buffer.dropWhile isBlank).dropWhile (· == '=')).dropWhile (· != '='))
        (t := '\n' :: line) (.inr fun c hc => by cases hc; decide)
      rw [hdrop₃, htake₄] at hclose
      exact absurd hnone (heading?_ne_none_iff.2 ⟨hopen, htext, hclose⟩)

/-- Blanks, the signs of a level, a text without signs and the signs again begin a heading. -/
theorem heading?_of_parts {level : Level} {gap text rest : Text}
    (hgap : ∀ c ∈ gap, isBlank c = true) (hne : text ≠ []) (htext : '=' ∉ text) :
    heading? level (gap ++ (List.replicate level.signs '=' ++ (text ++
      (List.replicate level.signs '=' ++ rest)))) ≠ none := by
  have hrun : ∀ c ∈ List.replicate level.signs '=', (c == '=') = true := by
    intro c hc
    rw [(List.mem_replicate.1 hc).2]
    rfl
  have hsign : ∀ t : Text, ∀ c ∈ (List.replicate level.signs '=' ++ t).head?, c = '=' := by
    intro t c hc
    cases level <;> simpa [Level.signs, List.replicate_succ, eq_comm] using hc
  have hfree : ∀ c ∈ text, (c != '=') = true := by
    intro c hc
    simp only [bne_iff_ne, ne_eq]
    rintro rfl
    exact htext hc
  generalize htail : List.replicate level.signs '=' ++ rest = tail
  have htail_sign : ∀ c ∈ tail.head?, c = '=' := htail ▸ hsign rest
  have hinside : ∀ c ∈ (text ++ tail).head?, (c == '=') = false := by
    intro c hc
    have hmem : c ∈ text := by
      cases text with
      | nil => exact absurd rfl hne
      | cons d text =>
          cases hc
          exact List.mem_cons_self
    simpa using hfree c hmem
  have hopening : ∀ c ∈ (List.replicate level.signs '=' ++ (text ++ tail)).head?,
      isBlank c = false := by
    intro c hc
    rw [hsign _ c hc]
    decide
  have hclosing : ∀ c ∈ tail.head?, (c != '=') = false := by
    intro c hc
    rw [htail_sign c hc]
    decide
  obtain ⟨-, hdrop₁⟩ := cut_run hgap hopening
  obtain ⟨htake₂, hdrop₂⟩ := cut_run hrun hinside
  obtain ⟨htake₃, hdrop₃⟩ := cut_run hfree hclosing
  rw [heading?_ne_none_iff, hdrop₁, htake₂, hdrop₂, htake₃, hdrop₃]
  refine ⟨List.length_replicate, hne, ?_⟩
  rw [← htail, List.takeWhile_append_of_pos hrun, List.length_append, List.length_replicate]
  omega

theorem heading?_of_closed {level : Level} {gap text front rest : Text}
    (hgap : ∀ c ∈ gap, isBlank c = true) (htext : '=' ∉ text) (hfront : '=' ∉ front) :
    heading? level (gap ++ List.replicate level.signs '=' ++ text ++
      '\n' :: (front ++ List.replicate level.signs '=' ++ rest)) ≠ none := by
  have hsplit : gap ++ List.replicate level.signs '=' ++ text ++
      '\n' :: (front ++ List.replicate level.signs '=' ++ rest) =
      gap ++ (List.replicate level.signs '=' ++ ((text ++ '\n' :: front) ++
        (List.replicate level.signs '=' ++ rest))) := by
    simp only [List.append_assoc, List.cons_append]
  rw [hsplit]
  refine heading?_of_parts hgap (by simp) ?_
  simpa using ⟨htext, hfront⟩

/-- What a heading takes with a break in it is not found without the line after the break. -/
theorem Swallows.exists_heading {buffer line : Text} (h : Swallows buffer line) :
    ∃ level, heading? level (buffer ++ '\n' :: line) ≠ none := by
  cases h with
  | blank level blank heading => exact ⟨level, (heading?_blank blank).2 heading⟩
  | closed level gap text front rest blank inside opens closes =>
      rw [opens, closes]
      exact ⟨level, heading?_of_closed blank inside.1 inside.2⟩

/-- A heading that takes a break begins the text, and the text before the break is part of it. -/
theorem Swallows.find? {buffer line : Text} (h : Swallows buffer line)
    (hfind : find? buffer = none) :
    ∃ m level text, Token.find? (buffer ++ '\n' :: line) = some m ∧ m.before = [] ∧
      m.token = .heading level text ∧ buffer ++ ['\n'] <+: m.taken := by
  obtain ⟨level, hheading⟩ := h.exists_heading
  obtain ⟨rest, hrest⟩ := sign_of_heading? (Option.some_get (Option.isSome_iff_ne_none.2 hheading)).symm
  have hpage := pageBreak?_of_head (isWord_of_dropWhile hrest (.inl rfl))
  have hsome : level.kind.lexeme? true (buffer ++ '\n' :: line) ≠ none := by
    cases level <;> exact hheading
  obtain ⟨l, hl, hat⟩ := lexeme?_atStart hpage (by cases level <;> rfl) hsome
  have hk := lexeme?_eq_some hl
  have hbegins := lexeme?_begins hl
  -- What ends before the break would have been found before the line was joined.
  have hlong : buffer.length < l.taken.length := by
    by_contra hshort
    obtain ⟨u, -, hu⟩ := Kind.lexeme?_front hk (Nat.le_of_not_lt hshort)
    rw [lexeme?_of_find? hfind] at hu
    cases hu
  have hprefix : buffer ++ ['\n'] <+: l.taken := by
    have hwhole : buffer ++ ['\n'] <+: buffer ++ '\n' :: line := ⟨line, by simp⟩
    refine List.prefix_of_prefix_length_le hwhole ⟨l.after, hbegins.1⟩ ?_
    rw [List.length_append, List.length_singleton]
    exact hlong
  have hfound : Token.find? (buffer ++ '\n' :: line) = some { l with before := [] } := by
    rw [Token.find?, findFrom?.eq_def, List.isEmpty_nil, hl]
    rfl
  cases htoken : l.token with
  | heading level text => exact ⟨_, level, text, hfound, rfl, htoken, hprefix⟩
  | listItem depth =>
      rw [htoken] at hk
      obtain ⟨c, t, hs, hmark⟩ := mark_of_listItem? hk
      rw [hs, List.dropWhile_cons_of_neg (by simp [isBlank_of_isMark hmark])] at hrest
      cases hrest
      cases hmark
  | pageBreak _ | literalBlock | tableStart | image _ _ _ | newline =>
      rw [htoken] at hat
      cases hat

/-- The break before a line that starts a block is found first, unless a heading takes it. -/
theorem find?_break {buffer line : Text} (hne : buffer ≠ []) (hfind : find? buffer = none)
    (himage : ¬ imageLead <:+: buffer) (hline : startsBlock line = true)
    (hfree : ¬ Swallows buffer line) :
    find? (buffer ++ '\n' :: line) = some ⟨⟨.newline, ['\n'], line⟩, buffer⟩ := by
  refine findFrom?_joined hline (.inr hne) himage (fun _ level => ?_) hfind
  by_contra hheading
  refine hfree (swallows_of_heading? ?_ hheading)
  have hkind := lexeme?_of_find? hfind level.kind
  cases level <;> exact hkind

end Token

namespace Conversion

open Token

theorem drain_find (imageDirectory : Text) (line : Nat) {buffer : Text} {m : Match}
    (h : find? buffer = some m) :
    ∃ later, (drain imageDirectory line buffer).1 = .token m :: later := by
  by_cases hh : ∃ rest, (handle imageDirectory line m).2 = .text rest
  · obtain ⟨rest, hrest⟩ := hh
    exact ⟨_, by rw [drain_some h hrest, List.cons_append]⟩
  · exact ⟨_, by rw [drain_some_of_ne h (fun rest hrest => hh ⟨rest, hrest⟩)]⟩

theorem joint_of_startsBlock {buffer line : Text} (hne : buffer ≠ [])
    (hline : startsBlock line = true) : joint buffer line = ['\n'] := by
  have hblank : line ≠ [] := by
    rintro rfl
    cases hline
  rw [joint, if_neg hblank, if_neg hne, if_pos hline]


/-- A pending text and a line that starts a block: the break between the two is found first, the text
is written as a line of its own, and the block is found next; but a heading may take the break, and
with it the text and a part of the line. -/
theorem block_line_found {buffer line : Text} (hne : buffer ≠ []) (hfind : find? buffer = none)
    (himage : ¬ imageLead <:+: buffer) (hline : startsBlock line = true)
    (imageDirectory : Text) (number : Nat) :
    (¬ Swallows buffer line →
      find? (buffer ++ joint buffer line ++ line) =
          some ⟨⟨.newline, ['\n'], line⟩, buffer⟩ ∧
        feed imageDirectory ⟨number, .text buffer⟩ line =
          ([.read ['\n'] line, .token ⟨⟨.newline, ['\n'], line⟩, buffer⟩,
              .write (Rst.finishLine buffer)] ++ (drain imageDirectory (number + 1) line).1,
            ⟨number + 1, (drain imageDirectory (number + 1) line).2⟩) ∧
        ∃ m later, (drain imageDirectory (number + 1) line).1 = .token m :: later ∧
          m.before = [] ∧ m.token.kind.atStart = true) ∧
    (Swallows buffer line →
      ∃ m level text, find? (buffer ++ joint buffer line ++ line) = some m ∧ m.before = [] ∧
        m.token = .heading level text ∧ buffer ++ ['\n'] <+: m.taken) := by
  have hjoint := joint_of_startsBlock hne hline
  have hjoined : buffer ++ ['\n'] ++ line = buffer ++ '\n' :: line := by simp
  rw [hjoint, hjoined]
  refine ⟨fun hfree => ?_, fun hswallows => hswallows.find? hfind⟩
  have hbreak := find?_break hne hfind himage hline hfree
  obtain ⟨m, hm, hbefore, hat⟩ := find?_of_startsBlock hline
  obtain ⟨later, hlater⟩ := drain_find imageDirectory (number + 1) hm
  refine ⟨hbreak, ?_, m, later, hlater, hbefore, hat⟩
  simp only [feed, attach, hjoint, hjoined, resume]
  rw [drain_some hbreak rfl]
  rfl

theorem block_line_found_item :
    startsBlock "* a = b".toList = true ∧
      feed [] ⟨1, .text "foo".toList⟩ "* a = b".toList =
        ([.read ['\n'] "* a = b".toList,
            .token ⟨⟨.newline, ['\n'], "* a = b".toList⟩, "foo".toList⟩, .write "foo".toList,
            .token ⟨⟨.listItem 0, "* ".toList, "a = b".toList⟩, []⟩],
          ⟨2, .text "- a = b".toList⟩) := by
  have hfree : ¬ Swallows "foo".toList "* a = b".toList := by
    intro h
    cases h with
    | blank level blank heading => exact absurd (blank 'f' (by decide)) (by decide)
    | closed level gap text front rest blank inside opens closes =>
        have hmem : '=' ∈ "foo".toList := by
          rw [opens]
          cases level <;> simp [Level.signs]
        exact absurd hmem (by decide)
  have himage : ¬ imageLead <:+: "foo".toList := by decide
  refine ⟨by decide, ?_⟩
  rw [((block_line_found (by decide) (by decide) himage (by decide) [] 1).1 hfree).2.1]
  decide +kernel

/-- A heading that is not closed takes the line break before the next heading, and of that heading
only a text without its first sign is left. -/
theorem heading_takes_break :
    drain [] 1 "= foo".toList = ([], .text "= foo".toList) ∧
      ¬ imageLead <:+: "= foo".toList ∧ startsBlock "= Small =".toList = true ∧
      feed [] ⟨1, .text "= foo".toList⟩ "= Small =".toList =
        ([.read ['\n'] "= Small =".toList,
            .token ⟨⟨.heading .minorTitle "foo".toList, "= foo\n=".toList, " Small =".toList⟩, []⟩,
            .write "foo".toList, .write "---".toList, .write []],
          ⟨2, .text " Small =".toList⟩) := by
  refine ⟨by decide +kernel, by decide, by decide, by decide +kernel⟩

end Conversion
end WikiDocs

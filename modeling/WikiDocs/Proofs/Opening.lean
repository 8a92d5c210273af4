import WikiDocs.Proofs.Pieces
import WikiDocs.Proofs.Restart
import WikiDocs.Token.Pattern

/-!
Lines that open a document: a word, a space and a date stamp. Whatever the date
pattern takes as a whole is a date stamp, and such a line is nothing but the
page break for its word.
-/

namespace WikiDocs

open Text

namespace Pattern

/-- A pattern takes a text to its end. -/
def Completes (p : Pattern) (start : Bool) (s : Text) : Prop :=
  ∃ r ∈ p.readings start s, r.rest = []

instance (p : Pattern) (start : Bool) (s : Text) : Decidable (p.Completes start s) :=
  inferInstanceAs (Decidable (∃ r ∈ p.readings start s, r.rest = []))

theorem mem_readings_one {chars : CharClass} {start : Bool} {s : Text} {r : Reading}
    (h : r ∈ (one chars).readings start s) :
    ∃ c, s = c :: r.rest ∧ chars.contains c = true := by
  cases s with
  | nil => cases h
  | cons c s =>
      simp only [readings] at h
      split at h
      · rename_i hc
        cases List.mem_singleton.1 h
        exact ⟨c, rfl, hc⟩
      · cases h

theorem completes_seq_iff {p q : Pattern} {start : Bool} {s : Text} :
    (seq p q).Completes start s ↔
      ∃ r ∈ p.readings start s, q.Completes (start && r.taken.isEmpty) r.rest := by
  constructor
  · rintro ⟨r, hr, hrest⟩
    obtain ⟨r₁, hr₁, hmap⟩ := List.mem_flatMap.1 hr
    obtain ⟨r₂, hr₂, rfl⟩ := List.mem_map.1 hmap
    exact ⟨r₁, hr₁, r₂, hr₂, hrest⟩
  · rintro ⟨r₁, hr₁, r₂, hr₂, hrest⟩
    exact ⟨r₁.andThen r₂, List.mem_flatMap.2 ⟨r₁, hr₁, List.mem_map_of_mem hr₂⟩, hrest⟩

theorem completes_seq_assoc {p q t : Pattern} {start : Bool} {s : Text}
    (h : (seq (seq p q) t).Completes start s) : (seq p (seq q t)).Completes start s := by
  obtain ⟨r, hr, ht⟩ := completes_seq_iff.1 h
  obtain ⟨r₁, hr₁, hmap⟩ := List.mem_flatMap.1 hr
  obtain ⟨r₂, hr₂, rfl⟩ := List.mem_map.1 hmap
  refine completes_seq_iff.2 ⟨r₁, hr₁, completes_seq_iff.2 ⟨r₂, hr₂, ?_⟩⟩
  have hempty : (r₁.taken ++ r₂.taken).isEmpty = (r₁.taken.isEmpty && r₂.taken.isEmpty) := by
    cases r₁.taken <;> rfl
  rw [Bool.and_assoc, ← hempty]
  exact ht

theorem completes_one {chars : CharClass} {q : Pattern} {start : Bool} {s : Text}
    (h : (seq (one chars) q).Completes start s) :
    ∃ c t start', s = c :: t ∧ chars.contains c = true ∧ q.Completes start' t := by
  obtain ⟨r, hr, hq⟩ := completes_seq_iff.1 h
  obtain ⟨c, hs, hc⟩ := mem_readings_one hr
  exact ⟨c, r.rest, _, hs, hc, hq⟩

theorem completes_repeated_some {chars : CharClass} {start : Bool} {s : Text}
    (h : (repeated chars .some).Completes start s) :
    s ≠ [] ∧ ∀ c ∈ s, chars.contains c = true := by
  obtain ⟨r, hr, hrest⟩ := h
  obtain ⟨n, hn, rfl⟩ := List.mem_map.1 hr
  simp only [Repetition.counts, List.mem_reverse, List.mem_map, List.mem_range] at hn
  obtain ⟨m, hm, rfl⟩ := hn
  have hlen : s.length ≤ m + 1 := List.drop_eq_nil_iff.1 hrest
  have hall : s.takeWhile chars.contains = s :=
    (List.takeWhile_prefix _).eq_of_length_le (by omega)
  refine ⟨?_, fun c hc => ?_⟩
  · rintro rfl
    cases hm
  · rw [← hall] at hc
    exact List.all_eq_true.1 (List.all_takeWhile ..) c hc

end Pattern

namespace Token

/-- What the pattern of a date stamp takes as a whole is a date stamp with nothing after it. -/
theorem stamp?_of_completes {d : Text} (h : datePattern.Completes true d) :
    stamp? d = some (d, []) := by
  obtain ⟨_, _, _, rfl, h₁, h⟩ := Pattern.completes_one (Pattern.completes_seq_assoc h)
  obtain ⟨_, _, _, rfl, h₂, h⟩ := Pattern.completes_one h
  obtain ⟨y₁, _, _, rfl, hy₁, h⟩ := Pattern.completes_one h
  obtain ⟨y₂, _, _, rfl, hy₂, h⟩ := Pattern.completes_one h
  obtain ⟨m₁, _, _, rfl, hm₁, h⟩ := Pattern.completes_one h
  obtain ⟨m₂, _, _, rfl, hm₂, h⟩ := Pattern.completes_one h
  obtain ⟨d₁, s, _, rfl, hd₁, h⟩ := Pattern.completes_one h
  obtain ⟨hs, hdigits⟩ := Pattern.completes_repeated_some h
  cases eq_of_beq h₁
  cases eq_of_beq h₂
  have htake : s.takeWhile isDigit = s := List.takeWhile_eq_self_iff.2 hdigits
  have hdrop : s.dropWhile isDigit = [] := List.dropWhile_eq_nil_iff.2 hdigits
  simp only [CharClass.contains, Bool.and_eq_true, decide_eq_true_eq, List.elem_eq_mem,
    List.mem_cons, List.not_mem_nil, or_false] at hy₁ hm₁ hd₁
  simp only [stamp?, htake, hdrop]
  rw [if_pos ⟨hy₁.1, hy₁.2, hy₂, hm₁, hm₂, hd₁.1, hd₁.2, hs⟩]

theorem head_of_stamp? {s stamp after : Text} (h : stamp? s = some (stamp, after)) :
    ∃ t, s = '2' :: t := by
  simp only [stamp?] at h
  split at h
  · exact ⟨_, rfl⟩
  · cases h

theorem digits_of_stamp? {s stamp after : Text} (h : stamp? s = some (stamp, after)) :
    ∀ c ∈ stamp, isDigit c = true := by
  simp only [stamp?] at h
  split at h
  · rename_i y₁ y₂ m₁ m₂ d₁ s
    split at h
    · rename_i hc
      cases h
      obtain ⟨hy₁, hy₁', hy₂, hm₁, hm₂, hd₁, hd₁', -⟩ := hc
      have htens : ∀ c : Char, '0' ≤ c → c ≤ '3' → isDigit c = true := by
        intro c hlow hhigh
        simp only [isDigit, Bool.and_eq_true, decide_eq_true_eq]
        exact ⟨hlow, Char.le_trans hhigh (by decide)⟩
      have hmonth : isDigit m₁ = true := by
        obtain rfl | rfl := hm₁ <;> decide
      intro c hc
      simp only [List.mem_cons] at hc
      obtain rfl | rfl | rfl | rfl | rfl | rfl | rfl | hmore := hc
      · decide
      · decide
      · exact htens _ hy₁ hy₁'
      · exact hy₂
      · exact hmonth
      · exact hm₂
      · exact htens _ hd₁ hd₁'
      · exact List.all_eq_true.1 (List.all_takeWhile ..) c hmore
    · cases h
  · cases h

variable {title stamp : Text}

/-- A word, a space and a date stamp are a page break and nothing else. -/
theorem find?_pageBreak (hne : title ≠ []) (hword : ∀ c ∈ title, isWord c = true)
    (hstamp : stamp? stamp = some (stamp, [])) :
    find? (title ++ ' ' :: stamp) =
      some ⟨⟨.pageBreak title, title ++ [' '] ++ stamp, []⟩, []⟩ := by
  obtain ⟨t, ht⟩ := head_of_stamp? hstamp
  have htitle : (title ++ ' ' :: stamp).takeWhile isWord = title := by
    rw [List.takeWhile_append_of_pos hword, List.takeWhile_cons_of_neg (by decide),
      List.append_nil]
  have hrest : (title ++ ' ' :: stamp).dropWhile isWord = ' ' :: stamp := by
    rw [List.dropWhile_append_of_pos hword, List.dropWhile_cons_of_neg (by decide)]
  have hgap : (' ' :: stamp).takeWhile isBlank = [' '] := by
    rw [List.takeWhile_cons_of_pos (by decide), ht, List.takeWhile_cons_of_neg (by decide)]
  have hafter : (' ' :: stamp).dropWhile isBlank = stamp := by
    rw [List.dropWhile_cons_of_pos (by decide), ht, List.dropWhile_cons_of_neg (by decide)]
  have hbreak : pageBreak? (title ++ ' ' :: stamp) =
      some ⟨.pageBreak title, title ++ [' '] ++ stamp, []⟩ := by
    simp only [pageBreak?, htitle, hrest, hgap, hafter, hstamp]
    rw [if_neg (by simp [hne])]
    rfl
  have hlexeme : lexeme? true (title ++ ' ' :: stamp) =
      some ⟨.pageBreak title, title ++ [' '] ++ stamp, []⟩ := by
    rw [lexeme?, Kind.all, List.findSome?_cons, Kind.lexeme?, hbreak]
  rw [find?, findFrom?.eq_def]
  simp only [List.isEmpty_nil, hlexeme, List.reverse_nil]

end Token

open Token

namespace Line

theorem expandEscapes_of_not_mem {lineBreak line : Text} (h : '\\' ∉ line) :
    expandEscapes lineBreak line = line := by
  fun_induction expandEscapes lineBreak line with
  | case1 => rfl
  | case2 => rfl
  | case3 c d line hc ih =>
      rw [hc.1] at h
      exact absurd (List.mem_cons_self ..) h
  | case4 c d line hc ih => rw [ih (fun hm => h (List.mem_cons_of_mem _ hm))]

theorem substitute_of_plain {line : Text} (h : ∀ c ∈ line, plain c = [c]) :
    substitute line = line := by
  induction line with
  | nil => rfl
  | cons c line ih =>
      rw [substitute, List.flatMap_cons, h c (List.mem_cons_self ..)]
      exact congrArg (c :: ·) (ih fun d hd => h d (List.mem_cons_of_mem _ hd))

theorem plain_of_not_mem {c : Char} (h : c ∉ substitutions.map Prod.fst) : plain c = [c] := by
  have hnone : substitutions.lookup c = none := by
    refine List.lookup_eq_none_iff.2 fun pair hp => ?_
    simp only [bne_iff_ne, ne_eq]
    rintro rfl
    exact h (List.mem_map_of_mem hp)
  rw [plain, hnone]
  rfl

/-- The typographic characters lie beyond ASCII. -/
theorem plain_of_ascii {c : Char} (h : c.toNat < 0x80) : plain c = [c] := by
  apply plain_of_not_mem
  intro hmem
  have hall : ((substitutions.map Prod.fst).all fun c => 0x80 ≤ c.toNat) = true := rfl
  have hle := of_decide_eq_true (List.all_eq_true.1 hall c hmem)
  exact absurd h (Nat.not_lt.2 hle)

theorem plain_of_le {c : Char} (h : c ≤ '~') : plain c = [c] :=
  plain_of_ascii (Nat.lt_of_le_of_lt h (by decide))

variable {title stamp : Text}

/-- The line that opens a document is read as it is. -/
theorem ofPiece_pageBreak (hword : ∀ c ∈ title, isWord c = true ∧ c ∉ substitutions.map Prod.fst)
    (hstamp : stamp? stamp = some (stamp, [])) (expand : Bool) :
    ofPiece expand (Utf8.encode (title ++ ' ' :: stamp ++ ['\n'])).data.toList =
      .ok (title ++ ' ' :: stamp) := by
  have hdigits := digits_of_stamp? hstamp
  have hplain : ∀ c ∈ title ++ ' ' :: stamp, plain c = [c] ∧ c ≠ '\\' ∧ c ≠ '\r' := by
    intro c hc
    simp only [List.mem_append, List.mem_cons] at hc
    obtain hc | rfl | hc := hc
    · refine ⟨plain_of_not_mem (hword c hc).2, ?_, ?_⟩
      all_goals
        rintro rfl
        exact absurd (hword _ hc).1 (by decide)
    · exact ⟨plain_of_le (by decide), by decide, by decide⟩
    · have hdigit := hdigits c hc
      simp only [isDigit, Bool.and_eq_true, decide_eq_true_eq] at hdigit
      refine ⟨plain_of_le (Char.le_trans hdigit.2 (by decide)), ?_, ?_⟩
      all_goals
        rintro rfl
        exact absurd hdigit (by decide)
  have hline : dropTerminator (title ++ ' ' :: stamp ++ ['\n']) = title ++ ' ' :: stamp := by
    rw [dropTerminator, if_pos List.getLast?_concat, List.dropLast_concat, dropReturn, if_neg]
    intro hlast
    exact (hplain '\r' (List.mem_of_getLast? hlast)).2.2 rfl
  have hescape : '\\' ∉ title ++ ' ' :: stamp := fun hmem => (hplain _ hmem).2.1 rfl
  rw [ofPiece, Utf8.strict?_encode]
  simp only [hline, normalize, expandEscapes_of_not_mem hescape, ite_self,
    substitute_of_plain fun c hc => (hplain c hc).1]

theorem pieces_pageBreak (hword : ∀ c ∈ title, isWord c = true)
    (hstamp : stamp? stamp = some (stamp, [])) (rest : List UInt8) :
    pieces ((Utf8.encode (title ++ ' ' :: stamp ++ ['\n'])).data.toList ++ rest) =
      (Utf8.encode (title ++ ' ' :: stamp ++ ['\n'])).data.toList :: pieces rest := by
  have hbreak : '\n' ∉ title ++ ' ' :: stamp := by
    intro hmem
    simp only [List.mem_append, List.mem_cons] at hmem
    obtain hc | hc | hc := hmem
    · exact absurd (hword _ hc) (by decide)
    · cases hc
    · exact absurd (digits_of_stamp? hstamp _ hc) (by decide)
  have hbytes : (Utf8.encode (title ++ ' ' :: stamp ++ ['\n'])).data.toList =
      (Utf8.encode (title ++ ' ' :: stamp)).data.toList ++ [lineFeed] :=
    Utf8.toList_encode_append _ _
  rw [hbytes, List.append_assoc]
  exact pieces_lineFeed (Utf8.lineFeed_not_mem_encode hbreak)

end Line

namespace Conversion

/-- A line that opens a document does nothing else, and leaves nothing of itself. -/
theorem feed_pageBreak (imageDirectory : Text) {title stamp : Text} (hne : title ≠ [])
    (hword : ∀ c ∈ title, isWord c = true) (hstamp : stamp? stamp = some (stamp, [])) :
    feed imageDirectory {} (title ++ ' ' :: stamp) =
      ([.read [] (title ++ ' ' :: stamp),
        .token ⟨⟨.pageBreak title, title ++ [' '] ++ stamp, []⟩, []⟩, .openDocument title],
        ⟨1, .text []⟩) := by
  simp only [feed, attach, resume, drain_some (find?_pageBreak hne hword hstamp) rfl,
    drain_none find?_nil]
  rfl

end Conversion
end WikiDocs

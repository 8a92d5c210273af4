import Mathlib.Data.List.Infix
import WikiDocs.Proofs.RowGroups
import WikiDocs.Proofs.TableMarkup

/-!
The span of a cell. A line that asks for a span is read by the first value on
it, whichever attribute has that value. So the request is read exactly if no
value stands in front of it.
-/

namespace WikiDocs

namespace Text

theorem count_dropWhile {p : Char → Bool} {c : Char} (hc : p c = false) (s : Text) :
    (s.dropWhile p).count c = s.count c := by
  have htaken : (s.takeWhile p).count c = 0 := by
    refine List.count_eq_zero.2 fun hmem => ?_
    exact absurd (List.all_eq_true.1 List.all_takeWhile c hmem) (Bool.eq_false_iff.1 hc)
  have hsplit : (s.takeWhile p ++ s.dropWhile p).count c = s.count c := by
    rw [List.takeWhile_append_dropWhile]
  rw [← hsplit, List.count_append, htaken, Nat.zero_add]

/-- What is not blank is not lost in trimming. -/
theorem count_trim {c : Char} (hc : isBlank c = false) (s : Text) :
    (trim s).count c = s.count c := by
  rw [trim, trimEnd, dropEndWhile, List.count_reverse, count_dropWhile hc, List.count_reverse,
    trimStart, count_dropWhile hc]

end Text

namespace Table

open Text

def IsQuote (s : Text) : Prop := s = [] ∨ s = ['\''] ∨ s = ['"']

/-- A text that begins with an attribute value: a numeral, maybe in quotes, and all of its fence. -/
inductive Valued : Text → Text → Text → Prop
  | intro {opening digits closing fence rest : Text} (opens : IsQuote opening)
      (digits_ne : digits ≠ []) (isDigit : ∀ c ∈ digits, isDigit c = true)
      (closes : IsQuote closing) (fence_ne : fence ≠ []) (isFence : ∀ c ∈ fence, isFence c = true)
      (ends : ∀ c ∈ rest.head?, Table.isFence c = false) :
      Valued ('=' :: (opening ++ (digits ++ (closing ++ (fence ++ rest))))) digits rest

/-- Whether a value begins somewhere in a text, with its fence in the text too. -/
def HasValue (s : Text) : Prop :=
  ∃ front tail digits rest, s = front ++ tail ∧ Valued tail digits rest

/-- The value behind `front` is the first one of a text. -/
def FirstValue (s front digits rest : Text) : Prop :=
  ∃ tail, s = front ++ tail ∧ Valued tail digits rest ∧
    ∀ earlier later, s = earlier ++ later → earlier.length < front.length →
      ∀ digits rest, ¬ Valued later digits rest

/-- The value behind `front` is that of a request for a span. -/
def Requests (s front digits rest : Text) : Prop :=
  ∃ tail, s = front ++ ("colspan".toList ++ tail) ∧ Valued tail digits rest

/-- Whether a line without its frame may hold a spanning cell. -/
def MaySpan (line : Text) : Prop := isRowSeparator line = false ∧ ¬ "class=".toList <:+: line

def SpanInRange (digits : Text) : Prop := 1 ≤ numeral digits ∧ numeral digits ≤ 64

theorem exists_dropQuote (s : Text) : ∃ quote, IsQuote quote ∧ s = quote ++ dropQuote s := by
  rw [dropQuote.eq_def]
  split
  · exact ⟨['\''], .inr (.inl rfl), rfl⟩
  · exact ⟨['"'], .inr (.inr rfl), rfl⟩
  · exact ⟨[], .inl rfl, rfl⟩

/-- An optional quote is dropped where no other quote follows. -/
theorem dropQuote_append {quote s : Text} (hquote : IsQuote quote)
    (hs : ∀ c ∈ s.head?, c ≠ '\'' ∧ c ≠ '"') : dropQuote (quote ++ s) = s := by
  obtain rfl | rfl | rfl := hquote
  · rw [List.nil_append, dropQuote.eq_def]
    split
    · exact absurd rfl (hs _ rfl).1
    · exact absurd rfl (hs _ rfl).2
    · rfl
  · rfl
  · rfl

theorem not_quote_of_isDigit {c : Char} (h : isDigit c = true) : c ≠ '\'' ∧ c ≠ '"' := by
  constructor <;> rintro rfl <;> exact absurd h (by decide)

theorem not_quote_of_isFence {c : Char} (h : isFence c = true) :
    c ≠ '\'' ∧ c ≠ '"' ∧ isDigit c = false := by
  simp only [isFence, Bool.or_eq_true, beq_iff_eq] at h
  obtain (rfl | rfl) | rfl := h <;> decide

theorem mem_of_mem_head?_append {run s : Text} (hne : run ≠ []) {c : Char}
    (hc : c ∈ (run ++ s).head?) : c ∈ run := by
  obtain ⟨d, run, rfl⟩ := List.exists_cons_of_ne_nil hne
  obtain rfl : d = c := Option.some.inj hc
  exact List.mem_cons_self

theorem Valued.of_valueAt? {s digits rest : Text} (h : valueAt? s = some (digits, rest)) :
    Valued s digits rest := by
  rw [valueAt?.eq_def] at h
  split at h
  · rename_i t
    simp only at h
    split at h
    · rename_i hne
      cases h
      obtain ⟨opening, hopens, ht⟩ := exists_dropQuote t
      generalize dropQuote t = u at hne ht ⊢
      obtain ⟨digits, v, rfl, htake, hdrop, hdigits, -⟩ := exists_run isDigit u
      rw [htake, hdrop] at hne ⊢
      obtain ⟨closing, hcloses, hv⟩ := exists_dropQuote v
      generalize dropQuote v = w at hne hv ⊢
      obtain ⟨fence, rest, rfl, htake, hdrop, hfence, hends⟩ := exists_run isFence w
      rw [htake] at hne
      rw [hdrop, ht, hv]
      exact .intro hopens hne.1 hdigits hcloses hne.2 hfence hends
    · cases h
  · cases h

theorem Valued.valueAt?_eq {s digits rest : Text} (h : Valued s digits rest) :
    valueAt? s = some (digits, rest) := by
  obtain ⟨hopens, hdigits, hnumeral, hcloses, hne, hfence, hends⟩ := h
  rename_i opening closing fence
  have hopened := dropQuote_append (s := digits ++ (closing ++ (fence ++ rest))) hopens
    fun c hc => not_quote_of_isDigit (hnumeral c (mem_of_mem_head?_append hdigits hc))
  have hclosed := dropQuote_append (s := fence ++ rest) hcloses fun c hc =>
    have hquote := not_quote_of_isFence (hfence c (mem_of_mem_head?_append hne hc))
    ⟨hquote.1, hquote.2.1⟩
  have hbehind : ∀ c ∈ (closing ++ (fence ++ rest)).head?, isDigit c = false := by
    intro c hc
    obtain rfl | rfl | rfl := hcloses
    · exact (not_quote_of_isFence (hfence c (mem_of_mem_head?_append hne hc))).2.2
    · cases hc
      rfl
    · cases hc
      rfl
  obtain ⟨htake, hdrop⟩ := cut_run hnumeral hbehind
  obtain ⟨hfences, hrest⟩ := cut_run hfence hends
  simp only [valueAt?, hopened, htake, hdrop, hclosed, hfences, hrest]
  rw [if_pos ⟨hdigits, hne⟩]

/-- The scanner takes a value exactly where one stands. -/
theorem valueAt?_eq_some_iff {s digits rest : Text} :
    valueAt? s = some (digits, rest) ↔ Valued s digits rest :=
  ⟨Valued.of_valueAt?, Valued.valueAt?_eq⟩

theorem valueAt?_eq_none_iff {s : Text} :
    valueAt? s = none ↔ ∀ digits rest, ¬ Valued s digits rest := by
  rw [Option.eq_none_iff_forall_ne_some, Prod.forall]
  exact forall₂_congr fun digits rest => not_congr valueAt?_eq_some_iff

/-- The scanner takes the first value of a text. -/
theorem value?_eq_some_iff {s digits rest : Text} :
    value? s = some (digits, rest) ↔ ∃ front, FirstValue s front digits rest := by
  constructor
  · intro h
    fun_induction value? s with
    | case1 s found hfound =>
        cases h
        exact ⟨[], s, rfl, valueAt?_eq_some_iff.1 hfound,
          fun _ _ _ hlen => absurd hlen (Nat.not_lt_zero _)⟩
    | case2 => cases h
    | case3 c s hnone ih =>
        obtain ⟨front, tail, rfl, hvalued, hfirst⟩ := ih h
        refine ⟨c :: front, tail, rfl, hvalued, fun earlier later heq hlen => ?_⟩
        cases earlier with
        | nil =>
            rw [List.nil_append] at heq
            exact heq ▸ valueAt?_eq_none_iff.1 hnone
        | cons d earlier =>
            exact hfirst earlier later (List.cons.inj heq).2 (Nat.lt_of_succ_lt_succ hlen)
  · rintro ⟨front, tail, rfl, hvalued, hfirst⟩
    induction front with
    | nil => rw [List.nil_append, value?.eq_def, valueAt?_eq_some_iff.2 hvalued]
    | cons c front ih =>
        have hnone : valueAt? (c :: front ++ tail) = none :=
          valueAt?_eq_none_iff.2 (hfirst [] _ rfl (Nat.succ_pos _))
        rw [value?.eq_def, hnone]
        refine ih fun earlier later heq hlen => ?_
        exact hfirst (c :: earlier) later (congrArg (c :: ·) heq) (Nat.succ_lt_succ hlen)

theorem valueAt?_eq_none_of_value? {s : Text} (h : value? s = none) {front tail : Text}
    (hs : s = front ++ tail) : valueAt? tail = none := by
  fun_induction value? s generalizing front with
  | case1 => cases h
  | case2 hnone =>
      obtain ⟨-, rfl⟩ := List.append_eq_nil_iff.1 hs.symm
      exact hnone
  | case3 c s hnone ih =>
      cases front with
      | nil =>
          rw [List.nil_append] at hs
          exact hs ▸ hnone
      | cons d front => exact ih h (List.cons.inj hs).2

theorem value?_eq_none_iff {s : Text} : value? s = none ↔ ¬ HasValue s := by
  constructor
  · rintro hnone ⟨front, tail, digits, rest, hs, hvalued⟩
    exact valueAt?_eq_none_iff.1 (valueAt?_eq_none_of_value? hnone hs) digits rest hvalued
  · intro hnone
    rw [Option.eq_none_iff_forall_ne_some, Prod.forall]
    intro digits rest hsome
    obtain ⟨front, tail, rfl, hvalued, -⟩ := value?_eq_some_iff.1 hsome
    exact hnone ⟨front, tail, digits, rest, rfl, hvalued⟩

/-- A character that no value with its fence holds. -/
structure OutsideValues (c : Char) : Prop where
  not_sign : c ≠ '='
  not_quote : c ≠ '\'' ∧ c ≠ '"'
  not_digit : isDigit c = false
  not_fence : isFence c = false

theorem IsQuote.not_mem {quote : Text} (hquote : IsQuote quote) {c : Char}
    (hc : c ≠ '\'' ∧ c ≠ '"') : c ∉ quote := by
  obtain rfl | rfl | rfl := hquote
  · exact List.not_mem_nil
  · exact mt List.mem_singleton.1 hc.1
  · exact mt List.mem_singleton.1 hc.2

section Boundary

variable {c : Char} (hc : OutsideValues c) {s t digits rest : Text}
include hc

theorem Valued.append_cons (h : Valued s digits rest) :
    Valued (s ++ c :: t) digits (rest ++ c :: t) := by
  cases h with
  | intro opens digits_ne isDigit closes fence_ne isFence ends =>
      have hends : ∀ d ∈ (rest ++ c :: t).head?, Table.isFence d = false := by
        cases rest with
        | nil =>
            rintro d ⟨⟩
            exact hc.not_fence
        | cons e rest => exact ends
      have hvalued := Valued.intro opens digits_ne isDigit closes fence_ne isFence hends
      simpa only [List.cons_append, List.append_assoc] using hvalued

/-- A value does not reach over a character that none holds. -/
theorem Valued.of_append_cons (h : Valued (s ++ c :: t) digits rest) :
    ∃ front, rest = front ++ c :: t ∧ Valued s digits front := by
  generalize hs : s ++ c :: t = whole at h
  cases h with
  | @intro opening _ closing fence _ opens digits_ne isDigit closes fence_ne isFence ends =>
      have hvalue : c ∉ '=' :: (opening ++ (digits ++ (closing ++ fence))) := by
        simp only [List.mem_cons, List.mem_append, not_or]
        refine ⟨hc.not_sign, opens.not_mem hc.not_quote, fun hmem => ?_,
          closes.not_mem hc.not_quote, fun hmem => ?_⟩
        · exact absurd (isDigit c hmem) (Bool.eq_false_iff.1 hc.not_digit)
        · exact absurd (isFence c hmem) (Bool.eq_false_iff.1 hc.not_fence)
      have hsplit : '=' :: (opening ++ (digits ++ (closing ++ fence))) ++ rest = s ++ c :: t := by
        simpa only [List.cons_append, List.append_assoc] using hs.symm
      have hfront : ∃ front, rest = front ++ c :: t ∧
          s = '=' :: (opening ++ (digits ++ (closing ++ fence))) ++ front := by
        obtain ⟨front, hs, hrest⟩ | ⟨shared, hvalue', hrest⟩ := List.append_eq_append_iff.1 hsplit
        · exact ⟨front, hrest, hs⟩
        · cases shared with
          | nil => exact ⟨[], hrest.symm, by rw [hvalue', List.append_nil, List.append_nil]⟩
          | cons d shared =>
              obtain rfl : c = d := (List.cons.inj hrest).1
              rw [hvalue'] at hvalue
              exact absurd (List.mem_append_right s List.mem_cons_self) hvalue
      obtain ⟨front, rfl, rfl⟩ := hfront
      have hends : ∀ d ∈ front.head?, Table.isFence d = false := by
        cases front with
        | nil => exact fun _ hd => absurd hd (Option.not_mem_none _)
        | cons d front => exact ends
      have hvalued := Valued.intro opens digits_ne isDigit closes fence_ne isFence hends
      exact ⟨front, rfl, by simpa only [List.cons_append, List.append_assoc] using hvalued⟩

theorem valueAt?_append_cons (s t : Text) :
    valueAt? (s ++ c :: t) =
      (valueAt? s).map fun (digits, rest) => (digits, rest ++ c :: t) := by
  cases h : valueAt? s with
  | some found =>
      obtain ⟨digits, rest⟩ := found
      exact valueAt?_eq_some_iff.2 ((valueAt?_eq_some_iff.1 h).append_cons hc)
  | none =>
      refine valueAt?_eq_none_iff.2 fun digits rest hvalued => ?_
      obtain ⟨front, -, hfront⟩ := hvalued.of_append_cons hc
      exact valueAt?_eq_none_iff.1 h digits front hfront

/-- A value in front of such a character is read before all that stand behind it. -/
theorem value?_append_cons (s t : Text) :
    value? (s ++ c :: t) =
      ((value? s).map fun (digits, rest) => (digits, rest ++ c :: t)).or (value? t) := by
  induction s with
  | nil =>
      rw [List.nil_append, value?_cons hc.not_sign]
      rfl
  | cons d s ih =>
      have hat := valueAt?_append_cons hc (d :: s) t
      rw [value?.eq_def (d :: s), value?.eq_def (d :: s ++ c :: t), hat]
      cases valueAt? (d :: s) with
      | some found => rfl
      | none => exact ih

end Boundary

theorem outsideValues_c : OutsideValues 'c' := ⟨by decide, by decide, by decide, by decide⟩

theorem value?_of_valued {s digits rest : Text} (h : Valued s digits rest) :
    value? s = some (digits, rest) :=
  value?_eq_some_iff.2 ⟨[], s, rfl, h, fun _ _ _ hlen => absurd hlen (Nat.not_lt_zero _)⟩

/-- Where a span is asked for, a value in front of the request is read, and only without one that of
the request. -/
theorem value?_of_requests {line front digits rest : Text} (h : Requests line front digits rest) :
    (¬ HasValue front ∧ value? line = some (digits, rest)) ∨
      HasValue front ∧ ∃ digits' after, value? line = some (digits', after) ∧
        rest.count 'c' < after.count 'c' := by
  obtain ⟨tail, rfl, hvalued⟩ := h
  have hbehind : value? ("olspan".toList ++ tail) = some (digits, rest) := by
    rw [value?_append (by decide), value?_of_valued hvalued]
  have hline := value?_append_cons outsideValues_c front ("olspan".toList ++ tail)
  rw [hbehind] at hline
  cases hfront : value? front with
  | none =>
      rw [hfront] at hline
      exact .inl ⟨value?_eq_none_iff.1 hfront, hline⟩
  | some found =>
      rw [hfront] at hline
      have hvalue : HasValue front := by
        refine not_not.1 fun hno => ?_
        rw [value?_eq_none_iff.2 hno] at hfront
        cases hfront
      refine .inr ⟨hvalue, found.1, _, hline, ?_⟩
      have hrest : rest.count 'c' ≤ tail.count 'c' :=
        (value?_suffix (value?_of_valued hvalued)).sublist.count_le 'c'
      rw [List.count_append, List.count_cons_self, List.count_append]
      omega

theorem classify_eq_of_maySpan {markup : Text} (h : MaySpan (unframe markup))
    (hspan : "colspan=".toList <:+: unframe markup) {digits rest : Text}
    (hvalue : value? (unframe markup) = some (digits, rest)) (hrange : SpanInRange digits) :
    classify markup = .spanningCell (trim rest) (numeral digits) := by
  have hspanned : spanned? (unframe markup) = some (numeral digits, trim rest) := by
    rw [spanned?, hvalue]
    exact if_pos hrange
  rw [classify]
  simp only [h.1, holds_eq_false h.2, holds_iff.2 hspan, hspanned, Bool.false_eq_true, if_false,
    if_true]

theorem plainCell_ne_spanningCell (line : Text) {text : Text} {span : Nat} :
    plainCell line ≠ .spanningCell text span := by
  intro hline
  obtain hnone | ⟨other, hother⟩ := plainCell_eq line
  · cases hnone.symm.trans hline
  · cases hother.symm.trans hline

theorem spanningCell_of_classify {markup text : Text} {span : Nat}
    (h : classify markup = .spanningCell text span) :
    MaySpan (unframe markup) ∧ "colspan=".toList <:+: unframe markup ∧
      ∃ digits rest, value? (unframe markup) = some (digits, rest) ∧ SpanInRange digits ∧
        numeral digits = span ∧ trim rest = text := by
  simp only [classify] at h
  split at h
  · cases h
  rename_i hseparator
  split at h
  · cases h
  rename_i hclass
  split at h
  · rename_i hholds
    refine ⟨⟨Bool.eq_false_iff.2 hseparator, mt holds_iff.2 hclass⟩, holds_iff.1 hholds, ?_⟩
    split at h
    · rename_i hspanned
      cases h
      exact value?_of_spanned? hspanned
    · exact absurd h (plainCell_ne_spanningCell _)
  · exact absurd h (plainCell_ne_spanningCell _)

/-- Whether a line asks, in some request, for a cell of this text and span. -/
def AsksFor (line text : Text) (span : Nat) : Prop :=
  ∃ front digits rest, Requests line front digits rest ∧ SpanInRange digits ∧
    numeral digits = span ∧ trim rest = text

theorem Requests.infix {line front digits rest : Text} (h : Requests line front digits rest) :
    "colspan=".toList <:+: line := by
  obtain ⟨tail, rfl, hvalued⟩ := h
  cases hvalued with
  | @intro opening _ closing fence _ =>
      refine ⟨front, opening ++ (digits ++ (closing ++ (fence ++ rest))), ?_⟩
      rw [List.append_assoc]
      rfl

/-- A cell of the text that a request asks for is not read where a value stands in front of it. -/
theorem not_hasValue_of_classify {markup front digits rest : Text} {span : Nat}
    (h : Requests (unframe markup) front digits rest)
    (hcell : classify markup = .spanningCell (trim rest) span) : ¬ HasValue front := by
  obtain ⟨-, -, digits', rest', hvalue, -, -, htext⟩ := spanningCell_of_classify hcell
  obtain ⟨hno, -⟩ | ⟨-, digits'', after, hother, hcount⟩ := value?_of_requests h
  · exact hno
  · rw [hother] at hvalue
    cases hvalue
    have hsame := congrArg (List.count 'c') htext
    rw [count_trim (by decide), count_trim (by decide)] at hsame
    exact absurd hsame (Nat.ne_of_gt hcount)

/-- How the span of a cell comes from its line: by the first value on the line, so by the value of
a request exactly if no value stands in front of that request. -/
structure SpanRead (markup : Text) : Prop where
  spanningCell_iff : ∀ text span, classify markup = .spanningCell text span ↔
    MaySpan (unframe markup) ∧ "colspan=".toList <:+: unframe markup ∧
      ∃ front digits rest, FirstValue (unframe markup) front digits rest ∧ SpanInRange digits ∧
        numeral digits = span ∧ trim rest = text
  asksFor_iff : ∀ text span, classify markup = .spanningCell text span →
    (AsksFor (unframe markup) text span ↔
      ∃ front digits rest, Requests (unframe markup) front digits rest ∧ ¬ HasValue front)
  granted_iff : ∀ front digits rest, Requests (unframe markup) front digits rest →
    MaySpan (unframe markup) → SpanInRange digits →
      (classify markup = .spanningCell (trim rest) (numeral digits) ↔ ¬ HasValue front)

/-- The first value on a line gives the span of its cell, for every line. -/
theorem span_read (markup : Text) : SpanRead markup := by
  have hfirst : ∀ front digits rest, Requests (unframe markup) front digits rest →
      ¬ HasValue front → value? (unframe markup) = some (digits, rest) := by
    intro front digits rest hrequest hno
    obtain ⟨-, hvalue⟩ | ⟨hvalue, -⟩ := value?_of_requests hrequest
    · exact hvalue
    · exact absurd hvalue hno
  refine ⟨fun text span => ⟨fun hcell => ?_, ?_⟩, fun text span hcell => ⟨?_, ?_⟩,
    fun front digits rest hrequest hmay hrange => ⟨?_, fun hno => ?_⟩⟩
  · obtain ⟨hmay, hholds, digits, rest, hvalue, hcell⟩ := spanningCell_of_classify hcell
    obtain ⟨front, hfront⟩ := value?_eq_some_iff.1 hvalue
    exact ⟨hmay, hholds, front, digits, rest, hfront, hcell⟩
  · rintro ⟨hmay, hholds, front, digits, rest, hfront, hrange, rfl, rfl⟩
    exact classify_eq_of_maySpan hmay hholds (value?_eq_some_iff.2 ⟨front, hfront⟩) hrange
  · rintro ⟨front, digits, rest, hrequest, -, -, rfl⟩
    exact ⟨front, digits, rest, hrequest, not_hasValue_of_classify hrequest hcell⟩
  · rintro ⟨front, digits, rest, hrequest, hno⟩
    obtain ⟨-, -, digits', rest', hvalue, hrange, hspan, htext⟩ := spanningCell_of_classify hcell
    rw [hfirst front digits rest hrequest hno] at hvalue
    cases hvalue
    exact ⟨front, digits, rest, hrequest, hrange, hspan, htext⟩
  · exact not_hasValue_of_classify hrequest
  · exact classify_eq_of_maySpan hmay hrequest.infix (hfirst front digits rest hrequest hno) hrange

/-- A line that asks for two columns, with another attribute in front of its request. -/
def attributedLine : Text := "| rowspan='3' colspan='2' | x".toList

/-- The cell gets three columns from the other attribute, and its request for two stands in its
text. -/
theorem other_attribute_read :
    classify attributedLine = .spanningCell "colspan='2' | x".toList 3 ∧
      ¬ AsksFor (unframe attributedLine) "colspan='2' | x".toList 3 ∧
      MaySpan (unframe attributedLine) ∧
      (∃ front, Requests (unframe attributedLine) front ['2'] ['x'] ∧
        ¬ "colspan=".toList <:+: front) ∧
      classify attributedLine ≠ .spanningCell ['x'] 2 := by
  have hcell : classify attributedLine = .spanningCell "colspan='2' | x".toList 3 := by decide
  refine ⟨hcell, ?_, ⟨by decide, by decide⟩, ⟨"| rowspan='3' ".toList, ⟨"='2' | x".toList,
    by decide, valueAt?_eq_some_iff.1 (by decide)⟩, by decide⟩, ?_⟩
  · -- A request whose text still holds another one needs two of them on the line.
    rintro ⟨front, digits, rest, ⟨tail, hline, hvalued⟩, -, -, htext⟩
    have hone : (unframe attributedLine).count 'c' = 1 := by decide
    have hrest : rest.count 'c' = 1 := by
      rw [← count_trim (by decide), htext]
      decide
    have htail : rest.count 'c' ≤ tail.count 'c' :=
      (value?_suffix (value?_of_valued hvalued)).sublist.count_le 'c'
    have hrequest : "colspan".toList.count 'c' = 1 := by decide
    rw [hline, List.count_append, List.count_append] at hone
    omega
  · rw [hcell]
    decide

end Table
end WikiDocs

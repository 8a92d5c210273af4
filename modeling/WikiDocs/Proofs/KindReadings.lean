import WikiDocs.Proofs.Preference

/-!
What the pattern of each kind prefers where a token of the kind begins a text:
just what the token takes, with its fields in the groups.
-/

namespace WikiDocs

open Pattern Text

namespace Token

/-- The token of a kind, made of what the pattern of the kind takes. -/
def Kind.tokenOf (kind : Kind) (r : Reading) : Token :=
  match kind with
  | .pageBreak => .pageBreak (trim (r.groupText "title"))
  | .title => .heading .title (trim (r.groupText "text"))
  | .subtitle => .heading .subtitle (trim (r.groupText "text"))
  | .minorTitle => .heading .minorTitle (trim (r.groupText "text"))
  | .listItem => .listItem (r.taken.count '*' - 1)
  | .literalBlock => .literalBlock
  | .tableStart => .tableStart
  | .image => .image (r.groupText "size") (trim (r.groupText "label")) (r.groupText "path")
  | .newline => .newline

/-- A lexeme is what the pattern of a kind prefers where it stands. -/
def Kind.Prefers (kind : Kind) (start : Bool) (l : Lexeme) : Prop :=
  ∃ groups, kind.pattern.matchAt? start (l.taken ++ l.after) =
      some ⟨l.taken, l.after, groups⟩ ∧
    l.token = kind.tokenOf ⟨l.taken, l.after, groups⟩

variable {start : Bool} {s : Text} {l : Lexeme}

/-- A day between 2000 and 2039 in eight digits, the last of them with all digits after it. -/
inductive IsStamp : Text → Prop where
  | intro {y₁ y₂ m₁ m₂ d₁ : Char} {more : Text} (decade : '0' ≤ y₁ ∧ y₁ ≤ '3')
      (year : isDigit y₂ = true) (monthTens : m₁ = '0' ∨ m₁ = '1') (month : isDigit m₂ = true)
      (dayTens : '0' ≤ d₁ ∧ d₁ ≤ '3') (more_ne : more ≠ [])
      (digits : ∀ c ∈ more, isDigit c = true) :
      IsStamp ('2' :: '0' :: y₁ :: y₂ :: m₁ :: m₂ :: d₁ :: more)

theorem IsStamp.head {stamp : Text} (h : IsStamp stamp) : ∃ more, stamp = '2' :: more := by
  obtain ⟨-, -, -, -, -, -, -⟩ := h
  exact ⟨_, rfl⟩

theorem stamp?_eq_some_iff {stamp after : Text} :
    stamp? s = some (stamp, after) ↔
      s = stamp ++ after ∧ IsStamp stamp ∧ ∀ c ∈ after.head?, isDigit c = false := by
  constructor
  · intro h
    obtain ⟨hs, -⟩ := stamp?_append h
    unfold stamp? at h
    split at h
    · rename_i y₁ y₂ m₁ m₂ d₁ s
      dsimp only at h
      split at h
      · rename_i hc
        obtain ⟨hy₁, hy₁', hy₂, hm₁, hm₂, hd₁, hd₁', hmore⟩ := hc
        cases h
        obtain ⟨more, after, rfl, htake, hdrop, hdigits, hafter⟩ := exists_run isDigit s
        rw [htake] at hmore ⊢
        rw [hdrop]
        exact ⟨rfl, ⟨⟨hy₁, hy₁'⟩, hy₂, hm₁, hm₂, ⟨hd₁, hd₁'⟩, hmore, hdigits⟩, hafter⟩
      · cases h
    · cases h
  · rintro ⟨rfl, ⟨⟨hy₁, hy₁'⟩, hy₂, hm₁, hm₂, ⟨hd₁, hd₁'⟩, hmore, hdigits⟩, hafter⟩
    obtain ⟨htake, hdrop⟩ := cut_run hdigits hafter
    simp only [List.cons_append]
    rw [stamp?_digits, htake, hdrop, if_pos ⟨hy₁, hy₁', hy₂, hm₁, hm₂, hd₁, hd₁', hmore⟩]

theorem IsStamp.prefers {stamp after : Text} (h : IsStamp stamp)
    (hstop : ∀ c ∈ after.head?, isDigit c = false) : datePattern.Prefers stamp after [] := by
  obtain ⟨⟨hy₁, hy₁'⟩, hy₂, hm₁, hm₂, ⟨hd₁, hd₁'⟩, hmore, hdigits⟩ := h
  rename_i y₁ y₂ m₁ m₂ d₁ more
  have hyear : (CharClass.between '0' '3').contains y₁ = true := by
    simp [CharClass.contains, hy₁, hy₁']
  have hmonth : (CharClass.among ['0', '1']).contains m₁ = true := by
    simpa [CharClass.contains] using hm₁
  have hday : (CharClass.between '0' '3').contains d₁ = true := by
    simp [CharClass.contains, hd₁, hd₁']
  have hdigit : ∀ c, isDigit c = true → digit.contains c = true := fun _ hc => hc
  have hend : (repeated digit .some).Prefers more after [] :=
    prefers_run hdigits (List.length_pos_iff.2 hmore) rfl hstop
  exact (prefers_exact (by decide) _).seq ((prefers_one hyear _).seq
    ((prefers_one (hdigit y₂ hy₂) _).seq ((prefers_one hmonth _).seq
      ((prefers_one (hdigit m₂ hm₂) _).seq ((prefers_one hday _).seq hend)))))

/-- A word, blanks and a stamp that takes all digits there are. -/
structure Dated (s title gap stamp after : Text) : Prop where
  whole : s = title ++ (gap ++ (stamp ++ after))
  title_ne : title ≠ []
  word : ∀ c ∈ title, isWord c = true
  gap_ne : gap ≠ []
  blank : ∀ c ∈ gap, isBlank c = true
  stamp : IsStamp stamp
  stop : ∀ c ∈ after.head?, isDigit c = false

theorem dated_of_pageBreak? (h : pageBreak? s = some l) :
    ∃ title gap stamp after, Dated s title gap stamp after ∧
      l = ⟨.pageBreak title, title ++ (gap ++ stamp), after⟩ := by
  simp only [pageBreak?] at h
  split at h
  · cases h
  · rename_i hfull
    obtain ⟨htitle, hgap⟩ := not_or.1 hfull
    obtain ⟨⟨stamp, after⟩, hstamp, rfl⟩ := Option.map_eq_some_iff.1 h
    obtain ⟨title, s, rfl, htake, hdrop, hword, -⟩ := exists_run isWord s
    rw [htake] at htitle ⊢
    rw [hdrop] at hgap hstamp ⊢
    obtain ⟨gap, s, rfl, htake, hdrop, hblank, -⟩ := exists_run isBlank s
    rw [htake] at hgap ⊢
    rw [hdrop] at hstamp
    obtain ⟨rfl, hstamp, hstop⟩ := stamp?_eq_some_iff.1 hstamp
    rw [List.append_assoc]
    exact ⟨title, gap, stamp, after, ⟨rfl, htitle, hword, hgap, hblank, hstamp, hstop⟩, rfl⟩

namespace Dated

variable {title gap stamp after : Text}

/-- The word ends where the blanks begin, and they end where the stamp begins. -/
theorem stops (h : Dated s title gap stamp after) :
    (∀ c ∈ (gap ++ (stamp ++ after)).head?, isWord c = false) ∧
      ∀ c ∈ (stamp ++ after).head?, isBlank c = false := by
  constructor
  · intro c hc
    rw [List.head?_append_of_ne_nil _ h.gap_ne] at hc
    exact isWord_of_isBlank (h.blank c (List.mem_of_mem_head? hc))
  · obtain ⟨more, hmore⟩ := h.stamp.head
    intro c hc
    rw [hmore] at hc
    cases hc
    decide

theorem prefers (h : Dated s title gap stamp after) :
    (Kind.pattern .pageBreak).Prefers (title ++ (gap ++ stamp)) after [("title", title)] := by
  have htitle : (repeated .word .some).Prefers title (gap ++ stamp ++ after) [] := by
    refine prefers_run h.word (List.length_pos_iff.2 h.title_ne) rfl ?_
    rw [List.append_assoc]
    exact h.stops.1
  have hgap : (repeated .blank .some).Prefers gap (stamp ++ after) [] :=
    prefers_run h.blank (List.length_pos_iff.2 h.gap_ne) rfl h.stops.2
  exact (htitle.group "title").seq (hgap.seq (h.stamp.prefers h.stop))

end Dated

theorem isBlank_of_isWord {c : Char} (h : isWord c = true) : isBlank c = false := by
  by_contra hblank
  rw [isWord_of_isBlank (Bool.not_eq_false _ ▸ hblank)] at h
  cases h

theorem trim_word (h : ∀ c ∈ s, isWord c = true) : trim s = s := by
  have hstart : trimStart s = s :=
    trimStart_eq_self fun c hc => isBlank_of_isWord (h c (List.mem_of_mem_head? hc))
  have hend : trimEnd s = s :=
    trimEnd_eq_self fun c hc => isBlank_of_isWord (h c (List.mem_of_mem_getLast? hc))
  rw [trim, hstart, hend]

theorem prefers_pageBreak (h : pageBreak? s = some l) : Kind.pageBreak.Prefers start l := by
  obtain ⟨title, gap, stamp, after, hdated, rfl⟩ := dated_of_pageBreak? h
  exact ⟨[("title", title)], hdated.prefers start,
    congrArg Token.pageBreak (trim_word hdated.word).symm⟩

/-- At the start of a text an anchored pattern prefers what the one behind the anchor prefers. -/
theorem matchAt?_atStart (p : Pattern) (s : Text) :
    (Pattern.seq .atStart p).matchAt? true s = p.matchAt? true s := by
  rw [matchAt?_seq, readings, if_pos rfl, List.findSome?_singleton]
  exact Option.map_id_fun' ▸ rfl

/-- A heading and its parts: blanks, signs, a text without signs, and the signs again. -/
structure Heads (level : Level) (gap text after s : Text) : Prop where
  whole : s = gap ++ (List.replicate level.signs '=' ++ (text ++ List.replicate level.signs '=')) ++
    after
  blank : ∀ c ∈ gap, isBlank c = true
  text_ne : text ≠ []
  free : '=' ∉ text

theorem heads_of_heading? {level : Level} (h : heading? level s = some l) :
    ∃ gap text after, Heads level gap text after s ∧ l.token = .heading level (trim text) ∧
      l.taken =
        gap ++ (List.replicate level.signs '=' ++ (text ++ List.replicate level.signs '=')) ∧
      l.after = after := by
  simp only [heading?] at h
  split at h
  · rename_i hc
    obtain ⟨hopen, htext, hclose⟩ := hc
    cases h
    obtain ⟨gap, s, rfl, htake, hdrop, hblank, -⟩ := exists_run isBlank s
    rw [hdrop] at hopen htext hclose ⊢
    rw [htake]
    obtain ⟨opening, s, rfl, htake, hdrop, hsign, -⟩ := exists_run (· == '=') s
    rw [htake] at hopen ⊢
    rw [hdrop] at htext hclose ⊢
    obtain ⟨text, s, rfl, htake, hdrop, hinside, -⟩ := exists_run (· != '=') s
    rw [htake] at htext ⊢
    rw [hdrop] at hclose ⊢
    have hopening : opening = List.replicate level.signs '=' :=
      List.eq_replicate_iff.2 ⟨hopen, fun c hc => eq_of_beq (hsign c hc)⟩
    obtain ⟨after, rfl⟩ : ∃ after, s = List.replicate level.signs '=' ++ after :=
      ⟨_, eq_replicate_append hclose⟩
    refine ⟨gap, text, after, ⟨?_, hblank, htext, fun hmem => ?_⟩, rfl, ?_, ?_⟩
    · rw [hopening]
      simp only [List.append_assoc]
    · exact absurd (hinside _ hmem) (by decide)
    · rw [hopening, List.take_left' List.length_replicate, List.append_assoc, List.append_assoc]
    · exact List.drop_left' List.length_replicate
  · cases h

/-- The text of a heading reaches up to the next sign, whether it prefers to be long or short. -/
theorem prefers_headingText {level : Level} {times : Repetition} {text : Text}
    (htimes : times = .some ∨ times = .fewest) (hne : text ≠ []) (htext : '=' ∉ text)
    (after : Text) :
    (Pattern.seq (.group "text" (.repeated (.notAmong ['=']) times))
      (exact (List.replicate level.signs '='))).Prefers
        (text ++ List.replicate level.signs '=') after [("text", text)] := by
  obtain ⟨signs, hsigns⟩ : ∃ signs, List.replicate level.signs '=' = '=' :: signs := by
    cases level <;> exact ⟨_, rfl⟩
  have hinside : ∀ c ∈ text, (CharClass.notAmong ['=']).contains c = true := by
    intro c hc
    simpa [CharClass.contains] using ne_of_mem_of_not_mem hc htext
  have hend : ∀ c ∈ ('=' :: signs ++ after).head?,
      (CharClass.notAmong ['=']).contains c = false := by
    intro c hc
    cases hc
    rfl
  have hadmits : times.admits text.length := by
    obtain rfl | rfl := htimes <;> exact List.length_pos_iff.2 hne
  rw [hsigns, ← List.append_nil [("text", text)]]
  refine prefers_seq_of_split (fun start => ?_) (prefers_exact (List.cons_ne_nil _ _) after)
  obtain ⟨sooner, later, hreadings, hsooner⟩ := readings_run hinside hadmits _ start
  have hgroup := congrArg
    (List.map fun r : Reading => { r with groups := ("text", r.taken) :: r.groups }) hreadings
  rw [List.map_append, List.map_cons] at hgroup
  refine ⟨_, _, hgroup, fun r hr => ?_⟩
  obtain ⟨r', hr', rfl⟩ := List.mem_map.1 hr
  obtain ⟨n, hn, -, hmost, hrest⟩ := hsooner r' hr'
  rw [(cut_run hinside hend).1] at hmost
  obtain rfl | rfl := htimes
  · exact absurd hmost (Nat.not_le_of_lt hn)
  · -- A text that stops sooner is followed by one of its characters and not by a sign.
    refine fails_exact fun d hd => ne_of_mem_of_not_mem ?_ htext
    have hne : text.drop n ≠ [] := by
      refine List.ne_nil_of_length_pos ?_
      rw [List.length_drop]
      exact Nat.sub_pos_of_lt hn
    have hd : d ∈ (text.drop n ++ ('=' :: signs ++ after)).head? := by
      rwa [← List.drop_append_of_le_length hmost, ← hrest]
    rw [List.head?_append_of_ne_nil _ hne] at hd
    exact List.mem_of_mem_drop (List.mem_of_mem_head? hd)

theorem Heads.matchAt? {level : Level} {times : Repetition} {gap text after : Text}
    (h : Heads level gap text after s) (htimes : times = .some ∨ times = .fewest) :
    (headingPattern level.signs times).matchAt? true s =
      some ⟨gap ++ (List.replicate level.signs '=' ++
        (text ++ List.replicate level.signs '=')), after, [("text", text)]⟩ := by
  have hsigns : List.replicate level.signs '=' ≠ [] := by cases level <;> decide
  have hgap : (repeated .blank .any).Prefers gap
      (List.replicate level.signs '=' ++ (text ++ List.replicate level.signs '=') ++ after) [] := by
    refine prefers_run h.blank trivial rfl fun c hc => ?_
    have hsign : c = '=' := by
      cases level <;> simpa [Level.signs, List.replicate_succ, eq_comm] using hc
    rw [hsign]
    decide
  rw [h.whole, headingPattern]
  exact (matchAt?_atStart _ _).trans ((hgap.seq ((prefers_exact hsigns _).seq
    (prefers_headingText htimes h.text_ne h.free after))) true)

theorem prefers_heading (level : Level) (times : Repetition)
    (htimes : times = .some ∨ times = .fewest) (h : heading? level s = some l) :
    ∃ groups, (headingPattern level.signs times).matchAt? true (l.taken ++ l.after) =
        some ⟨l.taken, l.after, groups⟩ ∧
      l.token = .heading level (trim (Reading.groupText ⟨l.taken, l.after, groups⟩ "text")) := by
  obtain ⟨gap, text, after, hheads, htoken, htaken, hafter⟩ := heads_of_heading? h
  refine ⟨[("text", text)], ?_, htoken⟩
  rw [htaken, hafter, ← hheads.whole]
  exact hheads.matchAt? htimes

theorem exists_last_star {marks : Text} (h : '*' ∈ marks) :
    ∃ front back, marks = front ++ '*' :: back ∧ '*' ∉ back := by
  obtain ⟨back, front, hmarks, hback⟩ := List.eq_append_cons_of_mem (List.mem_reverse.2 h)
  refine ⟨front.reverse, back.reverse, ?_, by simpa using hback⟩
  rw [← List.reverse_reverse marks, hmarks]
  simp

def markClass : CharClass := .among ['\\', '*']

theorem markClass_contains (c : Char) : markClass.contains c = isMark c := by
  rw [Bool.eq_iff_iff]
  simp [markClass, CharClass.contains, isMark]

/-- A list marker behind the start of a text: the marks before its last star are taken first. -/
def markerPattern : Pattern :=
  .seq (.repeated markClass .any)
    (.seq (.one (.just '*')) (.seq (.repeated markClass .any) (.repeated .blank .any)))

theorem pattern_listItem : Kind.pattern .listItem = .seq .atStart markerPattern := rfl

theorem prefers_markerPattern {front back blanks after : Text}
    (hmarks : ∀ c ∈ front ++ '*' :: back, isMark c = true) (hback : '*' ∉ back)
    (hend : ∀ c ∈ (blanks ++ after).head?, isMark c = false)
    (hblank : ∀ c ∈ blanks, isBlank c = true) (hend' : ∀ c ∈ after.head?, isBlank c = false) :
    markerPattern.Prefers (front ++ (['*'] ++ (back ++ blanks))) after [] := by
  have hinside : ∀ t ⊆ front ++ '*' :: back, ∀ c ∈ t, markClass.contains c = true :=
    fun t ht c hc => (markClass_contains c).trans (hmarks c (ht hc))
  have hstop : ∀ c ∈ (blanks ++ after).head?, markClass.contains c = false :=
    fun c hc => (markClass_contains c).trans (hend c hc)
  have hblanks : (repeated .blank .any).Prefers blanks after [] :=
    prefers_run hblank trivial rfl hend'
  have hrest : (repeated markClass .any).Prefers back (blanks ++ after) [] :=
    prefers_run (hinside back fun c hc => by simp [hc]) trivial rfl hstop
  have hstar : (one (.just '*')).Prefers ['*'] (back ++ blanks ++ after) [] := prefers_one rfl _
  refine prefers_shorter_run (hinside front fun c hc => by simp [hc])
    (hinside ('*' :: back) fun c hc => List.mem_append_right _ hc) hstop (by simp)
    (hstar.seq (hrest.seq hblanks)) fun more left hsplit hmore => ?_
  -- Behind a run that reaches beyond the last star, no star stands.
  refine (fails_one fun c hc => beq_eq_false_iff_ne.2 ?_).seq _
  rintro rfl
  obtain ⟨c, more, rfl⟩ := List.exists_cons_of_ne_nil hmore
  obtain ⟨-, rfl⟩ := List.cons.inj hsplit
  cases left with
  | nil => exact absurd (hend _ hc) (by decide)
  | cons d left =>
      cases hc
      exact hback (by simp)

theorem prefers_listItem (h : listItem? s = some l) : Kind.listItem.Prefers true l := by
  simp only [listItem?] at h
  split at h
  · rename_i hstar
    cases h
    obtain ⟨marks, s, rfl, htake, hdrop, hmarks, hend⟩ := exists_run isMark s
    rw [htake] at hstar ⊢
    rw [hdrop]
    obtain ⟨blanks, after, rfl, htake, hdrop, hblank, hend'⟩ := exists_run isBlank s
    rw [htake, hdrop]
    obtain ⟨front, back, rfl, hback⟩ := exists_last_star hstar
    have hmarkers := prefers_markerPattern hmarks hback hend hblank hend' true
    have htaken : front ++ '*' :: back ++ blanks = front ++ (['*'] ++ (back ++ blanks)) := by simp
    refine ⟨[], ?_, ?_⟩
    · rw [htaken, pattern_listItem]
      exact (matchAt?_atStart _ _).trans hmarkers
    · have hnone : blanks.count '*' = 0 :=
        List.count_eq_zero.2 fun hmem => absurd (hblank _ hmem) (by decide)
      have hcount :
          (front ++ '*' :: back ++ blanks).count '*' = (front ++ '*' :: back).count '*' := by
        rw [List.count_append, hnone, Nat.add_zero]
      rw [Kind.tokenOf, hcount]
  · cases h

theorem prefers_literalBlock (h : literalBlock? s = some l) :
    Kind.literalBlock.Prefers start l := by
  obtain ⟨after, hcolons, rfl⟩ := Option.map_eq_some_iff.1 h
  obtain ⟨gap, s, rfl, htake, hdrop, hblank, hend⟩ := exists_run isBlank s
  rw [hdrop] at hcolons
  obtain rfl := dropLead_eq_some_iff.1 hcolons
  rw [htake]
  have hgap : (repeated .blank .any).Prefers gap ([':', ':'] ++ after) [] :=
    prefers_run hblank trivial rfl hend
  exact ⟨[], hgap.seq (prefers_exact (by decide) after) start, rfl⟩

theorem prefers_tableStart (h : tableStart? s = some l) : Kind.tableStart.Prefers start l := by
  have hback : ∀ back after, (∀ c ∈ back, c = '\\') → back.length ≤ 1 →
      (Kind.pattern .tableStart).Prefers ('\x7b' :: (back ++ ['|'])) after [] := by
    intro back after hjust hshort
    have hrun : (repeated (.just '\\') .optional).Prefers back (['|'] ++ after) [] := by
      refine prefers_run (fun c hc => beq_iff_eq.2 (hjust c hc)) hshort rfl fun c hc => ?_
      cases hc
      rfl
    have hbrace : (one (.just '\x7b')).Prefers ['\x7b'] (back ++ ['|'] ++ after) [] :=
      prefers_one rfl _
    have hbar : (one (.just '|')).Prefers ['|'] after [] := prefers_one rfl after
    exact hbrace.seq (hrun.seq hbar)
  unfold tableStart? at h
  split at h
  · cases h
    exact ⟨[], hback [] _ (List.forall_mem_nil _) (Nat.zero_le 1) start, rfl⟩
  · cases h
    exact ⟨[], hback ['\\'] _ (by simp) (Nat.le_refl 1) start, rfl⟩
  · cases h

theorem prefers_newline (h : newline? s = some l) : Kind.newline.Prefers start l := by
  unfold newline? at h
  split at h
  · cases h
    exact ⟨[], prefers_one rfl _ start, rfl⟩
  · cases h

end Token
end WikiDocs

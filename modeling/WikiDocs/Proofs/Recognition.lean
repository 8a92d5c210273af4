import WikiDocs.Proofs.LongerTexts

/-!
What the patterns match. Where the pattern of a kind has any match, a token of
that kind begins the text there; so in a text in which no token is found, no
pattern of any kind matches.
-/

namespace WikiDocs

open Text

/-- The numbers of characters that a repetition can take. -/
def Repetition.admits (n : Nat) : Repetition → Prop
  | .any => True
  | .some => 0 < n
  | .fewest => 0 < n
  | .optional => n ≤ 1

theorem Repetition.admits_of_mem_counts {times : Repetition} {n most : Nat}
    (h : n ∈ times.counts most) : n ≤ most ∧ times.admits n := by
  cases times with
  | any =>
      simp only [counts, List.mem_reverse, List.mem_range] at h
      exact ⟨Nat.le_of_lt_succ h, trivial⟩
  | some | fewest =>
      simp only [counts, List.mem_reverse, List.mem_map, List.mem_range] at h
      obtain ⟨m, hm, rfl⟩ := h
      exact ⟨hm, Nat.succ_pos m⟩
  | optional =>
      simp only [counts] at h
      split at h
      · cases List.mem_singleton.1 h
        exact ⟨Nat.zero_le _, Nat.zero_le 1⟩
      · simp only [List.mem_cons, List.not_mem_nil, or_false] at h
        simp only [admits]
        omega

namespace Pattern

/-- A pattern can match at a place so that `rest` is what follows. -/
def LeadsTo (p : Pattern) (start : Bool) (s rest : Text) : Prop :=
  ∃ r ∈ p.readings start s, r.rest = rest

variable {p q : Pattern} {chars : CharClass} {times : Repetition} {start : Bool} {s rest : Text}

theorem leadsTo_atStart (h : atStart.LeadsTo start s rest) : start = true ∧ s = rest := by
  obtain ⟨r, hr, rfl⟩ := h
  cases start with
  | true =>
      cases List.mem_singleton.1 hr
      exact ⟨rfl, rfl⟩
  | false => cases hr

theorem leadsTo_one (h : (one chars).LeadsTo start s rest) :
    ∃ c, s = c :: rest ∧ chars.contains c = true := by
  obtain ⟨r, hr, rfl⟩ := h
  exact mem_readings_one hr

theorem leadsTo_repeated (h : (repeated chars times).LeadsTo start s rest) :
    ∃ run, s = run ++ rest ∧ (∀ c ∈ run, chars.contains c = true) ∧ times.admits run.length := by
  obtain ⟨r, hr, rfl⟩ := h
  obtain ⟨n, hn, rfl⟩ := List.mem_map.1 hr
  obtain ⟨hle, hadmits⟩ := Repetition.admits_of_mem_counts hn
  have hlen : (s.take n).length = n :=
    List.length_take_of_le (hle.trans (List.takeWhile_prefix _).length_le)
  refine ⟨s.take n, (List.take_append_drop n s).symm, fun c hc => ?_, by rwa [hlen]⟩
  have hfront : s.take n <+: s.takeWhile chars.contains :=
    List.prefix_of_prefix_length_le (List.take_prefix n s) (List.takeWhile_prefix _)
      (hlen.trans_le hle)
  exact List.all_eq_true.1 (List.all_takeWhile ..) c (hfront.subset hc)

theorem leadsTo_seq (h : (seq p q).LeadsTo start s rest) :
    ∃ start' middle, p.LeadsTo start s middle ∧ q.LeadsTo start' middle rest := by
  obtain ⟨r, hr, rfl⟩ := h
  obtain ⟨r₁, hr₁, hmap⟩ := List.mem_flatMap.1 hr
  obtain ⟨r₂, hr₂, rfl⟩ := List.mem_map.1 hmap
  exact ⟨_, r₁.rest, ⟨r₁, hr₁, rfl⟩, r₂, hr₂, rfl⟩

theorem leadsTo_either (h : (either p q).LeadsTo start s rest) :
    p.LeadsTo start s rest ∨ q.LeadsTo start s rest := by
  obtain ⟨r, hr, hrest⟩ := h
  exact (List.mem_append.1 hr).imp (⟨r, ·, hrest⟩) (⟨r, ·, hrest⟩)

theorem leadsTo_group {name : String} (h : (group name p).LeadsTo start s rest) :
    p.LeadsTo start s rest := by
  obtain ⟨r, hr, rfl⟩ := h
  obtain ⟨r', hr', rfl⟩ := List.mem_map.1 hr
  exact ⟨r', hr', rfl⟩

theorem leadsTo_exact {word : Text} (hne : word ≠ []) (h : (exact word).LeadsTo start s rest) :
    s = word ++ rest := by
  induction word generalizing start s with
  | nil => exact absurd rfl hne
  | cons c word ih =>
      cases word with
      | nil =>
          obtain ⟨d, rfl, hd⟩ := leadsTo_one h
          rw [eq_of_beq hd]
          rfl
      | cons d word =>
          obtain ⟨start', middle, hone, hword⟩ := leadsTo_seq h
          obtain ⟨e, rfl, he⟩ := leadsTo_one hone
          rw [eq_of_beq he, ih (List.cons_ne_nil d word) hword]
          rfl

/-- A pattern that leads nowhere from any place of a text has no match in it. -/
theorem matchFrom?_eq_none
    (h : ∀ front rest after, s = front ++ rest →
      ¬ p.LeadsTo (start && front.isEmpty) rest after) : p.matchFrom? start s = none := by
  induction s generalizing start with
  | nil =>
      have hnone : p.matchAt? start [] = none := by
        rw [matchAt?, List.head?_eq_none_iff, List.eq_nil_iff_forall_not_mem]
        intro r hr
        exact h [] [] r.rest rfl ⟨r, by simpa using hr, rfl⟩
      rw [matchFrom?, hnone]
  | cons c s ih =>
      have hnone : p.matchAt? start (c :: s) = none := by
        rw [matchAt?, List.head?_eq_none_iff, List.eq_nil_iff_forall_not_mem]
        intro r hr
        exact h [] (c :: s) r.rest rfl ⟨r, by simpa using hr, rfl⟩
      have hlater : p.matchFrom? false s = none := by
        refine ih fun front rest after hs hleads => h (c :: front) rest after (by rw [hs]; rfl) ?_
        simpa using hleads
      rw [matchFrom?, hnone, hlater]
      rfl

end Pattern

namespace Token

open Pattern

variable {start : Bool} {s rest : Text}

theorem stamp?_of_leadsTo (hleads : datePattern.LeadsTo start s rest) : stamp? s ≠ none := by
  obtain ⟨_, _, h₀, hleads⟩ := leadsTo_seq hleads
  obtain ⟨_, _, h₁, hleads⟩ := leadsTo_seq hleads
  obtain ⟨_, _, h₂, hleads⟩ := leadsTo_seq hleads
  obtain ⟨_, _, h₃, hleads⟩ := leadsTo_seq hleads
  obtain ⟨_, _, h₄, hleads⟩ := leadsTo_seq hleads
  obtain ⟨_, _, h₅, h₆⟩ := leadsTo_seq hleads
  obtain rfl := leadsTo_exact (List.cons_ne_nil _ _) h₀
  obtain ⟨y₁, rfl, hy₁⟩ := leadsTo_one h₁
  obtain ⟨y₂, rfl, hy₂⟩ := leadsTo_one h₂
  obtain ⟨m₁, rfl, hm₁⟩ := leadsTo_one h₃
  obtain ⟨m₂, rfl, hm₂⟩ := leadsTo_one h₄
  obtain ⟨d₁, rfl, hd₁⟩ := leadsTo_one h₅
  obtain ⟨digits, rfl, hdigits, hne⟩ := leadsTo_repeated h₆
  have hdigits : ∀ c ∈ digits, isDigit c = true := hdigits
  have hmore : (digits ++ rest).takeWhile isDigit ≠ [] := by
    rw [List.takeWhile_append_of_pos hdigits]
    exact List.append_ne_nil_of_left_ne_nil (List.ne_nil_of_length_pos hne) _
  simp only [CharClass.contains, Bool.and_eq_true, decide_eq_true_eq, List.elem_eq_mem,
    List.mem_cons, List.not_mem_nil, or_false] at hy₁ hm₁ hd₁
  simp only [List.cons_append, List.nil_append]
  rw [stamp?_digits, if_pos ⟨hy₁.1, hy₁.2, hy₂, hm₁, hm₂, hd₁.1, hd₁.2, hmore⟩]
  exact Option.some_ne_none _

theorem pageBreak?_of_leadsTo (hleads : (Kind.pattern .pageBreak).LeadsTo start s rest) :
    pageBreak? s ≠ none := by
  obtain ⟨_, _, htitle, hleads⟩ := leadsTo_seq hleads
  obtain ⟨_, date, hgap, hdate⟩ := leadsTo_seq hleads
  obtain ⟨title, rfl, hword, hne⟩ := leadsTo_repeated (leadsTo_group htitle)
  obtain ⟨gap, rfl, hblank, hfull⟩ := leadsTo_repeated hgap
  have hgap : gap ≠ [] := List.ne_nil_of_length_pos hfull
  have hblank : ∀ c ∈ gap, isBlank c = true := hblank
  have hword : ∀ c ∈ title, isWord c = true := hword
  have hstamp := stamp?_of_leadsTo hdate
  -- Neither the word nor the blanks can stop earlier than where their run ends.
  have hend : ∀ c ∈ date.head?, isBlank c = false := by
    obtain ⟨stamp, hs⟩ := Option.ne_none_iff_exists'.1 hstamp
    obtain ⟨more, rfl⟩ := head_of_stamp? hs
    intro c hc
    cases hc
    decide
  have hstop : ∀ c ∈ (gap ++ date).head?, isWord c = false := by
    intro c hc
    cases gap with
    | nil => exact absurd rfl hgap
    | cons d gap =>
        cases hc
        exact isWord_of_isBlank (hblank c List.mem_cons_self)
  obtain ⟨htake₁, hdrop₁⟩ := cut_run hword hstop
  obtain ⟨htake₂, hdrop₂⟩ := cut_run hblank hend
  rw [pageBreak?_ne_none_iff, htake₁, hdrop₁, htake₂, hdrop₂]
  exact ⟨List.ne_nil_of_length_pos hne, hgap, hstamp⟩

theorem heading?_of_leadsTo (level : Level) (times : Repetition)
    (htimes : ∀ n, times.admits n → 0 < n)
    (hleads : (headingPattern level.signs times).LeadsTo start s rest) :
    start = true ∧ heading? level s ≠ none := by
  obtain ⟨_, _, hstart, hleads⟩ := leadsTo_seq hleads
  obtain ⟨_, _, hgap, hleads⟩ := leadsTo_seq hleads
  obtain ⟨_, _, hopen, hleads⟩ := leadsTo_seq hleads
  obtain ⟨_, _, htext, hclose⟩ := leadsTo_seq hleads
  have hne : List.replicate level.signs '=' ≠ [] := by cases level <;> decide
  obtain ⟨rfl, rfl⟩ := leadsTo_atStart hstart
  obtain ⟨gap, rfl, hblank, -⟩ := leadsTo_repeated hgap
  obtain rfl := leadsTo_exact hne hopen
  obtain ⟨text, rfl, hinside, hfull⟩ := leadsTo_repeated (leadsTo_group htext)
  obtain rfl := leadsTo_exact hne hclose
  refine ⟨rfl, heading?_of_parts hblank
    (List.ne_nil_of_length_pos (htimes _ hfull)) (fun hsign => ?_)⟩
  exact absurd (hinside _ hsign) (by decide)

theorem listItem?_of_leadsTo (hleads : (Kind.pattern .listItem).LeadsTo start s rest) :
    start = true ∧ listItem? s ≠ none := by
  obtain ⟨_, _, hstart, hleads⟩ := leadsTo_seq hleads
  obtain ⟨_, _, hmarks, hleads⟩ := leadsTo_seq hleads
  obtain ⟨_, _, hstar, -⟩ := leadsTo_seq hleads
  obtain ⟨rfl, rfl⟩ := leadsTo_atStart hstart
  obtain ⟨marks, rfl, hmark, -⟩ := leadsTo_repeated hmarks
  obtain ⟨c, rfl, hc⟩ := leadsTo_one hstar
  obtain rfl := eq_of_beq hc
  have hrun : ∀ c ∈ marks, isMark c = true := by
    intro c hc
    simpa [CharClass.contains, isMark] using hmark c hc
  refine ⟨rfl, listItem?_ne_none_iff.2 ?_⟩
  rw [List.takeWhile_append_of_pos hrun, List.takeWhile_cons_of_pos (by decide)]
  simp

theorem literalBlock?_of_leadsTo (hleads : (Kind.pattern .literalBlock).LeadsTo start s rest) :
    literalBlock? s ≠ none := by
  obtain ⟨_, _, hgap, hcolons⟩ := leadsTo_seq hleads
  obtain ⟨gap, rfl, hblank, -⟩ := leadsTo_repeated hgap
  obtain rfl := leadsTo_exact (List.cons_ne_nil _ _) hcolons
  have hblank : ∀ c ∈ gap, isBlank c = true := hblank
  rw [literalBlock?_ne_none_iff, List.dropWhile_append_of_pos hblank]
  exact ⟨rest, rfl⟩

theorem tableStart?_of_leadsTo (hleads : (Kind.pattern .tableStart).LeadsTo start s rest) :
    tableStart? s ≠ none := by
  obtain ⟨_, _, hopen, hleads⟩ := leadsTo_seq hleads
  obtain ⟨_, _, hback, hclose⟩ := leadsTo_seq hleads
  obtain ⟨brace, rfl, hbrace⟩ := leadsTo_one hopen
  obtain ⟨bar, rfl, hbar⟩ := leadsTo_one hclose
  obtain rfl := eq_of_beq hbrace
  obtain rfl := eq_of_beq hbar
  obtain ⟨back, rfl, hjust, hshort⟩ := leadsTo_repeated hback
  rw [tableStart?_ne_none_iff]
  cases back with
  | nil => exact .inl ⟨rest, rfl⟩
  | cons c back =>
      have hnil : back = [] :=
        List.length_eq_zero_iff.1 (Nat.le_zero.1 (Nat.le_of_succ_le_succ hshort))
      obtain rfl := eq_of_beq (hjust c List.mem_cons_self)
      exact .inr ⟨rest, by rw [hnil]; rfl⟩

/-- The text between the width and the path of an image has a label if it is long enough and
begins with what can separate the two. -/
theorem label?_ne_none {caption : Text} (hlen : 2 ≤ caption.length)
    (hhead : ∀ c ∈ caption.head?, isBlank c = true ∨ c = '|') : label? caption ≠ none := by
  have hspan := length_span isBlank caption
  simp only [label?]
  split
  · rename_i hnil
    rw [hnil, List.length_nil] at hspan
    rw [if_pos (by omega)]
    exact Option.some_ne_none _
  · rename_i c more hdrop
    rw [hdrop, List.length_cons] at hspan
    by_cases hgap : caption.takeWhile isBlank = []
    · -- Without blanks in front the bar comes first, and something follows it.
      have hcaption : caption = c :: more := by
        have happ := List.takeWhile_append_dropWhile (p := isBlank) (l := caption)
        rw [hgap, hdrop] at happ
        exact happ.symm
      have hbar : c = '|' := by
        refine (hhead c (by rw [hcaption]; rfl)).resolve_left fun hblank => ?_
        rw [hcaption, List.takeWhile_cons_of_pos hblank] at hgap
        cases hgap
      have hmore := length_span isBlank more
      rw [hgap, List.length_nil] at hspan
      rw [if_pos hbar]
      split
      · exact Option.some_ne_none _
      · rename_i hlabel
        rw [not_not.1 hlabel, List.length_nil] at hmore
        rw [if_pos (List.ne_nil_of_length_pos (by omega))]
        exact Option.some_ne_none _
    · split
      · split
        · exact Option.some_ne_none _
        · split
          · exact Option.some_ne_none _
          · exact Option.some_ne_none _
      · exact Option.some_ne_none _

/-- A text made of the parts of an image begins with one. -/
theorem image?_of_parts {digits caption path : Text} (hdigits : digits ≠ [])
    (hdigit : ∀ c ∈ digits, isDigit c = true) (hlabel : label? caption ≠ none)
    (hcaption : '<' ∉ caption) (hpath : path ≠ []) (hname : '>' ∉ path) (rest : Text) :
    image? (imageLead ++ (digits ++ (imagePixels ++ (caption ++ (imagePath ++ (path ++
      (imageEnd ++ rest))))))) ≠ none := by
  have hbefore : ∀ c ∈ caption, (c != '<') = true := by
    intro c hc
    exact bne_iff_ne.2 (ne_of_mem_of_not_mem hc hcaption)
  have hwithin : ∀ c ∈ path, (c != '>') = true := by
    intro c hc
    exact bne_iff_ne.2 (ne_of_mem_of_not_mem hc hname)
  have hstop₁ : ∀ c ∈ (imagePixels ++ (caption ++ (imagePath ++ (path ++
      (imageEnd ++ rest))))).head?, isDigit c = false := fun c hc => by cases hc; rfl
  have hstop₂ : ∀ c ∈ (imagePath ++ (path ++ (imageEnd ++ rest))).head?, (c != '<') = false :=
    fun c hc => by cases hc; rfl
  have hstop₃ : ∀ c ∈ (imageEnd ++ rest).head?, (c != '>') = false :=
    fun c hc => by cases hc; rfl
  obtain ⟨htake₁, hdrop₁⟩ := cut_run hdigit hstop₁
  obtain ⟨htake₂, hdrop₂⟩ := cut_run hbefore hstop₂
  obtain ⟨htake₃, hdrop₃⟩ := cut_run hwithin hstop₃
  refine image?_ne_none_iff.2 ⟨_, _, _, rfl, ?_, hdrop₁, ?_, hdrop₂, ?_, ?_⟩
  · rwa [htake₁]
  · rwa [htake₂]
  · rwa [htake₃]
  · rw [hdrop₃]
    exact List.prefix_append imageEnd rest

theorem image?_of_leadsTo (hleads : (Kind.pattern .image).LeadsTo start s rest) :
    image? s ≠ none := by
  obtain ⟨_, _, hlead, hleads⟩ := leadsTo_seq hleads
  obtain ⟨_, _, hsize, hleads⟩ := leadsTo_seq hleads
  obtain ⟨_, _, hgap, hleads⟩ := leadsTo_seq hleads
  obtain ⟨_, caption, hseparator, hleads⟩ := leadsTo_seq hleads
  obtain ⟨_, _, hgap', hleads⟩ := leadsTo_seq hleads
  obtain ⟨_, _, htext, hleads⟩ := leadsTo_seq hleads
  obtain ⟨_, _, hmark, hleads⟩ := leadsTo_seq hleads
  obtain ⟨_, _, hname, hend⟩ := leadsTo_seq hleads
  obtain ⟨_, _, hnumber, hpixels⟩ := leadsTo_seq (leadsTo_group hsize)
  obtain rfl := leadsTo_exact (by decide) hlead
  obtain ⟨digits, rfl, hdigit, hdigits⟩ := leadsTo_repeated hnumber
  obtain rfl := leadsTo_exact (List.cons_ne_nil _ _) hpixels
  obtain ⟨gap, rfl, hblank, -⟩ := leadsTo_repeated hgap
  obtain ⟨bar, rfl, hbar⟩ : ∃ bar, _ = bar :: caption ∧ (isBlank bar = true ∨ bar = '|') := by
    obtain hblank | hbar := leadsTo_either hseparator
    · obtain ⟨bar, hs, hc⟩ := leadsTo_one hblank
      exact ⟨bar, hs, .inl hc⟩
    · obtain ⟨bar, hs, hc⟩ := leadsTo_one hbar
      exact ⟨bar, hs, .inr (eq_of_beq hc)⟩
  obtain ⟨gap', rfl, hblank', -⟩ := leadsTo_repeated hgap'
  obtain ⟨label, rfl, hinside, hlong⟩ := leadsTo_repeated (leadsTo_group htext)
  obtain rfl := leadsTo_exact (by decide) hmark
  obtain ⟨path, rfl, hwithin, hpath⟩ := leadsTo_repeated (leadsTo_group hname)
  obtain rfl := leadsTo_exact (by decide) hend
  have hlabel : label? (gap ++ bar :: (gap' ++ label)) ≠ none := by
    have hlong : 0 < label.length := hlong
    refine label?_ne_none (by simp only [List.length_append, List.length_cons]; omega) ?_
    intro c hc
    cases gap with
    | nil =>
        cases hc
        exact hbar
    | cons d gap =>
        cases hc
        exact .inl (hblank c List.mem_cons_self)
  have hcaption : '<' ∉ gap ++ bar :: (gap' ++ label) := by
    have hopen : ¬ (isBlank '<' = true ∨ '<' = '|') := by decide
    intro hmem
    simp only [List.mem_append, List.mem_cons] at hmem
    obtain hmem | rfl | hmem | hmem := hmem
    · exact hopen (.inl (hblank _ hmem))
    · exact hopen hbar
    · exact hopen (.inl (hblank' _ hmem))
    · exact absurd (hinside _ hmem) (by decide)
  have hname : '>' ∉ path := fun hmem => absurd (hwithin _ hmem) (by decide)
  have hparts := image?_of_parts (List.ne_nil_of_length_pos hdigits) hdigit hlabel hcaption
    (List.ne_nil_of_length_pos hpath) hname rest
  rw [List.append_assoc gap, List.cons_append, List.append_assoc gap'] at hparts
  exact hparts

/-- Where the pattern of a kind matches, a token of that kind begins the text. -/
theorem Kind.lexeme?_of_leadsTo {kind : Kind} (h : kind.pattern.LeadsTo start s rest) :
    kind.lexeme? start s ≠ none := by
  cases kind with
  | pageBreak => exact pageBreak?_of_leadsTo h
  | title =>
      obtain ⟨rfl, hheading⟩ := heading?_of_leadsTo .title .fewest (fun _ hn => hn) h
      exact hheading
  | subtitle =>
      obtain ⟨rfl, hheading⟩ := heading?_of_leadsTo .subtitle .some (fun _ hn => hn) h
      exact hheading
  | minorTitle =>
      obtain ⟨rfl, hheading⟩ := heading?_of_leadsTo .minorTitle .some (fun _ hn => hn) h
      exact hheading
  | listItem =>
      obtain ⟨rfl, hitem⟩ := listItem?_of_leadsTo h
      exact hitem
  | literalBlock => exact literalBlock?_of_leadsTo h
  | tableStart => exact tableStart?_of_leadsTo h
  | image => exact image?_of_leadsTo h
  | newline =>
      obtain ⟨c, rfl, hc⟩ := leadsTo_one h
      obtain rfl := eq_of_beq hc
      exact newline?_ne_none_iff.2 ⟨rest, rfl⟩

/-- In a text in which no token is found, the pattern of no kind has a match. -/
theorem match?_eq_none (h : find? s = none) (kind : Kind) : kind.pattern.match? s = none := by
  refine matchFrom?_eq_none fun front rest after hs hleads => ?_
  exact Kind.lexeme?_of_leadsTo hleads
    (lexeme?_eq_none_iff.1 (find?_eq_none_iff.1 h front rest hs) kind)

end Token
end WikiDocs

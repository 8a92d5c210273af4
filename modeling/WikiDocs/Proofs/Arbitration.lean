import WikiDocs.Proofs.ImageReadings

/-!
The arbitration between the kinds. Each recogniser agrees with the pattern of
its kind at every place of every text. So the token of a text is the first
match of one pattern: no pattern matches sooner, and none of a kind with a
higher priority matches there.
-/

namespace WikiDocs

open Text

/-- A byte offset that does not cut a character of a text. -/
def Text.IsBoundary (s : Text) (n : Nat) : Prop := ∃ front : Text, front <+: s ∧ front.byteSize = n

theorem Text.byteSize_pos {s : Text} (hne : s ≠ []) : 0 < s.byteSize := by
  obtain ⟨c, s, rfl⟩ := List.exists_cons_of_ne_nil hne
  exact Nat.add_pos_left c.utf8Size_pos _

/-- Of two fronts of a text the one with fewer bytes is the front of the other. -/
theorem Text.exists_append_of_byteSize_le {front back front' back' : Text}
    (h : front ++ back = front' ++ back') (hle : byteSize front ≤ byteSize front') :
    ∃ more, front' = front ++ more := by
  obtain ⟨more, hmore, -⟩ | ⟨more, hmore, -⟩ := List.append_eq_append_iff.1 h
  · exact ⟨more, hmore⟩
  · by_cases hne : more = []
    · exact ⟨[], by rw [hmore, hne, List.append_nil, List.append_nil]⟩
    · rw [hmore, byteSize_append] at hle
      exact absurd hle (Nat.not_le.2 (Nat.lt_add_of_pos_right (byteSize_pos hne)))

theorem Text.front_eq_of_byteSize_eq {front back front' back' : Text}
    (h : front ++ back = front' ++ back') (heq : byteSize front = byteSize front') :
    front = front' := by
  obtain ⟨more, rfl⟩ := exists_append_of_byteSize_le h heq.le
  rw [byteSize_append] at heq
  by_cases hne : more = []
  · rw [hne, List.append_nil]
  · exact absurd heq (Nat.ne_of_lt (Nat.lt_add_of_pos_right (byteSize_pos hne)))

namespace Pattern

variable {p : Pattern} {start : Bool} {s before : Text} {r : Reading}

/-- A pattern without readings at all places of the text before one. -/
def NoneSooner (p : Pattern) (start : Bool) (before rest : Text) : Prop :=
  ∀ front more, before = front ++ more → more ≠ [] →
    p.readings (start && front.isEmpty) (more ++ rest) = []

theorem noneSooner_nil {rest : Text} : p.NoneSooner start [] rest :=
  fun _ _ h hne => absurd (List.append_eq_nil_iff.1 h.symm).2 hne

theorem noneSooner_cons_iff {c : Char} {rest : Text} :
    p.NoneSooner start (c :: before) rest ↔
      p.matchAt? start (c :: (before ++ rest)) = none ∧ p.NoneSooner false before rest := by
  rw [matchAt?, List.head?_eq_none_iff]
  constructor
  · refine fun h => ⟨?_, fun front more hsplit hne => ?_⟩
    · simpa using h [] (c :: before) rfl (List.cons_ne_nil c before)
    · simpa using h (c :: front) more (congrArg (c :: ·) hsplit) hne
  · rintro ⟨hfirst, hlater⟩ front more hsplit hne
    cases front with
    | nil =>
        rw [List.isEmpty_nil, Bool.and_true, ← List.nil_append more, ← hsplit]
        exact hfirst
    | cons d front =>
        cases hsplit
        simpa using hlater front more rfl hne

/-- A pattern matches first where it has a reading and has none at any place before. -/
theorem matchFrom?_eq_some_iff :
    p.matchFrom? start s = some (before, r) ↔
      ∃ rest, s = before ++ rest ∧ p.matchAt? (start && before.isEmpty) rest = some r ∧
        p.NoneSooner start before rest := by
  fun_induction matchFrom? p start s generalizing before with
  | case1 s start r' hmatch =>
      constructor
      · intro h
        cases h
        exact ⟨s, rfl, by rwa [List.isEmpty_nil, Bool.and_true], noneSooner_nil⟩
      · rintro ⟨rest, rfl, hat, hnone⟩
        cases before with
        | nil =>
            rw [List.isEmpty_nil, Bool.and_true] at hat
            rw [List.nil_append, hat] at hmatch
            rw [Option.some.inj hmatch]
        | cons c before =>
            obtain ⟨hfirst, -⟩ := noneSooner_cons_iff.1 hnone
            rw [List.cons_append, hfirst] at hmatch
            cases hmatch
  | case2 start hmatch =>
      refine ⟨fun h => (by cases h), ?_⟩
      rintro ⟨rest, hs, hat, -⟩
      obtain ⟨rfl, rfl⟩ := List.append_eq_nil_iff.1 hs.symm
      rw [List.isEmpty_nil, Bool.and_true, hmatch] at hat
      cases hat
  | case3 start c s hmatch ih =>
      rw [Option.map_eq_some_iff]
      constructor
      · rintro ⟨⟨before, r⟩, h, hpair⟩
        cases hpair
        obtain ⟨rest, rfl, hat, hnone⟩ := ih.1 h
        exact ⟨rest, rfl, by simpa using hat, noneSooner_cons_iff.2 ⟨hmatch, hnone⟩⟩
      · rintro ⟨rest, hs, hat, hnone⟩
        cases before with
        | nil =>
            rw [List.isEmpty_nil, Bool.and_true, ← List.nil_append rest, ← hs, hmatch] at hat
            cases hat
        | cons d before =>
            obtain ⟨rfl, rfl⟩ := List.cons.inj hs
            obtain ⟨-, hlater⟩ := noneSooner_cons_iff.1 hnone
            exact ⟨(before, r), ih.2 ⟨rest, rfl, by simpa using hat, hlater⟩, rfl⟩

/-- A pattern with a reading at some place of a text has a match in it. -/
theorem matchFrom?_ne_none {front back : Text}
    (h : p.readings (start && front.isEmpty) back ≠ []) :
    p.matchFrom? start (front ++ back) ≠ none := by
  induction front generalizing start with
  | nil =>
      obtain ⟨r, later, hreadings⟩ := List.exists_cons_of_ne_nil h
      rw [List.isEmpty_nil, Bool.and_true] at hreadings
      rw [List.nil_append, matchFrom?.eq_def, matchAt?, hreadings]
      exact Option.some_ne_none _
  | cons c front ih =>
      have hlater : p.matchFrom? false (front ++ back) ≠ none := ih (by simpa using h)
      rw [List.cons_append, matchFrom?.eq_def]
      split
      · exact Option.some_ne_none _
      · rwa [ne_eq, Option.map_eq_none_iff]

end Pattern

namespace Token

open Pattern

variable {start : Bool} {s : Text} {l : Lexeme} {kind : Kind}

/-- What a recogniser finds is what the pattern of its kind prefers. -/
theorem Kind.prefers_of_lexeme? (h : kind.lexeme? start s = some l) : kind.Prefers start l := by
  cases kind with
  | pageBreak => exact prefers_pageBreak h
  | title =>
      cases start with
      | true => exact prefers_heading .title .fewest (.inr rfl) h
      | false => cases h
  | subtitle =>
      cases start with
      | true => exact prefers_heading .subtitle .some (.inl rfl) h
      | false => cases h
  | minorTitle =>
      cases start with
      | true => exact prefers_heading .minorTitle .some (.inl rfl) h
      | false => cases h
  | listItem =>
      cases start with
      | true => exact prefers_listItem h
      | false => cases h
  | literalBlock => exact prefers_literalBlock h
  | tableStart => exact prefers_tableStart h
  | image => exact prefers_image h
  | newline => exact prefers_newline h

/-- A recogniser agrees with the pattern of its kind. -/
theorem Kind.lexeme?_eq (kind : Kind) (start : Bool) (s : Text) :
    kind.lexeme? start s =
      (kind.pattern.matchAt? start s).map fun r => ⟨kind.tokenOf r, r.taken, r.rest⟩ := by
  cases h : kind.lexeme? start s with
  | some l =>
      obtain ⟨groups, hmatch, htoken⟩ := Kind.prefers_of_lexeme? h
      rw [(Kind.lexeme?_begins h).1] at hmatch
      rw [hmatch, Option.map_some, ← htoken]
  | none =>
      have hnone : kind.pattern.readings start s = [] := by
        rw [List.eq_nil_iff_forall_not_mem]
        exact fun r hr => Kind.lexeme?_of_leadsTo ⟨r, hr, rfl⟩ h
      rw [matchAt?, hnone]
      rfl

theorem Kind.readings_eq_nil_iff :
    kind.pattern.readings start s = [] ↔ kind.lexeme? start s = none := by
  rw [Kind.lexeme?_eq, Option.map_eq_none_iff, matchAt?, List.head?_eq_none_iff]

theorem Kind.mem_of_priority_lt {sooner later : List Kind} {kind other : Kind}
    (hall : Kind.all = sooner ++ kind :: later) (hlt : other.priority < kind.priority) :
    other ∈ sooner := by
  by_contra hnot
  have hkind : kind.priority ≤ sooner.length := by
    by_cases hmem : kind ∈ sooner
    · rw [priority, hall, List.idxOf_append_of_mem hmem]
      exact Nat.le_of_lt (List.idxOf_lt_length_of_mem hmem)
    · rw [priority, hall, List.idxOf_append_of_notMem hmem, List.idxOf_cons_self, Nat.add_zero]
  rw [priority, hall, List.idxOf_append_of_notMem hnot] at hlt
  exact absurd (hlt.trans_le hkind) (Nat.not_lt.2 (Nat.le_add_right ..))

/-- A text begins with a token of the first kind that has one there. -/
theorem first_of_lexeme? (h : lexeme? start s = some l) :
    ∃ kind : Kind, kind.lexeme? start s = some l ∧
      ∀ other : Kind, other.priority < kind.priority → other.lexeme? start s = none := by
  obtain ⟨sooner, kind, later, hall, hkind, hnone⟩ := List.findSome?_eq_some_iff.1 h
  exact ⟨kind, hkind, fun other hlt => hnone other (Kind.mem_of_priority_lt hall hlt)⟩

theorem lexeme?_of_first (hkind : kind.lexeme? start s = some l)
    (hprior : ∀ other : Kind, other.priority < kind.priority → other.lexeme? start s = none) :
    lexeme? start s = some l := by
  obtain ⟨l', h⟩ : ∃ l', lexeme? start s = some l' := by
    rw [← Option.ne_none_iff_exists']
    intro hnone
    rw [lexeme?_eq_none_iff.1 hnone kind] at hkind
    cases hkind
  obtain ⟨kind', hkind', hprior'⟩ := first_of_lexeme? h
  have hle : kind'.priority ≤ kind.priority := by
    by_contra hlt
    rw [hprior' kind (Nat.lt_of_not_le hlt)] at hkind
    cases hkind
  have hge : kind.priority ≤ kind'.priority := by
    by_contra hlt
    rw [hprior kind' (Nat.lt_of_not_le hlt)] at hkind'
    cases hkind'
  obtain rfl := Kind.priority_injective (Nat.le_antisymm hle hge)
  rw [h, ← hkind', hkind]

/-- How a token of a text comes about: `r` is the first match of the pattern of its kind, no pattern
matches sooner, and where the token starts no pattern of a kind with a higher priority matches. -/
structure Wins (s : Text) (m : Match) (kind : Kind) (r : Reading) : Prop where
  match_eq : kind.pattern.match? s = some (m.before, r)
  lexeme_eq : m.toLexeme = ⟨kind.tokenOf r, r.taken, r.rest⟩
  none_sooner : ∀ (other : Kind) (front back : Text), s = front ++ back →
    front.byteSize < m.start → other.pattern.readings front.isEmpty back = []
  none_prior : ∀ other : Kind, other.priority < kind.priority →
    other.pattern.readings m.before.isEmpty (m.taken ++ m.after) = []
  whole_eq : m.whole = s
  start_lt_stop : m.start < m.stop
  stop_le : m.stop ≤ s.byteSize
  boundary_start : s.IsBoundary m.start
  boundary_stop : s.IsBoundary m.stop

theorem place_of_findFrom? {passed s : Text} {m : Match} (h : findFrom? passed s = some m) :
    ∃ front, m.before = passed.reverse ++ front ∧
      lexeme? (passed ++ front).isEmpty (m.taken ++ m.after) = some m.toLexeme := by
  fun_induction findFrom? passed s with
  | case1 passed s l hl =>
      cases h
      refine ⟨[], (List.append_nil _).symm, ?_⟩
      rw [List.append_nil, (lexeme?_begins hl).1]
      exact hl
  | case2 => cases h
  | case3 passed c s hnone ih =>
      obtain ⟨front, hbefore, hplace⟩ := ih h
      refine ⟨c :: front, by simp [hbefore], ?_⟩
      rwa [List.isEmpty_eq_false_iff.2 (by simp)] at hplace ⊢

theorem lexeme?_of_match {m : Match} (h : find? s = some m) :
    lexeme? m.before.isEmpty (m.taken ++ m.after) = some m.toLexeme := by
  obtain ⟨front, hbefore, hplace⟩ := place_of_findFrom? h
  rwa [hbefore]

theorem wins_of_find? {m : Match} (h : find? s = some m) : ∃ kind r, Wins s m kind r := by
  obtain ⟨kind, hkind, hprior⟩ := first_of_lexeme? (lexeme?_of_match h)
  obtain ⟨front, hbefore, hs, hsooner⟩ := lexeme?_before h
  obtain rfl : m.before = front := hbefore
  have hwhole : m.before ++ m.taken ++ m.after = s := whole_of_find? h
  have hnone : ∀ (other : Kind) (front more : Text), m.before = front ++ more → more ≠ [] →
      other.pattern.readings front.isEmpty (more ++ (m.taken ++ m.after)) = [] :=
    fun other front more hsplit hne =>
      Kind.readings_eq_nil_iff.2 (lexeme?_eq_none_iff.1 (hsooner front more hsplit hne) other)
  rw [Kind.lexeme?_eq] at hkind
  obtain ⟨r, hat, hlexeme⟩ := Option.map_eq_some_iff.1 hkind
  have hsize : s.byteSize = m.stop + m.after.byteSize := by
    rw [← hwhole, byteSize_append, byteSize_append]
    rfl
  refine ⟨kind, r, ?_⟩
  exact {
    match_eq := matchFrom?_eq_some_iff.2 ⟨_, hs, hat, hnone kind⟩
    lexeme_eq := hlexeme.symm
    none_sooner := fun other front back hfront hlt => by
      obtain ⟨more, hmore⟩ := exists_append_of_byteSize_le (hfront.symm.trans hs) hlt.le
      have hne : more ≠ [] := by
        intro hnil
        rw [Match.start, hmore, hnil, List.append_nil] at hlt
        exact Nat.lt_irrefl _ hlt
      rw [hs, hmore, List.append_assoc] at hfront
      rw [← List.append_cancel_left hfront]
      exact hnone other front more hmore hne
    none_prior := fun other hlt => Kind.readings_eq_nil_iff.2 (hprior other hlt)
    whole_eq := hwhole
    start_lt_stop := by
      have hne : m.taken ≠ [] := by
        intro hnil
        have hpos := taken_substance_pos h
        rw [hnil] at hpos
        exact Nat.lt_irrefl _ hpos
      exact Nat.lt_add_of_pos_right (byteSize_pos hne)
    stop_le := hsize ▸ Nat.le_add_right ..
    boundary_start := ⟨m.before, ⟨_, hs.symm⟩, rfl⟩
    boundary_stop := ⟨m.before ++ m.taken, ⟨_, hwhole⟩, byteSize_append ..⟩ }

namespace Wins

variable {m m' : Match} {kind' : Kind} {r r' : Reading}

theorem matchAt?_eq (h : Wins s m kind r) :
    kind.pattern.matchAt? m.before.isEmpty (m.taken ++ m.after) = some r := by
  obtain ⟨rest, hs, hat, -⟩ := matchFrom?_eq_some_iff.1 h.match_eq
  have hwhole : m.before ++ (m.taken ++ m.after) = s := by
    rw [← List.append_assoc]
    exact h.whole_eq
  rw [List.append_cancel_left (hwhole.trans hs)]
  exact hat

theorem start_le (h : Wins s m kind r) (h' : Wins s m' kind' r') : m.start ≤ m'.start := by
  by_contra hlt
  have hnone := h.none_sooner kind' m'.before (m'.taken ++ m'.after)
    (by rw [← h'.whole_eq, Match.whole, List.append_assoc]) (Nat.lt_of_not_le hlt)
  have hat := h'.matchAt?_eq
  rw [matchAt?, hnone] at hat
  cases hat

theorem priority_le (h : Wins s m kind r) (h' : Wins s m' kind' r') (hbefore : m.before = m'.before)
    (hrest : m.taken ++ m.after = m'.taken ++ m'.after) : kind.priority ≤ kind'.priority := by
  by_contra hlt
  have hnone := h.none_prior kind' (Nat.lt_of_not_le hlt)
  have hat := h'.matchAt?_eq
  rw [← hbefore, ← hrest, matchAt?, hnone] at hat
  cases hat

/-- No more than one token wins. -/
theorem unique (h : Wins s m kind r) (h' : Wins s m' kind' r') : m = m' := by
  have hstart := Nat.le_antisymm (h.start_le h') (h'.start_le h)
  have hwhole := h.whole_eq.trans h'.whole_eq.symm
  simp only [Match.whole, List.append_assoc] at hwhole
  have hbefore := front_eq_of_byteSize_eq hwhole hstart
  have hrest : m.taken ++ m.after = m'.taken ++ m'.after := by
    rw [hbefore] at hwhole
    exact List.append_cancel_left hwhole
  obtain rfl := Kind.priority_injective
    (Nat.le_antisymm (h.priority_le h' hbefore hrest) (h'.priority_le h hbefore.symm hrest.symm))
  obtain rfl : r = r' := (Prod.mk.inj (Option.some.inj (h.match_eq.symm.trans h'.match_eq))).2
  obtain ⟨lexeme, before⟩ := m
  obtain ⟨lexeme', before'⟩ := m'
  obtain rfl : lexeme = lexeme' := h.lexeme_eq.trans h'.lexeme_eq.symm
  obtain rfl : before = before' := hbefore
  rfl

end Wins

theorem find?_eq_none_iff_readings :
    find? s = none ↔ ∀ (kind : Kind) (front back : Text), s = front ++ back →
      kind.pattern.readings front.isEmpty back = [] := by
  simp only [find?_eq_none_iff, lexeme?_eq_none_iff, Kind.readings_eq_nil_iff]
  exact ⟨fun h kind front back hs => h front back hs kind,
    fun h front back hs kind => h kind front back hs⟩

theorem find?_of_wins {m : Match} {r : Reading} (h : Wins s m kind r) : find? s = some m := by
  cases hfind : find? s with
  | none =>
      have hat := h.matchAt?_eq
      rw [matchAt?, find?_eq_none_iff_readings.1 hfind kind m.before (m.taken ++ m.after)
        (by rw [← h.whole_eq, Match.whole, List.append_assoc])] at hat
      cases hat
  | some m' =>
      obtain ⟨kind', r', h'⟩ := wins_of_find? hfind
      rw [h.unique h']

/-- The token of a text is the first match of one pattern, the leftmost of all and of the kind with
the highest priority there; and there is one as soon as some pattern matches. -/
theorem find?_arbitrates (s : Text) :
    (find? s = none ↔ ∀ (kind : Kind) (front back : Text), s = front ++ back →
      kind.pattern.readings front.isEmpty back = []) ∧
    ∀ m, find? s = some m ↔ ∃ kind r, Wins s m kind r :=
  ⟨find?_eq_none_iff_readings, fun _ => ⟨wins_of_find?, fun ⟨_, _, h⟩ => find?_of_wins h⟩⟩

end Token
end WikiDocs

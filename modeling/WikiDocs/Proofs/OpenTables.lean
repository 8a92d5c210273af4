import Mathlib.Data.List.Induction
import WikiDocs.Proofs.LastLine
import WikiDocs.Proofs.TableLine

/-!
Tables that are opened. A table is read up to the first line that closes it,
and what follows its end stays pending. If no line closes it, the run fails with
the number of the line on which the table was opened, and nothing of it is
written.
-/

namespace WikiDocs

open Text

namespace Line

/-- The pieces of a text in UTF-8 are in UTF-8 themselves. -/
theorem strict?_of_mem_pieces (text : Text) {piece : List UInt8}
    (h : piece ∈ pieces (Utf8.encode text).data.toList) : ∃ line, Utf8.strict? piece = some line := by
  by_cases hbreak : '\n' ∈ text
  · obtain ⟨front, rest, rfl, hfront⟩ := List.eq_append_cons_of_mem hbreak
    have hcut : (Utf8.encode (front ++ '\n' :: rest)).data.toList =
        (Utf8.encode front).data.toList ++ lineFeed :: (Utf8.encode rest).data.toList := by
      rw [Utf8.toList_encode_append]
      exact congrArg _ (Utf8.toList_encode_append ['\n'] rest)
    rw [hcut, pieces_lineFeed (Utf8.lineFeed_not_mem_encode hfront)] at h
    obtain rfl | h := List.mem_cons.1 h
    · refine ⟨front ++ ['\n'], ?_⟩
      have hread := Utf8.strict?_encode (front ++ ['\n'])
      rwa [Utf8.toList_encode_append] at hread
    · exact strict?_of_mem_pieces rest h
  · by_cases hempty : (Utf8.encode text).data.toList = []
    · rw [hempty, pieces_nil] at h
      cases h
    · rw [pieces_of_not_mem hempty (Utf8.lineFeed_not_mem_encode hbreak)] at h
      rw [List.mem_singleton.1 h]
      exact ⟨text, Utf8.strict?_encode text⟩
termination_by text.length
decreasing_by
  have hlength := congrArg List.length ‹text = front ++ '\n' :: rest›
  rw [List.length_append, List.length_cons] at hlength
  omega

/-- Every line of an input in UTF-8 can be read. -/
theorem exists_lines {input : List UInt8} {text : Text} (h : Utf8.strict? input = some text)
    (expand : Bool) : ∃ lines : List Text, (pieces input).map (ofPiece expand) = lines.map .ok := by
  have hread : ∀ piece ∈ pieces input, ∃ line, ofPiece expand piece = .ok line := by
    intro piece hpiece
    rw [← Utf8.toList_encode_of_strict? h] at hpiece
    obtain ⟨line, hline⟩ := strict?_of_mem_pieces text hpiece
    exact ⟨normalize expand (dropTerminator line), by rw [ofPiece, hline]⟩
  generalize pieces input = pieces at hread
  induction pieces with
  | nil => exact ⟨[], rfl⟩
  | cons piece pieces ih =>
      rw [List.forall_mem_cons] at hread
      obtain ⟨⟨line, hline⟩, hrest⟩ := hread
      obtain ⟨lines, hlines⟩ := ih hrest
      exact ⟨line :: lines, by rw [List.map_cons, List.map_cons, hline, hlines]⟩

end Line

namespace Conversion

open Token

variable {imageDirectory : Text}

/-- What a conversion does from a point on, and where it ends. -/
def remainder (imageDirectory : Text) (course : Course) : List Event × State :=
  let drained := resume imageDirectory course.state.lineNumber ([], course.state.pending)
  let later := feedAll imageDirectory ⟨course.state.lineNumber, drained.2⟩ course.unread
  (drained.1 ++ later.1, later.2)

theorem resume_eq (line : Nat) (events : List Event) (pending : Pending) :
    resume imageDirectory line (events, pending) =
      (events ++ (resume imageDirectory line ([], pending)).1,
        (resume imageDirectory line ([], pending)).2) := by
  cases pending with
  | nothing | table _ _ _ => rw [resume, resume, List.append_nil] <;> exact fun _ => Pending.noConfusion
  | text buffer => rfl

theorem resume_token {line : Nat} {buffer : Text} {m : Match} (found : find? buffer = some m) :
    resume imageDirectory line ([], .text buffer) =
      resume imageDirectory line
        (.token m :: (handle imageDirectory line m).1, (handle imageDirectory line m).2) := by
  cases hh : (handle imageDirectory line m).2 with
  | text rest =>
      simp only [resume, drain_some found hh]
      rfl
  | nothing | table _ _ _ =>
      have hne : ∀ rest, (handle imageDirectory line m).2 ≠ .text rest := by
        intro rest
        rw [hh]
        exact Pending.noConfusion
      simp only [resume, drain_some_of_ne found hne, hh]
      rfl

theorem remainder_read {number : Nat} {pending pending' : Pending} {line : Text}
    {unread : List Text} {events : List Event}
    (hquiet : resume imageDirectory number ([], pending) = ([], pending))
    (hattach : attach imageDirectory line (number + 1) pending =
      resume imageDirectory (number + 1) (events, pending')) :
    remainder imageDirectory ⟨⟨number, pending⟩, line :: unread⟩ =
      (events ++ (remainder imageDirectory ⟨⟨number + 1, pending'⟩, unread⟩).1,
        (remainder imageDirectory ⟨⟨number + 1, pending'⟩, unread⟩).2) := by
  simp only [remainder, hquiet, feedAll, feed, hattach, List.nil_append]
  rw [resume_eq _ events]
  simp only [List.append_assoc]

/-- A turn takes its events off what the conversion does from then on. -/
theorem Turn.remainder_eq {first last : Course} {events : List Event}
    (h : Turn imageDirectory first events last) :
    remainder imageDirectory first =
      (events ++ (remainder imageDirectory last).1, (remainder imageDirectory last).2) := by
  cases h with
  | token found =>
      simp only [remainder, resume_token found]
      rw [resume_eq]
      simp only [List.append_assoc]
  | start | extend => exact remainder_read rfl rfl
  | join empty => exact remainder_read (by simp only [resume, drain_none empty, List.nil_append]) rfl

theorem Turns.remainder_eq {first last : Course} {count : Nat} {events : List Event}
    (h : Turns imageDirectory first count events last) :
    remainder imageDirectory first =
      (events ++ (remainder imageDirectory last).1, (remainder imageDirectory last).2) := by
  induction h with
  | none => rfl
  | more _ turn ih => rw [ih, turn.remainder_eq, List.append_assoc]

theorem remainder_start (lines : List Text) :
    remainder imageDirectory ⟨{}, lines⟩ = feedAll imageDirectory {} lines := rfl

/-- The outline of an input of which every line can be read. -/
theorem outline_of_lines {options : Options} {pieces : List (List UInt8)} {lines : List Text}
    (h : pieces.map (Line.ofPiece options.expandEscapes) = lines.map .ok) (state : State) :
    let read := feedAll options.imageDirectory.toList state lines
    outline options state pieces =
      (read.1 ++ (finish read.2).toOption.getD [], (finish read.2).map fun _ => ()) := by
  induction pieces generalizing lines state with
  | nil =>
      cases List.map_eq_nil_iff.1 h.symm
      cases hf : finish state with
      | error e =>
          rw [outline_nil_error hf]
          simp [feedAll, hf, Except.toOption, Except.map]
      | ok events =>
          rw [outline_nil_ok hf]
          simp [feedAll, hf, Except.toOption, Except.map]
  | cons piece pieces ih =>
      cases lines with
      | nil => cases h
      | cons line lines =>
          rw [List.map_cons, List.map_cons, List.cons.injEq] at h
          rw [outline_cons_ok h.1, ih h.2]
          simp only [feedAll, List.append_assoc]

end Conversion

/-- What is cut off ends in the first occurrence of the mark. -/
theorem Text.not_infix_of_cutAfter {mark s upTo rest : Text} (hne : mark ≠ [])
    (h : cutAfter mark s = some (upTo, rest)) : ¬ mark <:+: upTo.dropLast := by
  fun_induction cutAfter mark s generalizing upTo with
  | case1 s rest' hlead =>
      cases h
      intro hinfix
      have hlength := hinfix.length_le
      have hpos := List.length_pos_iff.2 hne
      rw [List.length_dropLast] at hlength
      omega
  | case2 => cases h
  | case3 c s hlead ih =>
      obtain ⟨⟨upTo, rest⟩, hcut, heq⟩ := Option.map_eq_some_iff.1 h
      cases heq
      have hupTo : upTo ≠ [] := by
        rintro rfl
        exact hne (List.suffix_nil.1 (mark_suffix_of_cutAfter hcut))
      rw [List.dropLast_cons_of_ne_nil hupTo, List.infix_cons_iff]
      rintro (hhead | hinfix)
      · have hs : mark <+: c :: s := by
          refine hhead.trans (List.cons_prefix_cons.2 ⟨rfl, ?_⟩)
          rw [← append_of_cutAfter hcut]
          exact (List.dropLast_prefix upTo).trans (List.prefix_append upTo rest)
        obtain ⟨after, hafter⟩ := hs
        rw [dropLead_eq_some_iff.2 hafter.symm] at hlead
        cases hlead
      · exact ih hcut hinfix

namespace Token

theorem space_not_mem_tableEnd : ' ' ∉ tableEnd := by decide

/-- The text of a table, from its opener to the last of the lines that were read for it. -/
def Match.gathered (m : Match) (read : List Text) : Text :=
  m.taken ++ m.after ++ read.flatMap (' ' :: ·)

theorem Match.gathered_concat (m : Match) (read : List Text) (line : Text) :
    m.gathered (read ++ [line]) = m.gathered read ++ ' ' :: line := by
  rw [gathered, gathered, List.flatMap_append, List.flatMap_singleton, ← List.append_assoc]

/-- No end of a table reaches over the space between two lines. -/
theorem Match.infix_gathered_iff {m : Match} {read : List Text} :
    tableEnd <:+: m.gathered read ↔
      tableEnd <:+: m.taken ++ m.after ∨ ∃ line ∈ read, tableEnd <:+: line := by
  induction read using List.reverseRecOn with
  | nil => simp [gathered]
  | append_singleton read line ih =>
      rw [gathered_concat]
      constructor
      · intro h
        obtain h | h := infix_or_infix space_not_mem_tableEnd h
        · refine (ih.1 h).imp_right ?_
          rintro ⟨other, hmem, hother⟩
          exact ⟨other, List.mem_append_left _ hmem, hother⟩
        · exact .inr ⟨line, by simp, h⟩
      · rintro (h | ⟨other, hmem, h⟩)
        · exact (ih.2 (.inl h)).trans (List.prefix_append ..).isInfix
        · obtain hmem | hmem := List.mem_append.1 hmem
          · exact (ih.2 (.inr ⟨other, hmem, h⟩)).trans (List.prefix_append ..).isInfix
          · rw [List.mem_singleton.1 hmem] at h
            exact (h.trans (List.suffix_cons ' ' line).isInfix).trans
              (List.suffix_append ..).isInfix

end Token

namespace Conversion

open Token

variable {imageDirectory : Text} {number : Nat} {buffer : Text} {m : Match}

theorem handle_tableStart (htable : m.token = .tableStart) :
    handle imageDirectory number m = closeTable m (m.gathered []) number := by
  rw [handle, htable, Match.gathered, List.flatMap_nil, List.append_nil]

variable (imageDirectory) (number)

/-- Lines are read for a table as long as it is not closed. -/
theorem gather_turns (found : find? buffer = some m) (htable : m.token = .tableStart)
    {read : List Text} (hopen : ¬ tableEnd <:+: m.gathered read) (rest : List Text) :
    Turns imageDirectory ⟨⟨number, .text buffer⟩, read ++ rest⟩ (read.length + 1)
      (.token m :: read.map (.read [' ']))
      ⟨⟨number + read.length, .table m (m.gathered read) number⟩, rest⟩ := by
  induction read using List.reverseRecOn generalizing rest with
  | nil =>
      have turn : Turn imageDirectory ⟨⟨number, .text buffer⟩, rest⟩ _ _ := .token found
      rw [handle_tableStart htable, closeTable, cutTable?_eq_none_iff.2 hopen] at turn
      exact turn.turns
  | append_singleton read line ih =>
      have hbefore : ¬ tableEnd <:+: m.gathered read := by
        intro h
        rw [Match.gathered_concat] at hopen
        exact hopen (h.trans (List.prefix_append ..).isInfix)
      have turns := ih hbefore (line :: rest)
      have turn : Turn imageDirectory
          ⟨⟨number + read.length, .table m (m.gathered read) number⟩, line :: rest⟩ _ _ := .extend
      rw [← Match.gathered_concat, closeTable, cutTable?_eq_none_iff.2 hopen] at turn
      have more := turns.more turn
      simpa [Nat.add_assoc] using more

/-- The first line that closes a table is the last one that is read for it. -/
theorem close_turns (found : find? buffer = some m) (htable : m.token = .tableStart)
    {read : List Text} {source after : Text}
    (hcut : cutTable? (m.gathered read) = some (source, after))
    (hleast : ∀ k < read.length, ¬ tableEnd <:+: m.gathered (read.take k)) (rest : List Text) :
    Turns imageDirectory ⟨⟨number, .text buffer⟩, read ++ rest⟩ (read.length + 1)
      (.token m :: read.map (.read [' ']) ++ tableEvents m source)
      ⟨⟨number + read.length, .text after⟩, rest⟩ := by
  obtain rfl | ⟨read, line, rfl⟩ := List.eq_nil_or_concat read
  · have turn : Turn imageDirectory ⟨⟨number, .text buffer⟩, rest⟩ _ _ := .token found
    rw [handle_tableStart htable, closeTable, hcut] at turn
    exact turn.turns
  · rw [List.concat_eq_append] at hcut hleast ⊢
    have hbefore : ¬ tableEnd <:+: m.gathered read := by
      have hlast := hleast read.length (by simp)
      rwa [List.take_left] at hlast
    have turns := gather_turns imageDirectory number found htable hbefore (line :: rest)
    have turn : Turn imageDirectory
        ⟨⟨number + read.length, .table m (m.gathered read) number⟩, line :: rest⟩ _ _ := .extend
    rw [← Match.gathered_concat, closeTable, hcut] at turn
    have more := turns.more turn
    simpa [Nat.add_assoc] using more

/-- Among lines that close a table there are the fewest that do. -/
theorem exists_least {unread : List Text} (h : tableEnd <:+: m.gathered unread) :
    ∃ read rest, unread = read ++ rest ∧ tableEnd <:+: m.gathered read ∧
      ∀ k < read.length, ¬ tableEnd <:+: m.gathered (read.take k) := by
  induction unread using List.reverseRecOn with
  | nil => exact ⟨[], [], rfl, h, fun k hk => absurd hk (Nat.not_lt_zero k)⟩
  | append_singleton unread line ih =>
      by_cases hbefore : tableEnd <:+: m.gathered unread
      · obtain ⟨read, rest, rfl, hread, hleast⟩ := ih hbefore
        exact ⟨read, rest ++ [line], List.append_assoc .., hread, hleast⟩
      · refine ⟨unread ++ [line], [], (List.append_nil _).symm, h, ?_⟩
        intro k hk htake
        rw [List.length_append, List.length_singleton] at hk
        rw [List.take_append_of_le_length (by omega)] at htake
        refine hbefore (Match.infix_gathered_iff.2 ((Match.infix_gathered_iff.1 htake).imp_right ?_))
        rintro ⟨other, hmem, hother⟩
        exact ⟨other, List.mem_of_mem_take hmem, hother⟩

end Conversion

open Conversion Token

variable {σ ω : Type} [Sink σ ω]

namespace Session

/-- Events that put nothing into the documents are carried out, and only counted. -/
theorem performAll_quiet (session : Session σ ω) {events : List Event}
    (h : ∀ event ∈ events, event.isOutput = false) :
    (session.performAll events).answer = .ok () ∧
      (session.performAll events).state.registry = session.registry := by
  induction events generalizing session with
  | nil => exact ⟨rfl, rfl⟩
  | cons event events ih =>
      rw [List.forall_mem_cons] at h
      cases event with
      | openDocument _ | write _ => cases h.1
      | read _ _ | token _ | badSpan _ | table _ _ =>
          rw [performAll, Outcome.andThen_ok rfl]
          exact ih _ h.2

end Session

/-- A point of a run on some lines at which a text is pending: all events until then were carried
out. -/
structure RunPoint (sink : σ) (options : Options) (lines : List Text) where
  registry : Registry σ ω
  started : (Registry.start sink options options.title).answer = .ok registry
  count : Nat
  events : List Event
  number : Nat
  buffer : Text
  unread : List Text
  turns : Turns options.imageDirectory.toList ⟨{}, lines⟩ count events
    ⟨⟨number, .text buffer⟩, unread⟩
  carried : (Session.performAll { registry } events).answer = .ok ()

namespace RunPoint

variable {sink : σ} {options : Options} {lines : List Text}

def session (point : RunPoint sink options lines) : Session σ ω :=
  (Session.performAll { registry := point.registry } point.events).state

/-- The lines `read` are read for the table `m`, the last one closes it, and `after` stays pending. -/
structure ReadsTable (point : RunPoint sink options lines) (input : List UInt8) (m : Match)
    (read rest : List Text) (source after : Text) : Prop where
  unread_eq : point.unread = read ++ rest
  least : ∀ k < read.length, ¬ tableEnd <:+: m.gathered (read.take k)
  gathered_eq : m.gathered read = source ++ after
  ends : tableEnd <:+ source
  first : ¬ tableEnd <:+: source.dropLast
  turns : ∃ count, Turns options.imageDirectory.toList
    ⟨⟨point.number, .text point.buffer⟩, point.unread⟩ count
    (.token m :: read.map (.read [' ']) ++ tableEvents m source)
    ⟨⟨point.number + read.length, .text after⟩, rest⟩
  parsed : point.events ++ .token m :: read.map (.read [' ']) ++
    (Table.badSpans source).map .badSpan ++ [.table source (Table.ofMarkup source)] <+:
    runEvents sink options input

/-- The run reads all lines for a table, fails, and leaves the sink as it was at the point. -/
structure FailsInTable (point : RunPoint sink options lines) (input : List UInt8) (m : Match) :
    Prop where
  answer : (convert sink options input).answer = .error (.unterminatedTable point.number)
  state : (convert sink options input).state = point.session.release
  events : runEvents sink options input =
    point.events ++ .token m :: point.unread.map (.read [' '])

variable {input : List UInt8}
  (hlines : (Line.pieces input).map (Line.ofPiece options.expandEscapes) = lines.map .ok)

/-- After a point a run carries out all events that put nothing into the documents. -/
theorem performAll_quiet (point : RunPoint sink options lines) {quiet : List Event}
    (h : ∀ event ∈ quiet, event.isOutput = false) :
    let done := Session.performAll { registry := point.registry } (point.events ++ quiet)
    done.answer = .ok () ∧ done.state.registry = point.session.registry := by
  rw [Session.performAll_append, Outcome.andThen_ok point.carried]
  exact Session.performAll_quiet _ h

include hlines

/-- What a run sets out to do goes on from each of its points. -/
theorem outline_eq (point : RunPoint sink options lines) {count : Nat} {later : List Event}
    {course : Course}
    (turns : Turns options.imageDirectory.toList ⟨⟨point.number, .text point.buffer⟩, point.unread⟩
      count later course) :
    let rest := remainder options.imageDirectory.toList course
    outline options {} (Line.pieces input) =
      (point.events ++ later ++ rest.1 ++ (finish rest.2).toOption.getD [],
        (finish rest.2).map fun _ => ()) := by
  have hall := (point.turns.trans turns).remainder_eq
  rw [remainder_start] at hall
  rw [outline_of_lines hlines]
  simp only [hall]

theorem readsTable (point : RunPoint sink options lines) {m : Match}
    (found : find? point.buffer = some m) (htable : m.token = .tableStart)
    (hend : tableEnd <:+: m.gathered point.unread) :
    ∃ read rest source after, point.ReadsTable input m read rest source after := by
  obtain ⟨read, rest, hunread, hread, hleast⟩ := exists_least hend
  obtain ⟨⟨source, after⟩, hcut⟩ :=
    Option.ne_none_iff_exists'.1 (mt cutTable?_eq_none_iff.1 (not_not_intro hread))
  have turns := close_turns options.imageDirectory.toList point.number found htable hcut hleast rest
  rw [← hunread] at turns
  refine ⟨read, rest, source, after, hunread, hleast, (append_of_cutAfter hcut).symm,
    mark_suffix_of_cutAfter hcut, not_infix_of_cutAfter (by decide) hcut, ⟨_, turns⟩, ?_⟩
  have hquiet : ∀ event ∈ Event.token m :: read.map (Event.read [' ']) ++
      (Table.badSpans source).map Event.badSpan ++ [Event.table source (Table.ofMarkup source)],
      event.isOutput = false := by
    simp [or_imp, forall_and, Event.isOutput]
  obtain ⟨hanswer, -⟩ := point.performAll_quiet hquiet
  obtain ⟨later, hevents⟩ : ∃ later, (outline options {} (Line.pieces input)).1 =
      point.events ++ (Event.token m :: read.map (Event.read [' ']) ++
        (Table.badSpans source).map Event.badSpan ++
        [Event.table source (Table.ofMarkup source)]) ++ later := by
    rw [point.outline_eq hlines turns, tableEvents]
    exact ⟨_, by simp only [List.append_assoc, List.cons_append]; rfl⟩
  rw [runEvents_of_start point.started, hevents, Session.done_append hanswer]
  simp only [← List.append_assoc]
  exact List.prefix_append ..

theorem failsInTable (point : RunPoint sink options lines) {m : Match}
    (found : find? point.buffer = some m) (htable : m.token = .tableStart)
    (hopen : ¬ tableEnd <:+: m.gathered point.unread) : point.FailsInTable input m := by
  have turns := gather_turns options.imageDirectory.toList point.number found htable hopen []
  rw [List.append_nil] at turns
  have houtline : outline options {} (Line.pieces input) =
      (point.events ++ .token m :: point.unread.map (.read [' ']),
        .error (.unterminatedTable point.number)) := by
    rw [point.outline_eq hlines turns]
    simp [remainder, resume, feedAll, finish, Except.toOption, Except.map]
  have hquiet : ∀ event ∈ Event.token m :: point.unread.map (.read [' ']),
      event.isOutput = false := by
    simp [Event.isOutput]
  obtain ⟨hanswer, hregistry⟩ := point.performAll_quiet hquiet
  have hconvert := convert_eq sink options input
  rw [houtline, Outcome.andThen_ok point.started, Outcome.andThen_ok hanswer] at hconvert
  refine ⟨?_, ?_, ?_⟩
  · rw [hconvert]
    rfl
  · rw [hconvert]
    exact congrArg Registry.release hregistry
  · rw [runEvents_of_start point.started, houtline]
    exact Session.done_of_ok hanswer

end RunPoint

/-- A table that is opened in a run. Its end is looked for in what is pending from the opener on and in
the lines that are unread: if it is there, the table is read up to it, and otherwise the run fails with
the number of the line that holds the opener. -/
theorem table_read_or_reported (sink : σ) (options : Options) {input : List UInt8} {text : Text}
    (h : Text.Utf8.strict? input = some text) :
    ∃ lines : List Text,
      (Line.pieces input).map (Line.ofPiece options.expandEscapes) = lines.map .ok ∧
      ∀ (point : RunPoint sink options lines) (m : Match), find? point.buffer = some m →
        m.token = .tableStart →
        (∃ read line, LastLine options.imageDirectory.toList lines point.events
            ⟨⟨point.number, .text point.buffer⟩, point.unread⟩ read line ∧
          m.taken ++ m.after <:+ line) ∧
        (tableEnd <:+: m.taken ++ m.after ∨ (∃ line ∈ point.unread, tableEnd <:+: line) →
          ∃ read rest source after, point.ReadsTable input m read rest source after) ∧
        (¬ (tableEnd <:+: m.taken ++ m.after ∨ ∃ line ∈ point.unread, tableEnd <:+: line) →
          point.FailsInTable input m) := by
  obtain ⟨lines, hlines⟩ := Line.exists_lines h options.expandEscapes
  refine ⟨lines, hlines, ?_⟩
  intro point m found htable
  refine ⟨?_, ?_, ?_⟩
  · obtain hstart | ⟨read, line, hlast⟩ := point.turns.lastLine
    · have hpending := congrArg (fun course => course.state.pending) hstart
      cases hpending
    · exact ⟨read, line, hlast,
        hlast.opensOn _ (suffix_of_find? found) (tableStart?_of_find? found htable)⟩
  · intro hend
    exact point.readsTable hlines found htable (Match.infix_gathered_iff.2 hend)
  · intro hopen
    exact point.failsInTable hlines found htable (mt Match.infix_gathered_iff.1 hopen)

theorem second_table_reported :
    let input := "\x7b|a\n|\x7d\x7b|b".toUTF8.data.toList
    Text.Utf8.strict? input = some "\x7b|a\n|\x7d\x7b|b".toList ∧
      (convert ({} : MemoryFiles) {} input).answer = .error (.unterminatedTable 2) := by
  intro input
  have hinput := Text.Utf8.strict?_encode "\x7b|a\n|\x7d\x7b|b".toList
  rw [Text.Utf8.encode, String.ofList_toList] at hinput
  refine ⟨hinput, ?_⟩
  obtain ⟨lines, hlines, hpoints⟩ := table_read_or_reported ({} : MemoryFiles) {} hinput
  have hread : (Line.pieces "\x7b|a\n|\x7d\x7b|b".toUTF8.data.toList).map
      (Line.ofPiece (Options.expandEscapes {})) =
      [.ok ['\x7b', '|', 'a'], .ok ['|', '\x7d', '\x7b', '|', 'b']] := by decide +kernel
  rw [hlines] at hread
  obtain rfl : lines = [['\x7b', '|', 'a'], ['|', '\x7d', '\x7b', '|', 'b']] :=
    List.map_injective_iff.2 (fun _ _ => Except.ok.inj) hread
  obtain ⟨registry, hstart⟩ := started_memory {}
  have htable := find?_tableStart ['a']
  have turns : Turns "images/".toList
      ⟨{}, [['\x7b', '|', 'a'], ['|', '\x7d', '\x7b', '|', 'b']]⟩ 3 _
      ⟨⟨2, .text ['\x7b', '|', 'b']⟩, []⟩ :=
    Turn.start.turns.trans (close_turns "images/".toList 1 htable rfl
      (rfl : cutTable? (Match.gathered _ [['|', '\x7d', '\x7b', '|', 'b']]) = some (_, _))
      (by decide) [])
  have hlax : registry.options.strictLatin1 = false := by rw [Registry.options_of_start hstart]
  have hall : ∀ name, Sink.accepts ({} : MemoryFiles) name = true := fun _ => rfl
  have hcarried : ∀ events, (Session.performAll { registry } events).answer = .ok () :=
    Session.performAll_lax hlax (Registry.ready_of_start hstart) hall
  obtain ⟨-, -, hfails⟩ := hpoints ⟨registry, hstart, _, _, _, _, _, turns, hcarried _⟩ _
    (find?_tableStart ['b']) rfl
  refine (hfails ?_).answer
  rintro (hend | ⟨line, hmem, -⟩)
  · exact absurd hend (by decide)
  · cases hmem

end WikiDocs

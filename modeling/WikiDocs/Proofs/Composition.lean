import WikiDocs.Proofs.Conservation
import WikiDocs.Proofs.Directories
import WikiDocs.Proofs.Opening

/-!
Runs on inputs one after the other. After a blank line, and after a line that
opens a document, a run goes on as a new run on the rest of the input would:
the same is written in the same order, and what goes wrong goes wrong as many
lines later as stand before the rest.
-/

namespace WikiDocs

open Conversion

variable {σ ω : Type} [Sink σ ω]

/-- An input that is empty or ends with a blank line. -/
def EndsBlank (input : List UInt8) : Prop :=
  ∀ piece ∈ (Line.pieces input).getLast?, Line.IsBlank piece

/-- An input that is empty or does not begin with a blank line. -/
def BeginsFull (input : List UInt8) : Prop :=
  ∀ piece ∈ (Line.pieces input).head?, ¬ Line.IsBlank piece

/-- What a run does to its documents once the first of them is open. -/
def written (sink : σ) (options : Options) (input : List UInt8) : List Event :=
  (runEvents sink options input).filter Event.isOutput

namespace Line

theorem pieces_of_endsBlank {front : List UInt8} (h : EndsBlank front) (rest : List UInt8) :
    pieces (front ++ rest) = pieces front ++ pieces rest := by
  have hflat := flatten_pieces front
  obtain hnil | ⟨others, last, hlast⟩ := List.eq_nil_or_concat (pieces front)
  · rw [hnil] at hflat ⊢
    rw [← hflat]
    rfl
  · rw [List.concat_eq_append] at hlast
    have hblank : IsBlank last := h last (by simp [hlast])
    obtain ⟨start, hstart⟩ : ∃ start, front = start ++ [lineFeed] := by
      rw [hlast, List.flatten_append, List.flatten_singleton] at hflat
      obtain rfl | rfl := hblank
      · exact ⟨_, hflat.symm⟩
      · exact ⟨others.flatten ++ [13], by rw [← hflat, List.append_assoc]; rfl⟩
    rw [hstart]
    exact pieces_append start rest

end Line

namespace Conversion

variable {imageDirectory : Text} {options : Options}

theorem feedAll_append (state : State) (lines more : List Text) :
    feedAll imageDirectory state (lines ++ more) =
      ((feedAll imageDirectory state lines).1 ++
        (feedAll imageDirectory (feedAll imageDirectory state lines).2 more).1,
        (feedAll imageDirectory (feedAll imageDirectory state lines).2 more).2) := by
  induction lines generalizing state with
  | nil => rfl
  | cons line lines ih => simp only [List.cons_append, feedAll, ih, List.append_assoc]

theorem lineNumber_feedAll (imageDirectory : Text) (state : State) (lines : List Text) :
    (feedAll imageDirectory state lines).2.lineNumber = state.lineNumber + lines.length := by
  induction lines generalizing state with
  | nil => rfl
  | cons line lines ih =>
      simp only [feedAll, ih, feed, List.length_cons]
      omega

theorem outline_append {pieces : List (List UInt8)} {lines : List Text}
    (h : pieces.map (Line.ofPiece options.expandEscapes) = lines.map .ok) (state : State)
    (more : List (List UInt8)) :
    outline options state (pieces ++ more) =
      ((feedAll options.imageDirectory.toList state lines).1 ++
        (outline options (feedAll options.imageDirectory.toList state lines).2 more).1,
        (outline options (feedAll options.imageDirectory.toList state lines).2 more).2) := by
  induction pieces generalizing state lines with
  | nil =>
      cases List.map_eq_nil_iff.1 h.symm
      rfl
  | cons piece pieces ih =>
      cases lines with
      | nil => cases h
      | cons line lines =>
          obtain ⟨hline, hlines⟩ := List.cons.inj h
          rw [List.cons_append, outline_cons_ok hline, ih hlines]
          simp only [feedAll, List.append_assoc]

/-- After lines of which the last is blank a conversion that can end has nothing to write. -/
theorem pending_of_blank {lines : List Text} {later : List Event}
    (h : finish (feedAll imageDirectory {} (lines ++ [[]])).2 = .ok later) :
    (feedAll imageDirectory {} (lines ++ [[]])).2 = ⟨lines.length + 1, .text []⟩ ∧ later = [] := by
  obtain ⟨_, -, settled⟩ := feedAll_turns imageDirectory State.settled_start lines
  have hnumber := lineNumber_feedAll imageDirectory {} (lines ++ [[]])
  have hlast : (feedAll imageDirectory {} (lines ++ [[]])).2 =
      (feed imageDirectory (feedAll imageDirectory {} lines).2 []).2 := by
    rw [feedAll_append]
    rfl
  have hpending := feed_blank imageDirectory settled
  rw [← hlast] at hpending
  generalize (feedAll imageDirectory {} (lines ++ [[]])).2 = state at h hnumber hpending ⊢
  obtain ⟨number, pending⟩ := state
  obtain rfl | ⟨opening, source, opened, rfl⟩ := hpending
  · cases h
    have hlength : number = lines.length + 1 := by simpa using hnumber
    exact ⟨by rw [hlength], rfl⟩
  · cases h

/-- What comes after lines of which the last is blank is done as if nothing came before. -/
theorem outline_after_blank {front : List UInt8} {lines : List Text} {later : List Event}
    (hblank : EndsBlank front)
    (hlines : (Line.pieces front).map (Line.ofPiece options.expandEscapes) = lines.map .ok)
    (h : finish (feedAll options.imageDirectory.toList {} lines).2 = .ok later)
    {pieces : List (List UInt8)}
    (hfull : ∀ piece ∈ pieces.head?, Line.ofPiece options.expandEscapes piece ≠ .ok []) :
    outline options (feedAll options.imageDirectory.toList {} lines).2 pieces =
        ((outline options {} pieces).1,
          (outline options {} pieces).2.mapError (·.later lines.length)) ∧
      later = [] := by
  obtain rfl | ⟨lines, last, rfl⟩ := List.eq_nil_or_concat lines
  · cases h
    exact ⟨outline_later 0 options {} pieces, rfl⟩
  · rw [List.concat_eq_append] at hlines h ⊢
    obtain ⟨others, piece, hpieces⟩ : ∃ others piece, Line.pieces front = others ++ [piece] := by
      obtain hnil | ⟨others, piece, hpieces⟩ := List.eq_nil_or_concat (Line.pieces front)
      · rw [hnil] at hlines
        simp at hlines
      · exact ⟨others, piece, by rw [hpieces, List.concat_eq_append]⟩
    have hlast : last = [] := by
      rw [hpieces, List.map_append, List.map_append] at hlines
      obtain ⟨-, hlast⟩ := List.append_inj' hlines rfl
      rw [List.map_singleton, List.map_singleton,
        Line.ofPiece_of_isBlank (hblank piece (by simp [hpieces]))] at hlast
      cases hlast
      rfl
    subst hlast
    obtain ⟨hstate, hlater⟩ := pending_of_blank h
    rw [hstate, outline_restart hfull, List.length_append]
    exact ⟨rfl, hlater⟩

end Conversion

theorem BeginsFull.ofPiece_ne {input : List UInt8} (h : BeginsFull input) (expand : Bool) :
    ∀ piece ∈ (Line.pieces input).head?, Line.ofPiece expand piece ≠ .ok [] := by
  intro piece hpiece hread
  have hne := Line.ne_nil_of_mem_pieces (List.mem_of_mem_head? hpiece)
  exact h piece hpiece (Line.isBlank_of_ofPiece hne hread)

namespace Session

theorem conclude_error {session : Session σ ω} {ending : Except Error Unit} {e : Error}
    (h : (session.conclude ending).answer = .error e) (he : e.line?.isSome) :
    ending = .error e := by
  cases ending with
  | error e' =>
      cases h
      rfl
  | ok _ =>
      exfalso
      simp only [conclude] at h
      cases hf : session.registry.finish.answer with
      | ok documents =>
          rw [Outcome.andThen_ok hf] at h
          cases h
      | error e' =>
          rw [Outcome.andThen_error hf] at h
          cases h
          simp only [Registry.finish] at hf
          split at hf
          · cases hf
            cases he
          · cases hf

variable {accepted : String → Bool} {n : Nat}

/-- Operations that end alike come to errors about lines `n` lines apart, also in the end. -/
theorem EndAlike.answer_eq {o o' : Outcome (Session σ ω) Unit} (h : EndAlike accepted n o o')
    {ending : Except Error Unit} {e : Error} (he : e.line?.isSome)
    (hanswer : (o.andThen release fun last _ => last.conclude ending).answer = .error e) :
    (o'.andThen release fun last _ => last.conclude (ending.mapError (·.later n))).answer =
      .error (e.later n) := by
  obtain ⟨hok, hok', -⟩ | ⟨e₁, e₂, herror, herror', hlater⟩ := h
  · rw [Outcome.andThen_ok hok] at hanswer
    rw [Outcome.andThen_ok hok', conclude_error hanswer he]
    rfl
  · rw [Outcome.andThen_error herror] at hanswer
    cases hanswer
    rw [Outcome.andThen_error herror', hlater he]

variable [Sink.Steady σ]

/-- A session that has carried out events goes on as it would have without them, only later by
the lines that they read. -/
theorem alike_performAll {session : Session σ ω} (hready : session.registry.Ready accepted)
    {events : List Event} (h : (session.performAll events).answer = .ok ()) :
    Alike accepted (events.filterMap Event.line?).length session
      (session.performAll events).state := by
  have hself : Alike accepted 0 session session := ⟨hready, hready, rfl, rfl, rfl⟩
  obtain ⟨-, -, hnext⟩ | ⟨e, _, herror, -⟩ := hself.performAll events
  · refine ⟨hready, hnext.ready, ?_, ?_, ?_⟩
    · rw [performAll_options]
    · rw [performAll_options]
    · rw [performAll_tally h, Tally.lines_foldl]
  · rw [h] at herror
    cases herror

end Session

theorem answer_of_start {sink : σ} {options : Options} {registry : Registry σ ω}
    (h : (Registry.start sink options options.title).answer = .ok registry) (input : List UInt8) :
    (convert sink options input).answer =
      ((Session.performAll { registry } (outline options {} (Line.pieces input)).1).andThen
        Session.release fun last _ =>
          last.conclude (outline options {} (Line.pieces input)).2).answer := by
  rw [convert_eq, Outcome.andThen_ok h]

variable [Sink.Steady σ]

/-- Where a run on a longer input sets out to do more before it does what a run on the rest would,
it does the one and then the other. -/
theorem runEvents_append {sink : σ} {options : Options} {registry : Registry σ ω}
    (hstart : (Registry.start sink options options.title).answer = .ok registry)
    {events : List Event} (hevents : (Session.performAll { registry } events).answer = .ok ())
    {whole input : List UInt8}
    (houtline : (outline options {} (Line.pieces whole)).1 =
      events ++ (outline options {} (Line.pieces input)).1) :
    runEvents sink options whole = events ++ runEvents sink options input := by
  have halike := Session.alike_performAll (Registry.ready_of_start hstart) hevents
  rw [runEvents_of_start hstart, runEvents_of_start hstart, houtline,
    Session.done_append hevents, halike.done_eq]

/-- In the same case an error about a line comes as many lines later as were read before. -/
theorem answer_append {sink : σ} {options : Options} {registry : Registry σ ω}
    (hstart : (Registry.start sink options options.title).answer = .ok registry)
    {events : List Event} (hevents : (Session.performAll { registry } events).answer = .ok ())
    {n : Nat} (hreads : (events.filterMap Event.line?).length = n) {whole input : List UInt8}
    (houtline : outline options {} (Line.pieces whole) =
      (events ++ (outline options {} (Line.pieces input)).1,
        (outline options {} (Line.pieces input)).2.mapError (·.later n)))
    {e : Error} (he : e.line?.isSome) (h : (convert sink options input).answer = .error e) :
    (convert sink options whole).answer = .error (e.later n) := by
  subst hreads
  have halike := Session.alike_performAll (Registry.ready_of_start hstart) hevents
  rw [answer_of_start hstart] at h ⊢
  rw [houtline, Session.performAll_append, Outcome.andThen_assoc, Outcome.andThen_ok hevents]
  exact (halike.performAll _).answer_eq he h

/-- Behind a front that ends with a blank line and can be converted, an input is converted as it
is without the front. -/
theorem convert_after_blank {sink : σ} {options : Options} {front input : List UInt8}
    {summary : Summary} (hfront : EndsBlank front)
    (hok : (convert sink options front).answer = .ok summary) (hinput : BeginsFull input) :
    runEvents sink options (front ++ input) =
        runEvents sink options front ++ runEvents sink options input ∧
      ∀ e, e.line?.isSome → (convert sink options input).answer = .error e →
        (convert sink options (front ++ input)).answer =
          .error (e.later (Line.pieces front).length) := by
  obtain ⟨registry, lines, later, hstart, hlines, hfin, hrun, hall⟩ := convert_ok hok
  obtain ⟨houtline, rfl⟩ := outline_after_blank hfront hlines hfin
    (hinput.ofPiece_ne options.expandEscapes)
  rw [List.append_nil] at hrun
  rw [hrun] at hall
  obtain ⟨_, turns, -⟩ := feedAll_turns options.imageDirectory.toList State.settled_start lines
  have hreads : (feedAll options.imageDirectory.toList {} lines).1.filterMap Event.line? = lines := by
    simpa using (turns_reads turns).1
  have hlength : (Line.pieces front).length = lines.length := by
    simpa using congrArg List.length hlines
  have hwhole : outline options {} (Line.pieces (front ++ input)) =
      ((feedAll options.imageDirectory.toList {} lines).1 ++
        (outline options {} (Line.pieces input)).1,
        (outline options {} (Line.pieces input)).2.mapError (·.later lines.length)) := by
    rw [Line.pieces_of_endsBlank hfront, outline_append hlines, houtline]
  refine ⟨?_, fun e he herror => ?_⟩
  · rw [hrun]
    exact runEvents_append hstart hall (congrArg Prod.fst hwhole)
  · rw [hlength]
    exact answer_append hstart hall (congrArg List.length hreads) hwhole he herror

/-- A line that opens a document, before an input that is converted as it is without that line. -/
theorem convert_after_pageBreak {sink : σ} {options : Options} {title stamp : Text}
    (hne : title ≠ [])
    (hword : ∀ c ∈ title, Text.isWord c = true ∧ c ∉ Line.substitutions.map Prod.fst)
    (hstamp : Token.stamp? stamp = some (stamp, []))
    (haccepts : ∀ name ∈ [options.scriptName,
        (Registry.documentOf options options.title).fileName,
        (Registry.documentOf options (String.ofList title)).fileName],
      Sink.accepts sink name = true)
    {input : List UInt8} (hinput : BeginsFull input) :
    written sink options
        ((Text.Utf8.encode (title ++ ' ' :: stamp ++ ['\n'])).data.toList ++ input) =
      .openDocument title :: written sink options input := by
  simp only [List.forall_mem_cons, List.not_mem_nil, false_imp_iff, implies_true, and_true]
    at haccepts
  obtain ⟨hscript, hfirst, htitle⟩ := haccepts
  obtain ⟨registry, hstart⟩ := Registry.start_accepted options.title hscript hfirst
  have hword' : ∀ c ∈ title, Text.isWord c = true := fun c hc => (hword c hc).1
  have hready := Registry.ready_of_start hstart
  have hoptions := Registry.options_of_start hstart
  have hopen := (Registry.openDocument_accepted (String.ofList title) hready.accepts_eq
    (by rwa [hoptions])).1
  have hline := Line.ofPiece_pageBreak hword hstamp options.expandEscapes
  have hfeed := feed_pageBreak options.imageDirectory.toList hne hword' hstamp
  have houtline : (outline options {} (Line.pieces
      ((Text.Utf8.encode (title ++ ' ' :: stamp ++ ['\n'])).data.toList ++ input))).1 =
      (feed options.imageDirectory.toList {} (title ++ ' ' :: stamp)).1 ++
        (outline options {} (Line.pieces input)).1 := by
    rw [Line.pieces_pageBreak hword' hstamp, outline_cons_ok hline, hfeed,
      outline_restart (hinput.ofPiece_ne options.expandEscapes)]
  have hevents : (Session.performAll { registry }
      (feed options.imageDirectory.toList {} (title ++ ' ' :: stamp)).1).answer = .ok () := by
    simp only [hfeed, Session.performAll, Session.perform, Session.count, Session.onRegistry,
      Outcome.andThen, hopen]
  rw [written, runEvents_append hstart hevents houtline, hfeed]
  rfl

/-- The title of the first document is no part of what is written after it is open. -/
theorem written_withFirstTitle {sink : σ} {options : Options} {title : String}
    (haccepts : ∀ name ∈ [options.scriptName,
        (Registry.documentOf options options.title).fileName,
        (Registry.documentOf options title).fileName], Sink.accepts sink name = true)
    (input : List UInt8) :
    written sink (options.withFirstTitle title) input = written sink options input := by
  simp only [List.forall_mem_cons, List.not_mem_nil, false_imp_iff, implies_true, and_true]
    at haccepts
  obtain ⟨hscript, hfirst, htitle⟩ := haccepts
  obtain ⟨registry, hstart⟩ := Registry.start_accepted options.title hscript hfirst
  obtain ⟨registry', hstart'⟩ :
      ∃ registry : Registry σ ω,
        (Registry.start sink (options.withFirstTitle title) title).answer = .ok registry :=
    Registry.start_accepted title hscript htitle
  have halike : Session.Alike (Sink.accepts sink) 0 { registry } { registry := registry' } := by
    refine ⟨Registry.ready_of_start hstart, Registry.ready_of_start hstart', ?_, ?_, rfl⟩
    · simp only [Registry.options_of_start hstart, Registry.options_of_start hstart',
        Options.withFirstTitle]
    · simp only [Registry.options_of_start hstart, Registry.options_of_start hstart',
        Options.withFirstTitle]
  have houtline : outline (options.withFirstTitle title) {} (Line.pieces input) =
      outline options {} (Line.pieces input) := by
    apply outline_congr
    · rfl
    · rfl
  rw [written, written, runEvents_of_start hstart, runEvents_of_start hstart', houtline,
    halike.done_eq]

/-- A blank line, and a line that opens a document, are boundaries between runs. What stands before
the one is converted as it is alone; what stands after either of them is converted as it is alone,
with errors about lines as many lines later; and the word of the other is as good as the title of
the first document of a new run. -/
theorem runs_compose (sink : σ) (options : Options) {input : List UInt8}
    (hinput : BeginsFull input) :
    (∀ front summary, EndsBlank front → (convert sink options front).answer = .ok summary →
      written sink options (front ++ input) =
          written sink options front ++ written sink options input ∧
        ∀ e, e.line?.isSome → (convert sink options input).answer = .error e →
          (convert sink options (front ++ input)).answer =
            .error (e.later (Line.pieces front).length)) ∧
      ∀ title stamp : Text, title ≠ [] →
        (∀ c ∈ title, Text.isWord c = true ∧ c ∉ Line.substitutions.map Prod.fst) →
        Token.datePattern.Completes true stamp →
        (∀ name ∈ [options.scriptName, (Registry.documentOf options options.title).fileName,
          (Registry.documentOf options (String.ofList title)).fileName],
          Sink.accepts sink name = true) →
        written sink options
            ((Text.Utf8.encode (title ++ ' ' :: stamp ++ ['\n'])).data.toList ++ input) =
          .openDocument title :: written sink options input ∧
        written sink (options.withFirstTitle (String.ofList title)) input =
          written sink options input := by
  refine ⟨fun front summary hfront hok => ?_, fun title stamp hne hword hstamp haccepts => ?_⟩
  · obtain ⟨hevents, herror⟩ := convert_after_blank hfront hok hinput
    refine ⟨?_, herror⟩
    simp only [written, hevents, List.filter_append]
  · exact ⟨convert_after_pageBreak hne hword (Token.stamp?_of_completes hstamp) haccepts hinput,
      written_withFirstTitle haccepts input⟩

theorem runs_compose_table :
    BeginsFull "\x7b|\n".toUTF8.data.toList ∧ EndsBlank "a\n\n".toUTF8.data.toList ∧
      (convert ({} : MemoryFiles) {}
        ("a\n\n".toUTF8.data.toList ++ "\x7b|\n".toUTF8.data.toList)).answer =
        .error (.unterminatedTable 3) ∧
      written ({} : MemoryFiles) {}
          ((Text.Utf8.encode (['P'] ++ ' ' :: "20200131".toList ++ ['\n'])).data.toList ++
            "\x7b|\n".toUTF8.data.toList) =
        .openDocument ['P'] ::
          written ({} : MemoryFiles) {} "\x7b|\n".toUTF8.data.toList := by
  have hinput : BeginsFull "\x7b|\n".toUTF8.data.toList := by
    have hpieces : Line.pieces "\x7b|\n".toUTF8.data.toList = [[123, 124, 10]] := by decide +kernel
    intro piece hpiece
    rw [hpieces] at hpiece
    cases hpiece
    decide
  have hpieces : Line.pieces "a\n\n".toUTF8.data.toList = [[97, 10], [10]] := by decide +kernel
  have hblank : EndsBlank "a\n\n".toUTF8.data.toList := by
    intro piece hpiece
    rw [hpieces] at hpiece
    cases hpiece
    decide
  have hok : (convert ({} : MemoryFiles) {} "a\n\n".toUTF8.data.toList).answer =
      .ok
        { documents := [⟨"index", "index.rst", "index.html", 6⟩]
          scriptName := "make.sh"
          tally := { lines := 2, tokens := [(.newline, 2)] } } := by decide +kernel
  have herror : (convert ({} : MemoryFiles) {} "\x7b|\n".toUTF8.data.toList).answer =
      .error (.unterminatedTable 1) := by decide +kernel
  obtain ⟨hfront, hopen⟩ := runs_compose ({} : MemoryFiles) {} hinput
  have hlater := (hfront _ _ hblank hok).2 _ rfl herror
  rw [hpieces] at hlater
  refine ⟨hinput, hblank, hlater, ?_⟩
  have hword : ∀ c ∈ ['P'], Text.isWord c = true ∧ c ∉ Line.substitutions.map Prod.fst := by
    intro c hc
    cases List.mem_singleton.1 hc
    decide
  exact (hopen _ _ (by decide) hword (by decide) fun _ _ => rfl).1

end WikiDocs

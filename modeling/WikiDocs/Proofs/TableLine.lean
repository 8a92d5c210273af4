import WikiDocs.Proofs.Composition
import WikiDocs.Proofs.Documents
import WikiDocs.Proofs.TableMarkup

/-!
A table on one physical line, its line breaks written as escapes. The line is
expanded to the markup of the table, which is one token up to its end; the run
on it writes that table and nothing else.
-/

namespace WikiDocs

open Text Token

namespace Line

/-- The ways in which a physical line may end. -/
def terminators : List Text := [[], ['\n'], ['\r', '\n']]

/-- A text without escapes stays as it is, unless it ends in a backslash that is part of one. -/
theorem expandEscapes_append {lineBreak s t : Text} (hs : ¬ ['\\', 'n'] <:+: s)
    (hjoint : s.getLast? = some '\\' → t.head? ≠ some 'n') :
    expandEscapes lineBreak (s ++ t) = s ++ expandEscapes lineBreak t := by
  induction s with
  | nil => rfl
  | cons c s ih =>
      cases s with
      | nil =>
          cases t with
          | nil => rfl
          | cons d t =>
              have hno : ¬ (c = '\\' ∧ d = 'n') := fun h => hjoint (h.1 ▸ rfl) (h.2 ▸ rfl)
              rw [List.singleton_append, expandEscapes, if_neg hno]
              rfl
      | cons d s =>
          have hno : ¬ (c = '\\' ∧ d = 'n') := by
            rintro ⟨rfl, rfl⟩
            exact hs ⟨[], s, rfl⟩
          have hrest := ih (fun h => hs (List.infix_cons h)) (by simpa using hjoint)
          rw [List.cons_append, List.cons_append, expandEscapes, if_neg hno]
          exact congrArg (c :: ·) hrest

theorem expandEscapes_eq_self {lineBreak s : Text} (hs : ¬ ['\\', 'n'] <:+: s) :
    expandEscapes lineBreak s = s := by
  have h : expandEscapes lineBreak (s ++ []) = s ++ expandEscapes lineBreak [] :=
    expandEscapes_append hs nofun
  simpa [expandEscapes] using h

/-- Escapes between texts without escapes become line breaks. -/
theorem expandEscapes_intercalate {lineBreak : Text} {pieces : List Text}
    (h : ∀ piece ∈ pieces, ¬ ['\\', 'n'] <:+: piece) :
    expandEscapes lineBreak (['\\', 'n'].intercalate pieces) = lineBreak.intercalate pieces := by
  induction pieces with
  | nil => rfl
  | cons piece pieces ih =>
      rw [List.forall_mem_cons] at h
      cases pieces with
      | nil => simpa using expandEscapes_eq_self h.1
      | cons next pieces =>
          rw [List.intercalate_cons_cons, List.append_assoc,
            expandEscapes_append h.1 fun _ => by simp, List.cons_append, List.cons_append,
            List.nil_append, expandEscapes, if_pos ⟨rfl, rfl⟩, ih h.2,
            List.intercalate_cons_cons, List.append_assoc]

theorem dropTerminator_append {line ending : Text} (hbreak : '\n' ∉ line)
    (hreturn : line.getLast? ≠ some '\r') (hending : ending ∈ terminators) :
    dropTerminator (line ++ ending) = line := by
  simp only [terminators, List.mem_cons, List.not_mem_nil, or_false] at hending
  obtain rfl | rfl | rfl := hending
  · have hlast : line.getLast? ≠ some '\n' := fun h => hbreak (List.mem_of_getLast? h)
    rw [List.append_nil, dropTerminator, if_neg hlast]
  · exact dropTerminator_feed hreturn
  · exact dropTerminator_returned line

theorem ofPiece_encode {line ending : Text} (hbreak : '\n' ∉ line)
    (hreturn : line.getLast? ≠ some '\r') (hending : ending ∈ terminators) (expand : Bool) :
    ofPiece expand (Utf8.encode (line ++ ending)).data.toList = .ok (normalize expand line) := by
  rw [ofPiece, Utf8.strict?_encode]
  exact congrArg (fun line => Except.ok (normalize expand line))
    (dropTerminator_append hbreak hreturn hending)

/-- One physical line is one piece of the input. -/
theorem pieces_encode {line ending : Text} (hne : line ≠ []) (hbreak : '\n' ∉ line)
    (hending : ending ∈ terminators) :
    pieces (Utf8.encode (line ++ ending)).data.toList =
      [(Utf8.encode (line ++ ending)).data.toList] := by
  have hfeed : ∀ front : Text, '\n' ∉ front →
      pieces (Utf8.encode (front ++ ['\n'])).data.toList =
        [(Utf8.encode (front ++ ['\n'])).data.toList] := by
    intro front hfront
    rw [Utf8.toList_encode_append]
    exact (pieces_lineFeed (Utf8.lineFeed_not_mem_encode hfront)).trans (by rw [pieces_nil]; rfl)
  simp only [terminators, List.mem_cons, List.not_mem_nil, or_false] at hending
  obtain rfl | rfl | rfl := hending
  · rw [List.append_nil]
    refine pieces_of_not_mem (fun hnil => hne ?_) (Utf8.lineFeed_not_mem_encode hbreak)
    have hread := Utf8.strict?_encode line
    rw [hnil] at hread
    exact Option.some.inj (hread.symm.trans (Utf8.strict?_encode []))
  · exact hfeed line hbreak
  · have hsplit : line ++ ['\r', '\n'] = line ++ ['\r'] ++ ['\n'] := by simp
    rw [hsplit]
    exact hfeed _ (by simpa using hbreak)

end Line

namespace Text

/-- A text that ends in its only occurrence of a mark is cut at its end. -/
theorem cutAfter_append {mark front : Text} (hne : mark ≠ [])
    (h : ¬ mark <:+: (front ++ mark).dropLast) :
    cutAfter mark (front ++ mark) = some (front ++ mark, []) := by
  induction front with
  | nil =>
      have hlead : dropLead mark mark = some [] := dropLead_eq_some_iff.2 (List.append_nil mark).symm
      rw [List.nil_append, cutAfter.eq_def, hlead]
  | cons c front ih =>
      have hlonger : front ++ mark ≠ [] := by simp [hne]
      rw [List.cons_append, List.dropLast_cons_of_ne_nil hlonger] at h
      have hlead : dropLead mark (c :: (front ++ mark)) = none := by
        refine Option.eq_none_iff_forall_ne_some.2 fun rest hrest => h ?_
        have hsplit := dropLead_eq_some_iff.1 hrest
        have hrest : rest ≠ [] := by
          rintro rfl
          have hlength := congrArg List.length hsplit
          simp only [List.append_nil, List.length_cons, List.length_append] at hlength
          omega
        have hdrop := congrArg List.dropLast hsplit
        rw [List.dropLast_cons_of_ne_nil hlonger, List.dropLast_append_of_ne_nil hrest] at hdrop
        rw [hdrop]
        exact (List.prefix_append mark _).isInfix
      rw [List.cons_append, cutAfter.eq_def, hlead]
      simp only [ih fun hinfix => h (List.infix_cons hinfix), Option.map_some]

end Text

namespace Token

/-- A brace and a bar at the start of a text open a table. -/
theorem find?_tableStart (after : Text) :
    find? ('\x7b' :: '|' :: after) = some ⟨⟨.tableStart, ['\x7b', '|'], after⟩, []⟩ := by
  have hlexeme : lexeme? true ('\x7b' :: '|' :: after) =
      some ⟨.tableStart, ['\x7b', '|'], after⟩ := rfl
  rw [find?, findFrom?.eq_def]
  simp only [List.isEmpty_nil, hlexeme, List.reverse_nil]

end Token

namespace Conversion

/-- A line that is nothing but a table is taken as one token, and leaves nothing. -/
theorem feed_table (imageDirectory : Text) {after : Text}
    (h : cutTable? ('\x7b' :: '|' :: after) = some ('\x7b' :: '|' :: after, [])) :
    feed imageDirectory {} ('\x7b' :: '|' :: after) =
      (.read [] ('\x7b' :: '|' :: after) ::
        .token ⟨⟨.tableStart, ['\x7b', '|'], after⟩, []⟩ ::
          tableEvents ⟨⟨.tableStart, ['\x7b', '|'], after⟩, []⟩ ('\x7b' :: '|' :: after),
        ⟨1, .text []⟩) := by
  have hclose : handle imageDirectory 1 ⟨⟨.tableStart, ['\x7b', '|'], after⟩, []⟩ =
      (tableEvents ⟨⟨.tableStart, ['\x7b', '|'], after⟩, []⟩ ('\x7b' :: '|' :: after),
        .text []) := by
    simp only [handle, closeTable, List.cons_append, List.nil_append, h]
  simp only [feed, attach, resume, drain_some (find?_tableStart after) (congrArg Prod.snd hclose),
    hclose, drain_none find?_nil]
  rw [List.append_nil]
  rfl

end Conversion

section Lax

open Conversion

namespace Session

variable {σ ω : Type} [Sink σ ω] [Sink.Steady σ] {session : Session σ ω}
  {accepted : String → Bool}

theorem perform_lax (hlax : session.registry.options.strictLatin1 = false)
    (hready : session.registry.Ready accepted) (hall : ∀ name, accepted name = true)
    (event : Event) :
    (session.perform event).answer = .ok () ∧
      (session.perform event).state.registry.Ready accepted := by
  cases event with
  | read _ _ | token _ | badSpan _ | table _ _ => exact ⟨rfl, hready⟩
  | openDocument title =>
      exact Registry.openDocument_accepted (String.ofList title) hready.accepts_eq (hall _)
  | write line =>
      simp only [perform, write, hlax, Bool.false_eq_true, if_false]
      exact hready.writeLine line

/-- A session that is not strict, on a sink that takes every name, carries out every event. -/
theorem performAll_lax (hlax : session.registry.options.strictLatin1 = false)
    (hready : session.registry.Ready accepted) (hall : ∀ name, accepted name = true)
    (events : List Event) : (session.performAll events).answer = .ok () := by
  induction events generalizing session with
  | nil => rfl
  | cons event events ih =>
      obtain ⟨hanswer, hnext⟩ := perform_lax hlax hready hall event
      rw [performAll, Outcome.andThen_ok hanswer]
      exact ih (by rw [perform_options, hlax]) hnext

end Session

/-- In memory a session ends as it set out to. -/
theorem Session.answer_conclude (session : Session MemoryFiles MemoryFile)
    (ending : Except Error Unit) :
    (session.conclude ending).answer.map (fun _ => ()) = ending := by
  cases ending with
  | error _ => rfl
  | ok _ =>
      rw [conclude, Registry.finish_memory]
      rfl

/-- A run into memory that is not strict does all that it sets out to do. -/
theorem lax_run {options : Options} (hlax : options.strictLatin1 = false) (input : List UInt8) :
    runEvents ({} : MemoryFiles) options input = (outline options {} (Line.pieces input)).1 ∧
      (convert ({} : MemoryFiles) options input).answer.map (fun _ => ()) =
        (outline options {} (Line.pieces input)).2 := by
  obtain ⟨registry, hstart⟩ := started_memory options
  have hlax' : registry.options.strictLatin1 = false := by
    rw [Registry.options_of_start hstart, hlax]
  have hall : (Session.performAll { registry } (outline options {} (Line.pieces input)).1).answer =
      .ok () :=
    Session.performAll_lax hlax' (Registry.ready_of_start hstart) (fun _ => rfl) _
  refine ⟨(runEvents_of_start hstart input).trans (Session.done_of_ok hall), ?_⟩
  rw [answer_of_start hstart, Outcome.andThen_ok hall]
  exact Session.answer_conclude _ _

theorem runEvents_of_lax {options : Options} (hlax : options.strictLatin1 = false)
    {input : List UInt8} (h : (outline options {} (Line.pieces input)).2 = .ok ()) :
    runEvents ({} : MemoryFiles) options input = (outline options {} (Line.pieces input)).1 ∧
      ∃ summary, (convert ({} : MemoryFiles) options input).answer = .ok summary := by
  obtain ⟨hrun, hanswer⟩ := lax_run hlax input
  refine ⟨hrun, ?_⟩
  rw [h] at hanswer
  cases hconvert : (convert ({} : MemoryFiles) options input).answer with
  | error e =>
      rw [hconvert] at hanswer
      cases hanswer
  | ok summary => exact ⟨summary, rfl⟩

end Lax

namespace Table

/-- A cell whose text stays the same on one physical line, where escapes are expanded, typographic
characters are replaced, and the table ends with its first closing mark. -/
structure Cell.Inline (cell : Cell) : Prop where
  no_end : ¬ tableEnd <:+: cell.text
  no_escape : ¬ ['\\', 'n'] <:+: cell.text
  no_substitution : ∀ c ∈ cell.text, c ∉ Line.substitutions.map Prod.fst

variable {table : Table} {lines : List Text}

/-- Markup on one line begins with the brace and the bar of its frame. -/
theorem WrittenAs.exists_after (hw : table.WrittenAs lines) (separator : Text) :
    ∃ after, separator.intercalate lines = '\x7b' :: '|' :: after := by
  obtain ⟨inner, rfl, -⟩ := hw.exists_inner
  rw [List.cons_append, List.intercalate_cons_of_ne_nil (by simp)]
  exact ⟨_, rfl⟩

theorem Cell.WrittenAs.normal {cell : Cell} {line : Text} (hw : cell.WrittenAs line)
    (hinline : cell.Inline) :
    ¬ ['\\', 'n'] <:+: line ∧ ∀ c ∈ line, Line.plain c = [c] := by
  obtain ⟨lead, rfl, hlead⟩ := hw.line_eq
  refine ⟨fun hescape => ?_, fun c hc => ?_⟩
  · obtain hescape | hescape := infix_or_infix (by decide) hescape
    · exact (hlead _ (hescape.subset List.mem_cons_self)).2.2 rfl
    · exact hinline.no_escape hescape
  · rw [List.mem_append, List.mem_cons] at hc
    obtain hc | rfl | hc := hc
    · exact Line.plain_of_le (Char.le_trans (hlead c hc).2.1 (by decide))
    · exact Line.plain_of_le (by decide)
    · exact Line.plain_of_not_mem (hinline.no_substitution c hc)

/-- Markup on one line is expanded to its lines. -/
theorem WrittenAs.normalize_eq (hw : table.WrittenAs lines)
    (hinline : ∀ row ∈ table.rows, ∀ cell ∈ row.cells, cell.Inline) :
    Line.normalize true (['\\', 'n'].intercalate lines) = ['\n'].intercalate lines := by
  have hlines : ∀ line ∈ lines, ¬ ['\\', 'n'] <:+: line ∧ ∀ c ∈ line, Line.plain c = [c] := by
    refine hw.forall_mem ⟨?_, ?_, ?_⟩ fun row hrow cell hcell line hline =>
      hline.normal (hinline row hrow cell hcell)
    all_goals exact ⟨by decide, fun c hc => Line.plain_of_le (by revert c; simp)⟩
  have hbreak : Line.lineBreak (['\\', 'n'].intercalate lines) = ['\n'] := by
    obtain ⟨after, hafter⟩ := hw.exists_after ['\\', 'n']
    rw [hafter]
    rfl
  rw [Line.normalize, if_pos rfl, hbreak,
    Line.expandEscapes_intercalate fun line hline => (hlines line hline).1]
  refine Line.substitute_of_plain fun c hc => ?_
  obtain hc | ⟨line, hline, hc⟩ := mem_of_mem_intercalate hc
  · rw [List.mem_singleton.1 hc]
    exact Line.plain_of_le (by decide)
  · exact (hlines line hline).2 c hc

theorem Cell.WrittenAs.no_end {cell : Cell} {line : Text} (hw : cell.WrittenAs line)
    (hinline : cell.Inline) : ¬ tableEnd <:+: line := by
  obtain ⟨lead, rfl, hlead⟩ := hw.line_eq
  intro hend
  obtain hend | hend := infix_or_infix (by decide) hend
  · have hbrace : '\x7d' ∈ lead := hend.subset (by decide)
    exact absurd (hlead _ hbrace).2.1 (by decide)
  · exact hinline.no_end hend

/-- The markup of a table is a table up to its end. -/
theorem WrittenAs.cutTable?_eq (hw : table.WrittenAs lines)
    (hinline : ∀ row ∈ table.rows, ∀ cell ∈ row.cells, cell.Inline) :
    cutTable? (['\n'].intercalate lines) = some (['\n'].intercalate lines, []) := by
  obtain ⟨inner, rfl, hinner⟩ := hw.exists_inner
  have hne : ['\x7b', '|'] :: inner ≠ [] := List.cons_ne_nil _ _
  rw [intercalate_concat hne]
  refine cutAfter_append (by decide) fun hend => ?_
  -- Without its last brace the markup is made of lines that hold no closing mark.
  rw [List.dropLast_append_of_ne_nil (by decide)] at hend
  have hjoined : tableEnd <:+: ['\n'].intercalate ((['\x7b', '|'] :: inner) ++ [['|']]) := by
    rw [intercalate_concat hne]
    exact hend
  obtain hnil | ⟨line, hline, hend⟩ := infix_of_intercalate (by simp [tableEnd]) hjoined
  · cases hnil
  · rw [List.cons_append, List.mem_cons, List.mem_append, List.mem_singleton] at hline
    obtain rfl | hline | rfl := hline
    · exact absurd hend (by decide)
    · obtain rfl | ⟨row, hrow, cell, hcell, hcw⟩ := hinner line hline
      · exact absurd hend (by decide)
      · exact hcw.no_end (hinline row hrow cell hcell) hend
    · exact absurd hend (by decide)

/-- Markup on one physical line has neither a line break nor a carriage return at its end. -/
theorem WrittenAs.escaped (hw : table.WrittenAs lines) (h : table.Expressible) :
    '\n' ∉ ['\\', 'n'].intercalate lines ∧
      (['\\', 'n'].intercalate lines).getLast? ≠ some '\r' := by
  constructor
  · intro hbreak
    obtain hbreak | ⟨line, hline, hbreak⟩ := mem_of_mem_intercalate hbreak
    · exact absurd hbreak (by decide)
    · exact (hw.joinable h line hline).1 hbreak
  · obtain ⟨inner, rfl, -⟩ := hw.exists_inner
    rw [intercalate_concat (List.cons_ne_nil _ _), List.getLast?_append]
    rintro ⟨⟩

/-- What a physical line with the markup of a table sets out to do. -/
theorem WrittenAs.outline_eq (hw : table.WrittenAs lines) (h : table.Expressible)
    (hinline : ∀ row ∈ table.rows, ∀ cell ∈ row.cells, cell.Inline) {ending : Text}
    (hending : ending ∈ Line.terminators) {options : Options}
    (hexpand : options.expandEscapes = true) :
    ∃ quiet, (∀ event ∈ quiet, event.isOutput = false) ∧
      Conversion.outline options {} (Line.pieces
        (Utf8.encode (['\\', 'n'].intercalate lines ++ ending)).data.toList) =
      (quiet ++ table.render.map .write, .ok ()) := by
  obtain ⟨hbreak, hreturn⟩ := hw.escaped h
  have hne : ['\\', 'n'].intercalate lines ≠ [] := by
    obtain ⟨after, hafter⟩ := hw.exists_after ['\\', 'n']
    simp [hafter]
  have hread := Line.ofPiece_encode hbreak hreturn hending true
  have hcut := hw.cutTable?_eq hinline
  have htable := ofMarkup_intercalate h hw
  rw [hw.normalize_eq hinline, ← hexpand] at hread
  obtain ⟨after, hafter⟩ := hw.exists_after ['\n']
  rw [hafter] at hread hcut htable
  refine ⟨.read [] ('\x7b' :: '|' :: after) ::
    .token ⟨⟨.tableStart, ['\x7b', '|'], after⟩, []⟩ ::
      ((badSpans ('\x7b' :: '|' :: after)).map .badSpan ++
        [.table ('\x7b' :: '|' :: after) table]), ?_, ?_⟩
  · intro event hevent
    simp only [List.mem_cons, List.mem_append, List.mem_map, List.not_mem_nil, or_false] at hevent
    obtain rfl | rfl | ⟨line, -, rfl⟩ | rfl := hevent <;> rfl
  · rw [Line.pieces_encode hne hbreak hending, Conversion.outline_cons_ok hread,
      Conversion.feed_table options.imageDirectory.toList hcut, Conversion.outline_nil_ok rfl]
    simp [Conversion.tableEvents, Conversion.writeText, htable]

end Table

namespace Shelf

theorem foldl_quiet (shelf : Shelf) {events : List Event}
    (h : ∀ event ∈ events, event.isOutput = false) : events.foldl enter shelf = shelf := by
  induction events with
  | nil => rfl
  | cons event events ih =>
      rw [List.forall_mem_cons] at h
      rw [List.foldl_cons]
      cases event with
      | openDocument _ | write _ => cases h.1
      | read _ _ | token _ | badSpan _ | table _ _ => exact ih h.2

end Shelf

/-- A table is read back from its markup. The markup on one physical line, its line breaks written
as escapes, makes a run that writes the lines of the table behind the banner of the first document,
and nothing else. -/
theorem written_table_read {table : Table} {lines : List Text} (h : table.Expressible)
    (hw : table.WrittenAs lines) :
    Table.ofMarkup (['\n'].intercalate lines) = table ∧
      ((∀ row ∈ table.rows, ∀ cell ∈ row.cells, cell.Inline) →
        ∀ ending ∈ Line.terminators,
          let input := (Utf8.encode (['\\', 'n'].intercalate lines ++ ending)).data.toList
          let outcome := convert ({} : MemoryFiles) {} input
          (∃ summary, outcome.answer = .ok summary) ∧
            written ({} : MemoryFiles) {} input = table.render.map .write ∧
            outcome.state.names = ["make.sh", "index.rst"] ∧
            outcome.state.bytes? "index.rst" =
              some (Utf8.encode (unlines (Rst.banner "index".toList ++ table.render)))) := by
  refine ⟨Table.ofMarkup_intercalate h hw, fun hinline ending hending => ?_⟩
  intro input outcome
  obtain ⟨quiet, hquiet, houtline⟩ :=
    hw.outline_eq h hinline hending (rfl : Options.expandEscapes {} = true)
  have hevents : (Conversion.outline {} {} (Line.pieces input)).1 =
      quiet ++ table.render.map .write := congrArg Prod.fst houtline
  obtain ⟨hrun, summary, hok⟩ := runEvents_of_lax rfl (congrArg Prod.snd houtline)
  have hsections : sectionsOf "index" (runEvents ({} : MemoryFiles) {} input) =
      [{ title := "index", lines := table.render }] := by
    rw [hrun, hevents, sectionsOf, List.foldl_append, Shelf.foldl_quiet _ hquiet,
      Shelf.foldl_writes]
    rfl
  have hdocuments := documents_of_convert_ok hok
  rw [show Options.title {} = "index" from rfl, hsections] at hdocuments
  have hscript : ∀ document ∈ summary.documents, document.fileName ≠ Options.scriptName {} := by
    rw [hdocuments]
    rw [List.map_singleton, List.forall_mem_singleton]
    change "index.rst" ≠ "make.sh"
    decide
  have hholds := holds_of_convert_ok hok hscript
  rw [show Options.title {} = "index" from rfl, hsections] at hholds
  refine ⟨⟨summary, hok⟩, ?_, hholds.names_eq, ?_⟩
  · rw [written, hrun, hevents, List.filter_append, List.filter_eq_nil_iff.2 (by simpa using hquiet),
      List.nil_append, List.filter_eq_self.2 (writes_isOutput _)]
  · exact hholds.content_eq [] _ [] rfl (by simp)

theorem written_table_read_merged :
    let table : Table := ⟨[⟨[⟨['a'], 1⟩, ⟨['b'], 1⟩]⟩, ⟨[⟨['c', ' ', 'd'], 2⟩]⟩]⟩
    let lines := ["\x7b|".toList, "! a".toList, "| b".toList, "|-".toList,
      "| colspan='2' | c d".toList, "|\x7d".toList]
    (table.Expressible ∧ table.WrittenAs lines ∧
        ∀ row ∈ table.rows, ∀ cell ∈ row.cells, cell.Inline) ∧
      Table.ofMarkup (['\n'].intercalate lines) = table ∧
        (convert ({} : MemoryFiles) {}
          (Utf8.encode (['\\', 'n'].intercalate lines ++ ['\n'])).data.toList).state.bytes?
            "index.rst" =
          some (Utf8.encode (unlines (Rst.banner "index".toList ++ table.render))) := by
  intro table lines
  have hexpressible : table.Expressible := by
    intro row hrow
    simp only [table, List.mem_cons, List.not_mem_nil, or_false] at hrow
    obtain rfl | rfl := hrow
    · refine ⟨by decide, fun cell hcell => ?_⟩
      simp only [List.mem_cons, List.not_mem_nil, or_false] at hcell
      obtain rfl | rfl := hcell
      all_goals constructor <;> first | rfl | decide
    · refine ⟨by decide, fun cell hcell => ?_⟩
      rw [List.mem_singleton] at hcell
      subst hcell
      constructor <;> first | rfl | decide
  have hwritten : table.WrittenAs lines := by
    refine ⟨[["! a".toList, "| b".toList], ["| colspan='2' | c d".toList]], ?_, rfl⟩
    exact .cons (.cons (.plain (.inr rfl)) (.cons (.plain (.inl rfl)) .nil))
      (.cons (.cons (.spanning (by decide)) .nil) .nil)
  have hinline : ∀ row ∈ table.rows, ∀ cell ∈ row.cells, cell.Inline := by
    intro row hrow cell hcell
    simp only [table, List.mem_cons, List.not_mem_nil, or_false] at hrow
    obtain rfl | rfl := hrow <;> simp only [List.mem_cons, List.not_mem_nil, or_false] at hcell
    · obtain rfl | rfl := hcell <;> exact ⟨by decide, by decide, by simp [Line.substitutions]⟩
    · subst hcell
      exact ⟨by decide, by decide, by simp [Line.substitutions]⟩
  obtain ⟨hread, hrun⟩ := written_table_read hexpressible hwritten
  obtain ⟨-, -, -, hbytes⟩ := hrun hinline ['\n'] (by decide)
  exact ⟨⟨hexpressible, hwritten, hinline⟩, hread, hbytes⟩

end WikiDocs

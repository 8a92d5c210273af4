import WikiDocs.Proofs.Documents
import WikiDocs.Proofs.Lenient
import WikiDocs.Proofs.UnbrokenTables
import WikiDocs.Proofs.Unmarked

/-!
The line counts of the documents against the lines of their files. What is
written is one line each time, unless it is a text that a token captured over a
line break: a heading, or the label or the path of an image.
-/

namespace WikiDocs

open Conversion Text Token

/-- The line breaks that stand inside of lines. -/
def Text.breaksIn (lines : List Text) : Nat := (lines.map (List.count '\n')).sum

/-- The line breaks inside of what a token captured. -/
def Token.breaks : Token → Nat
  | .heading _ text => text.count '\n'
  | .image _ label path => label.count '\n' + path.count '\n'
  | .pageBreak _ | .listItem _ | .literalBlock | .tableStart | .newline => 0

namespace Text

theorem breaksIn_nil : breaksIn [] = 0 := rfl

theorem breaksIn_append (lines more : List Text) :
    breaksIn (lines ++ more) = breaksIn lines + breaksIn more := by
  rw [breaksIn, List.map_append, List.sum_append]
  rfl

theorem breaksIn_cons (line : Text) (lines : List Text) :
    breaksIn (line :: lines) = line.count '\n' + breaksIn lines := by
  rw [breaksIn, List.map_cons, List.sum_cons]
  rfl

theorem breaksIn_eq_zero {lines : List Text} :
    breaksIn lines = 0 ↔ ∀ line ∈ lines, '\n' ∉ line := by
  simp only [breaksIn, List.sum_eq_zero_iff, List.forall_mem_map, List.count_eq_zero]

theorem length_splitOn (c : Char) (s : Text) : (splitOn c s).length = s.count c + 1 := by
  induction s with
  | nil => rfl
  | cons d s ih =>
      rw [splitOn, List.count_cons]
      split
      · rename_i hd
        rw [List.length_cons, ih, hd, beq_self_eq_true, if_pos rfl]
      · rename_i hd
        rw [beq_false_of_ne hd, if_neg Bool.false_ne_true, Nat.add_zero, ← ih]
        split
        · rename_i hnil
          exact absurd hnil (splitOn_ne_nil c s)
        · rename_i hcons
          rw [hcons, List.length_cons, List.length_cons]

/-- An empty last piece is no line, and every other piece is one. -/
theorem length_linesOfPieces (pieces : List Text) :
    (linesOfPieces (pieces ++ [[]])).length = pieces.length := by
  induction pieces with
  | nil => rfl
  | cons piece pieces ih =>
      cases pieces with
      | nil => rfl
      | cons next more => exact congrArg (· + 1) ih

theorem splitOn_unlines (ls : List Text) :
    splitOn '\n' (unlines ls) = ls.flatMap (splitOn '\n') ++ [[]] := by
  induction ls with
  | nil => rfl
  | cons line ls ih =>
      have hcons : unlines (line :: ls) = line ++ '\n' :: unlines ls := by simp [unlines]
      rw [hcons, splitOn_append_cons, ih, List.flatMap_cons, List.append_assoc]

/-- A file has the lines that were written to it, and one more for each break inside of one. -/
theorem length_lines_unlines (ls : List Text) :
    (lines (unlines ls)).length = ls.length + breaksIn ls := by
  rw [lines, splitOn_unlines, length_linesOfPieces, List.length_flatMap]
  simp only [length_splitOn]
  induction ls with
  | nil => rfl
  | cons line ls ih =>
      rw [List.map_cons, List.sum_cons, ih, breaksIn_cons, List.length_cons]
      omega

theorem finishLine_subset (line : Text) : Rst.finishLine line ⊆ line := by
  have hdrop : Rst.dropContinuation line ⊆ line := by
    rw [Rst.dropContinuation]
    split
    · exact List.dropLast_subset line
    · exact List.Subset.refl line
  refine List.Subset.trans ?_ hdrop
  rw [Rst.finishLine, Rst.pairStars]
  split
  · exact List.eraseIdx_subset
  · exact List.Subset.refl _

end Text

namespace Token

/-- What a token holds, apart from the texts that may take a line break. -/
def Unbroken : Token → Prop
  | pageBreak title => '\n' ∉ title
  | image width _ _ => '\n' ∉ width
  | heading _ _ | listItem _ | literalBlock | tableStart | newline => True

theorem break_not_mem_takeWhile {p : Char → Bool} (hp : p '\n' = false) (s : Text) :
    '\n' ∉ s.takeWhile p := by
  intro hbreak
  rw [List.mem_takeWhile_imp hbreak] at hp
  cases hp

theorem unbroken_of_pageBreak? {s : Text} {l : Lexeme} (h : pageBreak? s = some l) :
    l.token.Unbroken := by
  unfold pageBreak? at h
  dsimp only at h
  split at h
  · cases h
  · obtain ⟨_, -, rfl⟩ := Option.map_eq_some_iff.1 h
    exact break_not_mem_takeWhile (by decide) s

theorem unbroken_of_image? {s : Text} {l : Lexeme} (h : image? s = some l) :
    l.token.Unbroken := by
  unfold image? at h
  obtain ⟨_, -, h⟩ := Option.bind_eq_some_iff.1 h
  obtain ⟨_, -, h⟩ := Option.bind_eq_some_iff.1 h
  obtain ⟨_, -, h⟩ := Option.bind_eq_some_iff.1 h
  obtain ⟨_, -, h⟩ := Option.bind_eq_some_iff.1 h
  obtain ⟨_, -, h⟩ := Option.bind_eq_some_iff.1 h
  obtain ⟨_, -, h⟩ := Option.bind_eq_some_iff.1 h
  obtain ⟨_, -, h⟩ := Option.bind_eq_some_iff.1 h
  cases h
  exact List.not_mem_append (break_not_mem_takeWhile (by decide) _) (by decide)

theorem unbroken_of_find? {s : Text} {m : Match} (h : find? s = some m) : m.token.Unbroken := by
  obtain ⟨start, hlexeme⟩ := lexeme?_of_findFrom? h
  cases hm : m.token with
  | heading _ _ | listItem _ | literalBlock | tableStart | newline => trivial
  | pageBreak title =>
      rw [hm] at hlexeme
      rw [← hm]
      exact unbroken_of_pageBreak? hlexeme
  | image width label path =>
      rw [hm] at hlexeme
      rw [← hm]
      exact unbroken_of_image? hlexeme

end Token

theorem Conversion.exists_writeText {text : Text} (h : '\n' ∉ text) :
    ∃ lines : List Text, writeText text = lines.map .write ∧ breaksIn lines = 0 := by
  rw [writeText]
  split
  · exact ⟨[], rfl, rfl⟩
  · exact ⟨[text], rfl, breaksIn_eq_zero.2 (List.forall_mem_singleton.2 h)⟩

namespace Passage

/-- A token and the text before it are written with the line breaks that the token captured and no
others, and only a page break opens a document. -/
def WritesCaptured (imageDirectory : Text) (p : Passage) : Prop :=
  ∃ lines : List Text,
    p.output imageDirectory =
      lines.map .write ++ p.found.token.pageTitle?.toList.map .openDocument ∧
    breaksIn lines = p.found.token.breaks

/-- The text before a token is written without line breaks. -/
theorem exists_lead {m : Match} (h : '\n' ∉ m.before) :
    ∃ lines : List Text, lead m = lines.map .write ∧ breaksIn lines = 0 := by
  cases hm : m.token with
  | pageBreak _ | heading _ _ | literalBlock | tableStart =>
      simp only [lead, hm]
      exact exists_writeText h
  | listItem _ => exact ⟨[], by simp only [lead, hm]; rfl, rfl⟩
  | image _ _ _ =>
      simp only [lead, hm]
      split
      · exact ⟨[], rfl, rfl⟩
      · exact ⟨[m.before], rfl, breaksIn_eq_zero.2 (List.forall_mem_singleton.2 h)⟩
  | newline =>
      simp only [lead, hm]
      refine ⟨[Rst.finishLine m.before], rfl, ?_⟩
      rw [breaksIn_eq_zero, List.forall_mem_singleton]
      exact fun hbreak => h (finishLine_subset _ hbreak)

/-- What a token itself writes has the breaks that it captured, and no others. -/
theorem exists_own {imageDirectory : Text} (hdirectory : '\n' ∉ imageDirectory) {p : Passage}
    (h : p.found.token.Unbroken) :
    ∃ lines : List Text,
      own imageDirectory p =
        lines.map .write ++ p.found.token.pageTitle?.toList.map .openDocument ∧
      breaksIn lines = p.found.token.breaks := by
  cases hp : p.found.token with
  | pageBreak title => exact ⟨[], by simp only [own, hp]; rfl, rfl⟩
  | listItem _ | newline => exact ⟨[], by simp only [own, hp]; rfl, rfl⟩
  | literalBlock => exact ⟨[[':', ':']], by simp only [own, hp]; rfl, rfl⟩
  | tableStart =>
      refine ⟨(Table.ofMarkup p.span).render, by simp [own, hp, Token.pageTitle?], ?_⟩
      exact breaksIn_eq_zero.2 (Table.break_not_mem_render (Table.unbroken_ofMarkup p.span))
  | heading level text =>
      refine ⟨Rst.heading level text, by simp [own, hp, Token.pageTitle?], ?_⟩
      have hunderline : (List.replicate text.length level.underline).count '\n' = 0 :=
        List.count_eq_zero.2 (Table.break_not_mem_replicate (by cases level <;> decide) _)
      rw [Rst.heading, breaksIn_cons, breaksIn_cons, hunderline]
      rfl
  | image width label path =>
      refine ⟨Rst.image imageDirectory path width label, by simp [own, hp, Token.pageTitle?], ?_⟩
      rw [hp] at h
      have hwidth : width.count '\n' = 0 := List.count_eq_zero.2 h
      have hpath : imageDirectory.count '\n' = 0 := List.count_eq_zero.2 hdirectory
      simp [Rst.image, breaksIn_cons, breaksIn_nil, List.count_append, hwidth, hpath, Token.breaks,
        Nat.add_comm]

theorem writesCaptured {imageDirectory : Text} (hdirectory : '\n' ∉ imageDirectory) {p : Passage}
    {s : Text} (h : find? s = some p.found) : p.WritesCaptured imageDirectory := by
  obtain ⟨front, hlead, hfront⟩ := exists_lead (unmarked_of_find? (find?_before h)).no_break
  obtain ⟨lines, hown, hlines⟩ := exists_own hdirectory (unbroken_of_find? h)
  refine ⟨front ++ lines, ?_, ?_⟩
  · rw [output, hlead, hown, List.map_append, List.append_assoc]
  · rw [breaksIn_append, hfront, hlines, Nat.zero_add]

end Passage

/-- Whether a token opens a document. -/
def Token.opensPage (m : Match) : Bool := m.token.kind == .pageBreak

/-- The line breaks inside of what some tokens captured. -/
def Token.captured (found : List Match) : Nat := (found.map (·.token.breaks)).sum

namespace Token

theorem captured_cons (m : Match) (found : List Match) :
    captured (m :: found) = m.token.breaks + captured found := by
  rw [captured, List.map_cons, List.sum_cons]
  rfl

theorem eq_of_pageTitle? {token : Token} {title : Text} (h : token.pageTitle? = some title) :
    token = .pageBreak title := by
  cases token with
  | pageBreak _ =>
      cases h
      rfl
  | heading _ _ | listItem _ | literalBlock | tableStart | image _ _ _ | newline => cases h

theorem opensPage_eq (m : Match) : opensPage m = m.token.pageTitle?.isSome :=
  (isSome_pageTitle? m.token).symm

/-- All that tokens captured is captured by those of one document or another. -/
theorem sum_captured (found : List Match) :
    ((found.splitOnP opensPage).map captured).sum = captured found := by
  induction found with
  | nil => rfl
  | cons m found ih =>
      rw [List.splitOnP_cons_eq_if_modifyHead, captured_cons, ← ih, opensPage_eq]
      cases hm : m.token.pageTitle? with
      | some title =>
          rw [Option.isSome_some, if_pos rfl, List.map_cons, List.sum_cons, eq_of_pageTitle? hm]
          rfl
      | none =>
          rw [Option.isSome_none, if_neg Bool.false_ne_true]
          obtain ⟨first, more, hsplit⟩ :=
            List.exists_cons_of_ne_nil (List.splitOnP_ne_nil opensPage found)
          simp only [hsplit, List.modifyHead_cons, List.map_cons, List.sum_cons, captured_cons,
            Nat.add_assoc]

end Token

namespace Shelf

/-- Where tokens write what they captured, and the text before them without line breaks, each
document has the breaks that were captured between its page break and the next one. -/
theorem breaks_foldl {imageDirectory rest : Text} (hrest : '\n' ∉ rest) {passages : List Passage}
    (h : ∀ p ∈ passages, p.WritesCaptured imageDirectory) (shelf : Shelf) :
    ((passages.flatMap (Passage.output imageDirectory) ++ writeText rest).foldl enter
        shelf).sections.map (breaksIn ·.lines) =
      shelf.closed.map (breaksIn ·.lines) ++
        (((passages.map Passage.found).splitOnP opensPage).map captured).modifyHead
          (breaksIn shelf.current.lines + ·) := by
  induction passages generalizing shelf with
  | nil =>
      obtain ⟨lines, hlines, hbreaks⟩ := exists_writeText hrest
      rw [List.flatMap_nil, List.nil_append, hlines, foldl_writes, sections, List.map_append]
      simp [breaksIn_append, hbreaks, captured, List.splitOnP_nil]
  | cons p passages ih =>
      obtain ⟨hp, hpassages⟩ := List.forall_mem_cons.1 h
      obtain ⟨lines, houtput, hbreaks⟩ := hp
      have hstep : (p.output imageDirectory).foldl enter shelf =
          (p.found.token.pageTitle?.toList.map Event.openDocument).foldl enter
            { shelf with
              current := { shelf.current with lines := shelf.current.lines ++ lines } } := by
        rw [houtput, List.foldl_append, foldl_writes]
      rw [List.flatMap_cons, List.append_assoc, List.foldl_append, hstep, ih hpassages,
        List.map_cons, List.splitOnP_cons_eq_if_modifyHead, opensPage_eq]
      obtain ⟨first, more, hsplit⟩ :=
        List.exists_cons_of_ne_nil (List.splitOnP_ne_nil opensPage (passages.map Passage.found))
      cases hm : p.found.token.pageTitle? with
      | some title =>
          -- A page break captures nothing: the document is closed with the breaks that it has.
          have hnone : breaksIn lines = 0 := by
            rw [hbreaks, eq_of_pageTitle? hm]
            rfl
          simp [hsplit, enter, sections, breaksIn_append, hnone, captured, breaksIn_nil]
      | none => simp [hsplit, captured_cons, breaksIn_append, hbreaks, Nat.add_assoc]

theorem mem_lines_foldl (shelf : Shelf) (events : List Event) (line : Text) :
    (∃ s ∈ (events.foldl enter shelf).sections, line ∈ s.lines) ↔
      (∃ s ∈ shelf.sections, line ∈ s.lines) ∨ .write line ∈ events := by
  induction events generalizing shelf with
  | nil => simp
  | cons event events ih =>
      rw [List.foldl_cons, ih]
      cases event with
      | read _ _ | token _ | badSpan _ | table _ _ => simp [enter]
      | openDocument title => simp [enter, sections, or_and_right, exists_or]
      | write other => simp [enter, sections, or_and_right, exists_or, or_assoc]

end Shelf

/-- A run writes no line break inside of a line exactly if no section has one. -/
theorem breaksIn_sections_iff (title : String) (events : List Event) :
    (∀ s ∈ sectionsOf title events, breaksIn s.lines = 0) ↔
      ∀ line, .write line ∈ events → '\n' ∉ line := by
  have hwritten (line : Text) :
      (∃ s ∈ sectionsOf title events, line ∈ s.lines) ↔ .write line ∈ events := by
    rw [sectionsOf, Shelf.mem_lines_foldl]
    simp [Shelf.sections]
  simp only [breaksIn_eq_zero, ← hwritten]
  constructor
  · rintro h line ⟨s, hs, hline⟩
    exact h s hs line hline
  · intro h s hs line hline
    exact h line ⟨s, hs, hline⟩

theorem Event.mem_filterMap_token? {events : List Event} {m : Match} :
    m ∈ events.filterMap token? ↔ .token m ∈ events := by
  constructor
  · intro hmem
    obtain ⟨event, hevent, htoken⟩ := List.mem_filterMap.1 hmem
    cases event with
    | token _ =>
        cases htoken
        exact hevent
    | read _ _ | badSpan _ | table _ _ | openDocument _ | write _ => cases htoken
  · exact fun hmem => List.mem_filterMap.2 ⟨_, hmem, rfl⟩

section Counts

variable {options : Options} {input : List UInt8} {summary : Summary}

/-- A run that succeeds has completed a passage for each of its tokens. It writes what these put
into the documents, in order, and then a text in which no token is found. -/
theorem passages_of_convert_ok {σ ω : Type} [Sink σ ω] {sink : σ}
    (h : (convert sink options input).answer = .ok summary) :
    (ledgerOf (runEvents sink options input)).passages.map Passage.found =
        (runEvents sink options input).filterMap Event.token? ∧
      ∃ rest : Text,
        (runEvents sink options input).filter Event.isOutput =
          (ledgerOf (runEvents sink options input)).passages.flatMap
            (Passage.output options.imageDirectory.toList) ++ writeText rest ∧
        find? rest = none := by
  obtain ⟨_, rest, -, hfree, haccount⟩ := accounted_of_convert_ok h
  exact ⟨haccount.tokens_eq, rest, haccount.output_eq, hfree⟩

theorem find?_of_runEvents {σ ω : Type} [Sink σ ω] {sink : σ} {m : Match}
    (h : m ∈ (runEvents sink options input).filterMap Event.token?) :
    ∃ s, find? s = some m :=
  Ledger.find?_of_agreesAll (agreesAll_runEvents sink options input)
    (Event.mem_filterMap_token?.1 h)

/-- Each document has the line breaks that were captured between its page break and the next. -/
theorem breaks_of_convert_ok (h : (convert ({} : MemoryFiles) options input).answer = .ok summary)
    (hdirectory : '\n' ∉ options.imageDirectory.toList) :
    (sectionsOf options.title (runEvents ({} : MemoryFiles) options input)).map (breaksIn ·.lines) =
      (((runEvents ({} : MemoryFiles) options input).filterMap Event.token?).splitOnP
        opensPage).map captured := by
  obtain ⟨hfound, rest, houtput, hrest⟩ := passages_of_convert_ok h
  generalize (ledgerOf (runEvents ({} : MemoryFiles) options input)).passages = passages
    at hfound houtput
  have hpassages : ∀ p ∈ passages, p.WritesCaptured options.imageDirectory.toList := by
    intro p hp
    have hmem := List.mem_map_of_mem (f := Passage.found) hp
    rw [hfound] at hmem
    obtain ⟨s, hs⟩ := find?_of_runEvents hmem
    exact Passage.writesCaptured hdirectory hs
  obtain ⟨first, more, hsplit⟩ :=
    List.exists_cons_of_ne_nil (List.splitOnP_ne_nil opensPage (passages.map Passage.found))
  rw [sectionsOf, Shelf.foldl_outputs, houtput, ← hfound,
    Shelf.breaks_foldl (unmarked_of_find? hrest).no_break hpassages, hsplit]
  simp [breaksIn]

/-- No line is written with a line break inside exactly if no token captured one. -/
theorem unbroken_iff_of_convert_ok
    (h : (convert ({} : MemoryFiles) options input).answer = .ok summary)
    (hdirectory : '\n' ∉ options.imageDirectory.toList) :
    let run := runEvents ({} : MemoryFiles) options input
    (∀ line, .write line ∈ run → '\n' ∉ line) ↔ ∀ m, .token m ∈ run → m.token.breaks = 0 := by
  intro run
  have hsum : ((sectionsOf options.title run).map (breaksIn ·.lines)).sum =
      captured (run.filterMap Event.token?) := by
    rw [breaks_of_convert_ok h hdirectory, sum_captured]
  rw [captured] at hsum
  calc (∀ line, .write line ∈ run → '\n' ∉ line)
      ↔ ∀ s ∈ sectionsOf options.title run, breaksIn s.lines = 0 :=
        (breaksIn_sections_iff options.title run).symm
    _ ↔ ((sectionsOf options.title run).map (breaksIn ·.lines)).sum = 0 := by
        rw [List.sum_eq_zero_iff, List.forall_mem_map]
    _ ↔ ∀ m ∈ run.filterMap Event.token?, m.token.breaks = 0 := by
        rw [hsum, List.sum_eq_zero_iff, List.forall_mem_map]
    _ ↔ ∀ m, .token m ∈ run → m.token.breaks = 0 := by
        simp only [Event.mem_filterMap_token?]

/-- No title holds a line break, if the first one does not. -/
theorem break_not_mem_title (h : (convert ({} : MemoryFiles) options input).answer = .ok summary)
    (htitle : '\n' ∉ options.title.toList) {s : Section}
    (hs : s ∈ sectionsOf options.title (runEvents ({} : MemoryFiles) options input)) :
    '\n' ∉ s.title.toList := by
  have hmem := List.mem_map_of_mem (f := Section.title) hs
  rw [titles_sectionsOf, opened_runEvents h] at hmem
  obtain heq | hmem := List.mem_cons.1 hmem
  · rwa [heq]
  · obtain ⟨title, hpage, heq⟩ := List.mem_map.1 hmem
    obtain ⟨m, hm, hpage⟩ := List.mem_filterMap.1 hpage
    obtain ⟨_, hfound⟩ := find?_of_runEvents hm
    have hunbroken := unbroken_of_find? hfound
    rw [eq_of_pageTitle? hpage] at hunbroken
    rwa [← heq, String.toList_ofList]

end Counts

theorem MemoryFiles.lines_of_bytes? {store : MemoryFiles} {name : String} {s : Text}
    (h : store.bytes? name = some (Utf8.encode s)) : store.lines name = Text.lines s := by
  rw [MemoryFiles.lines, contents?, h, Option.map_some, Utf8.lenient_encode]
  rfl

theorem breaksIn_banner {title : Text} (h : '\n' ∉ title) : breaksIn (Rst.banner title) = 0 := by
  have hrule : '\n' ∉ List.replicate title.length '#' :=
    Table.break_not_mem_replicate (by decide) _
  rw [breaksIn_eq_zero]
  simp [Rst.banner, h]

/-- The file of a section has the lines that its document counts, and one more for each line break
inside of one. -/
theorem MemoryFiles.Holds.length_lines {store : MemoryFiles} {options : Options}
    {sections : List Section} (h : store.Holds options sections)
    (hnodup : (sections.map Section.title).Nodup) {s : Section} (hs : s ∈ sections)
    (htitle : '\n' ∉ s.title.toList) :
    (store.lines (s.document options).fileName).length =
      (s.document options).lineCount + breaksIn s.lines := by
  obtain ⟨before, after, rfl⟩ := List.append_of_mem hs
  rw [List.map_append, List.map_cons, List.nodup_append] at hnodup
  have hlast : s.title ∉ after.map Section.title := (List.nodup_cons.1 hnodup.2.1).1
  have hbytes := h.content_eq before s after rfl hlast
  have hbreaks : breaksIn s.content = breaksIn s.lines := by
    rw [Section.content, breaksIn_append, breaksIn_banner htitle, Nat.zero_add]
  rw [← hbreaks]
  exact (congrArg List.length (lines_of_bytes? hbytes)).trans (length_lines_unlines s.content)

/-- After a run into memory in which no document takes the place of another one or of the build
script, the file of each document has the lines that are counted, and one more for each line break
that the tokens of that document captured. So the counts are those of the files exactly if no line
was written with a line break inside, and that is so exactly if no token captured one. -/
theorem line_counts {options : Options} {input : List UInt8} {summary : Summary}
    (h : (convert ({} : MemoryFiles) options input).answer = .ok summary)
    (hscript : ∀ document ∈ summary.documents, document.fileName ≠ options.scriptName)
    (hnodup : (summary.documents.map Document.title).Nodup) (htitle : '\n' ∉ options.title.toList)
    (hdirectory : '\n' ∉ options.imageDirectory.toList) :
    let store := (convert ({} : MemoryFiles) options input).state
    let run := runEvents ({} : MemoryFiles) options input
    List.Forall₂
        (fun document found =>
          (store.lines document.fileName).length = document.lineCount + captured found)
        summary.documents ((run.filterMap Event.token?).splitOnP opensPage) ∧
      ((∀ document ∈ summary.documents,
          (store.lines document.fileName).length = document.lineCount) ↔
        ∀ line, .write line ∈ run → '\n' ∉ line) ∧
      ((∀ line, .write line ∈ run → '\n' ∉ line) ↔
        ∀ m, .token m ∈ run → m.token.breaks = 0) := by
  intro store run
  have hholds := holds_of_convert_ok h hscript
  have hsections : ((sectionsOf options.title run).map Section.title).Nodup := by
    rw [titles_sectionsOf, opened_runEvents h, ← titles_of_convert_ok h]
    exact hnodup
  have hlines : ∀ s ∈ sectionsOf options.title run,
      (store.lines (s.document options).fileName).length =
        (s.document options).lineCount + breaksIn s.lines :=
    fun s hs => hholds.length_lines hsections hs (break_not_mem_title h htitle hs)
  have hbreaks := breaks_of_convert_ok h hdirectory
  refine ⟨?_, ?_, unbroken_iff_of_convert_ok h hdirectory⟩
  · rw [← List.forall₂_eq_eq_eq, List.forall₂_map_left_iff, List.forall₂_map_right_iff] at hbreaks
    rw [documents_of_convert_ok h, List.forall₂_map_left_iff]
    refine ((List.forall₂_and_left _ _).2 ⟨hlines, hbreaks⟩).imp fun s found hs => ?_
    rw [hs.1, hs.2]
  · rw [documents_of_convert_ok h, List.forall_mem_map, ← breaksIn_sections_iff]
    refine forall₂_congr fun s hs => ?_
    rw [hlines s hs]
    exact Nat.add_eq_left

theorem line_counts_pages :
    let input := "= a\\nb =\nP 20200101\nc\n".toUTF8.data.toList
    let outcome := convert ({} : MemoryFiles) {} input
    let summary : Summary :=
      { documents := [⟨"index", "index.rst", "index.html", 7⟩, ⟨"P", "P.rst", "P.html", 5⟩]
        scriptName := "make.sh"
        tally := { lines := 3, tokens := [(.pageBreak, 1), (.minorTitle, 1)] } }
    (outcome.answer = .ok summary ∧
        (∀ document ∈ summary.documents, document.fileName ≠ "make.sh") ∧
        (summary.documents.map Document.title).Nodup) ∧
      List.Forall₂
        (fun (document : Document) (found : List Match) =>
          (outcome.state.lines document.fileName).length = document.lineCount + captured found)
        summary.documents
        (((runEvents ({} : MemoryFiles) {} input).filterMap Event.token?).splitOnP opensPage) := by
  have hok :
      (convert ({} : MemoryFiles) {} "= a\\nb =\nP 20200101\nc\n".toUTF8.data.toList).answer =
      .ok
        { documents := [⟨"index", "index.rst", "index.html", 7⟩, ⟨"P", "P.rst", "P.html", 5⟩]
          scriptName := "make.sh"
          tally := { lines := 3, tokens := [(.pageBreak, 1), (.minorTitle, 1)] } } := by
    decide +kernel
  have hcounts := line_counts hok (by decide) (by decide) (by decide) (by decide)
  exact ⟨⟨hok, by decide, by decide⟩, hcounts.1⟩

/-- A heading that reaches over an expanded line break is one line for the count of its document,
and two lines of its file. -/
theorem line_counts_broken_heading :
    let options : Options := {}
    let outcome := convert ({} : MemoryFiles) options "= foo\\nbar =\n".toUTF8.data.toList
    ∃ summary, outcome.answer = .ok summary ∧
      (∀ document ∈ summary.documents, document.fileName ≠ options.scriptName) ∧
      (summary.documents.map Document.title).Nodup ∧ '\n' ∉ options.title.toList ∧
      '\n' ∉ options.imageDirectory.toList ∧
      ¬ ∀ document ∈ summary.documents,
        (outcome.state.lines document.fileName).length = document.lineCount := by
  intro options outcome
  have hok : outcome.answer =
      .ok
        { documents := [⟨"index", "index.rst", "index.html", 7⟩]
          scriptName := "make.sh"
          tally := { lines := 1, tokens := [(.minorTitle, 1)] } } := by decide +kernel
  have hlines : (outcome.state.lines "index.rst").length = 8 := by decide +kernel
  refine ⟨_, hok, by decide, by decide, by decide, by decide, fun hall => ?_⟩
  have hcount := hall _ (List.mem_singleton_self _)
  rw [hlines] at hcount
  cases hcount

end WikiDocs

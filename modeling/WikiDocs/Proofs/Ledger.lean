import Mathlib.Data.List.Basic
import WikiDocs.Proofs.Turn

/-!
A ledger of what a conversion reads and what its tokens take. Every character
that is read is taken by one token or is pending, in the order of reading; the
only characters beside them are those of list markers, which replace the signs
that stood for them.
-/

namespace WikiDocs

open Conversion Token

/-- A character that was read, or one of a list marker. -/
structure Glyph where
  char : Char
  /-- Whether it stood on a line or between two lines. -/
  given : Bool

/-- A token with all that it took: a table took its lines up to its end. -/
structure Passage where
  found : Match
  span : Text

namespace Passage

/-- The text that is done with after a token. An item leaves its text pending. -/
def spent (p : Passage) : Text :=
  match p.found.token with
  | .listItem _ => []
  | _ => p.found.before ++ p.span

/-- How the text before a token is written. -/
def lead (m : Match) : List Event :=
  match m.token with
  | .listItem _ => []
  | .image _ _ _ => if m.before.all Text.isBlank then [] else [.write m.before]
  | .newline => [.write (Rst.finishLine m.before)]
  | .pageBreak _ | .heading _ _ | .literalBlock | .tableStart => writeText m.before

/-- What a token itself puts into the documents. -/
def own (imageDirectory : Text) (p : Passage) : List Event :=
  match p.found.token with
  | .pageBreak title => [.openDocument title]
  | .heading level text => (Rst.heading level text).map .write
  | .literalBlock => [.write [':', ':']]
  | .tableStart => (Table.ofMarkup p.span).render.map .write
  | .image width label path => (Rst.image imageDirectory path width label).map .write
  | .listItem _ | .newline => []

def output (imageDirectory : Text) (p : Passage) : List Event :=
  lead p.found ++ own imageDirectory p

/-- The table of a passage, set from the markup that its token took. -/
def table? (p : Passage) : Option Table :=
  match p.found.token with
  | .tableStart => some (Table.ofMarkup p.span)
  | _ => none

theorem isSome_table? (p : Passage) :
    p.table?.isSome = (p.found.token.kind == .tableStart) := by
  cases hp : p.found.token with
  | heading level _ =>
      simp only [table?, hp]
      cases level <;> rfl
  | pageBreak _ | listItem _ | literalBlock | tableStart | image _ _ _ | newline =>
      simp only [table?, hp]
      rfl

end Passage

structure Ledger where
  lines : List Text := []
  /-- All that was read, with the markers of list items in place of their signs. -/
  stream : List Glyph := []
  passages : List Passage := []
  /-- The table that is not closed yet. -/
  opening : Option Match := none

namespace Ledger

def text (ledger : Ledger) : Text := ledger.stream.map Glyph.char

def spent (ledger : Ledger) : Text := ledger.passages.flatMap Passage.spent

/-- The characters of the stream that a token takes where it is found. -/
def span (ledger : Ledger) (m : Match) : List Glyph :=
  (ledger.stream.drop (ledger.spent ++ m.before).length).take m.taken.length

/-- A stream with a list marker in place of the signs of an item. -/
def replace (ledger : Ledger) (m : Match) (marker : Text) : List Glyph :=
  let place := (ledger.spent ++ m.before).length
  ledger.stream.take place ++ marker.map (⟨·, false⟩) ++
    ledger.stream.drop (place + m.taken.length)

def complete (ledger : Ledger) (p : Passage) : Ledger :=
  { ledger with passages := ledger.passages ++ [p], opening := none }

def enter (ledger : Ledger) : Event → Ledger
  | .read joint line =>
      { ledger with
        lines := ledger.lines ++ [line]
        stream := ledger.stream ++ (joint ++ line).map (⟨·, true⟩) }
  | .token m =>
      match m.token with
      | .listItem depth =>
          { ledger.complete ⟨m, m.taken⟩ with stream := ledger.replace m (Rst.listMarker depth) }
      | .tableStart => { ledger with opening := some m }
      | _ => ledger.complete ⟨m, m.taken⟩
  | .table source _ =>
      match ledger.opening with
      | none => ledger
      | some m => ledger.complete ⟨m, source⟩
  | .badSpan _ | .openDocument _ | .write _ => ledger

def enterAll (ledger : Ledger) (events : List Event) : Ledger := events.foldl enter ledger

/-- An event agrees with the ledger before it: a token is found in what is not spent, a line is
joined to that by the rules, and a table is cut just after its end. -/
def Agrees (ledger : Ledger) : Event → Prop
  | .read joint line =>
      match ledger.opening with
      | some _ => joint = [' ']
      | none =>
          (ledger.lines = [] ∧ joint = []) ∨
          (ledger.lines ≠ [] ∧ ∃ rest, ledger.text = ledger.spent ++ rest ∧
            find? rest = none ∧ joint = Conversion.joint rest line)
  | .token m =>
      ledger.opening = none ∧ ∃ rest, ledger.text = ledger.spent ++ rest ∧ find? rest = some m
  | .table source table =>
      table = Table.ofMarkup source ∧ ∃ m markup after, ledger.opening = some m ∧
        ledger.text = ledger.spent ++ m.before ++ markup ∧ cutTable? markup = some (source, after)
  | .badSpan _ | .openDocument _ | .write _ => True

/-- Events that agree with the ledger one after the other. -/
def AgreesAll (ledger : Ledger) : List Event → Prop
  | [] => True
  | event :: events => ledger.Agrees event ∧ (ledger.enter event).AgreesAll events

theorem enterAll_cons (ledger : Ledger) (event : Event) (events : List Event) :
    ledger.enterAll (event :: events) = (ledger.enter event).enterAll events := rfl

theorem enterAll_append (ledger : Ledger) (events later : List Event) :
    ledger.enterAll (events ++ later) = (ledger.enterAll events).enterAll later :=
  List.foldl_append

theorem agreesAll_append {ledger : Ledger} {events later : List Event} :
    ledger.AgreesAll (events ++ later) ↔
      ledger.AgreesAll events ∧ (ledger.enterAll events).AgreesAll later := by
  induction events generalizing ledger with
  | nil => simp [AgreesAll, enterAll]
  | cons event events ih =>
      simp only [List.cons_append, AgreesAll, ih, and_assoc, enterAll_cons]

theorem enterAll_of_output {events : List Event} (h : ∀ event ∈ events, event.isOutput)
    (ledger : Ledger) : ledger.enterAll events = ledger ∧ ledger.AgreesAll events := by
  induction events with
  | nil => exact ⟨rfl, trivial⟩
  | cons event events ih =>
      obtain ⟨ho, hs⟩ := List.forall_mem_cons.1 h
      cases event with
      | openDocument _ | write _ => exact ⟨(ih hs).1, trivial, (ih hs).2⟩
      | read _ _ | token _ | badSpan _ | table _ _ => cases ho

theorem enterAll_badSpans (lines : List Text) (ledger : Ledger) :
    ledger.enterAll (lines.map .badSpan) = ledger ∧ ledger.AgreesAll (lines.map .badSpan) := by
  induction lines with
  | nil => exact ⟨rfl, trivial⟩
  | cons line lines ih => exact ⟨ih.1, trivial, ih.2⟩

end Ledger

theorem writeText_isOutput (text : Text) : ∀ event ∈ writeText text, event.isOutput := by
  intro event h
  by_cases ht : text = []
  · simp [writeText, ht] at h
  · simp only [writeText, if_neg ht, List.mem_singleton] at h
    subst h
    rfl

theorem writes_isOutput (lines : List Text) :
    ∀ event ∈ lines.map Event.write, event.isOutput := by
  intro event h
  obtain ⟨line, -, rfl⟩ := List.mem_map.1 h
  rfl

theorem Passage.lead_isOutput (m : Match) : ∀ event ∈ Passage.lead m, event.isOutput := by
  intro event h
  cases hm : m.token with
  | pageBreak _ | heading _ _ | literalBlock | tableStart =>
      simp only [Passage.lead, hm] at h
      exact writeText_isOutput _ _ h
  | listItem _ => simp [Passage.lead, hm] at h
  | image _ _ _ =>
      simp only [Passage.lead, hm] at h
      split at h
      · cases h
      · rw [List.mem_singleton.1 h]
        rfl
  | newline =>
      simp only [Passage.lead, hm] at h
      rw [List.mem_singleton.1 h]
      rfl

theorem Passage.output_isOutput (imageDirectory : Text) (p : Passage) :
    ∀ event ∈ p.output imageDirectory, event.isOutput := by
  intro event h
  rcases List.mem_append.1 h with h | h
  · exact lead_isOutput _ _ h
  cases hp : p.found.token with
  | pageBreak title =>
      simp only [Passage.own, hp] at h
      rw [List.mem_singleton.1 h]
      rfl
  | heading _ _ | tableStart | image _ _ _ =>
      simp only [Passage.own, hp] at h
      exact writes_isOutput _ _ h
  | literalBlock =>
      simp only [Passage.own, hp] at h
      rw [List.mem_singleton.1 h]
      rfl
  | listItem _ | newline => simp [Passage.own, hp] at h

/-- A token that is no table has its output, the text before it first, when it is handled. -/
theorem handle_eq_output (imageDirectory : Text) (line : Nat) {m : Match}
    (h : m.token ≠ .tableStart) :
    (handle imageDirectory line m).1 = Passage.output imageDirectory ⟨m, m.taken⟩ := by
  cases hm : m.token with
  | tableStart => exact absurd hm h
  | pageBreak _ | heading _ _ | listItem _ | literalBlock | image _ _ _ | newline =>
      simp [handle, Passage.output, Passage.lead, Passage.own, hm]

theorem filter_tableEvents (imageDirectory : Text) {opening : Match} (source : Text)
    (h : opening.token = .tableStart) :
    (tableEvents opening source).filter Event.isOutput =
      Passage.output imageDirectory ⟨opening, source⟩ := by
  have hb : ∀ lines : List Text, (lines.map Event.badSpan).filter Event.isOutput = [] := by
    intro lines
    simp [List.filter_eq_nil_iff, Event.isOutput]
  have ho := List.filter_eq_self.2 (writeText_isOutput opening.before)
  have hw := List.filter_eq_self.2 (writes_isOutput (Table.ofMarkup source).render)
  simp only [tableEvents, List.filter_append, hb, ho, hw]
  simp [Passage.output, Passage.lead, Passage.own, h, Event.isOutput]

theorem Event.quiet_of_output {event : Event} (h : event.isOutput) :
    event.line? = none ∧ event.token? = none := by
  cases event with
  | openDocument _ | write _ => exact ⟨rfl, rfl⟩
  | read _ _ | token _ | badSpan _ | table _ _ => cases h

theorem quiet_of_forall {events : List Event}
    (h : ∀ event ∈ events, event.line? = none ∧ event.token? = none) :
    events.filterMap Event.line? = [] ∧ events.filterMap Event.token? = [] :=
  ⟨List.filterMap_eq_nil_iff.2 fun event he => (h event he).1,
    List.filterMap_eq_nil_iff.2 fun event he => (h event he).2⟩

theorem quiet_of_isOutput {events : List Event} (h : ∀ event ∈ events, event.isOutput) :
    events.filterMap Event.line? = [] ∧ events.filterMap Event.token? = [] :=
  quiet_of_forall fun event he => Event.quiet_of_output (h event he)

/-- Going on with a table reads no line and finds no token. -/
theorem closeTable_quiet (opening : Match) (source : Text) (line : Nat) :
    (closeTable opening source line).1.filterMap Event.line? = [] ∧
      (closeTable opening source line).1.filterMap Event.token? = [] := by
  apply quiet_of_forall
  intro event h
  simp only [closeTable] at h
  split at h
  · cases h
  · simp only [tableEvents, List.mem_append, List.mem_map, List.mem_singleton] at h
    rcases h with ((⟨_, -, rfl⟩ | rfl) | h) | ⟨_, -, rfl⟩
    · exact ⟨rfl, rfl⟩
    · exact ⟨rfl, rfl⟩
    · exact Event.quiet_of_output (writeText_isOutput _ _ h)
    · exact ⟨rfl, rfl⟩

theorem handle_quiet (imageDirectory : Text) (line : Nat) (m : Match) :
    (handle imageDirectory line m).1.filterMap Event.line? = [] ∧
      (handle imageDirectory line m).1.filterMap Event.token? = [] := by
  by_cases hm : m.token = .tableStart
  · simp only [handle, hm]
    exact closeTable_quiet _ _ _
  · rw [handle_eq_output imageDirectory line hm]
    exact quiet_of_isOutput (Passage.output_isOutput _ _)

/-- A turn takes out one token or reads the next line. -/
theorem turn_reads {imageDirectory : Text} {first last : Course} {events : List Event}
    (h : Turn imageDirectory first events last) :
    events.filterMap Event.line? ++ last.unread = first.unread ∧
      (events.filterMap Event.token?).length + first.unread.length = last.unread.length + 1 := by
  cases h with
  | @token line buffer m unread found =>
      obtain ⟨hl, ht⟩ := handle_quiet imageDirectory line m
      simp only [List.filterMap_cons, Event.line?_token, Event.token?_token, hl, ht]
      exact ⟨rfl, Nat.add_comm 1 _⟩
  | start | join _ => simp
  | @extend number opened opening source line unread =>
      obtain ⟨hl, ht⟩ := closeTable_quiet opening (source ++ ' ' :: line) opened
      simp only [List.filterMap_cons, Event.line?_read, Event.token?_read, hl, ht]
      exact ⟨rfl, Nat.zero_add _⟩

theorem turns_reads {imageDirectory : Text} {first last : Course} {count : Nat}
    {events : List Event} (h : Turns imageDirectory first count events last) :
    events.filterMap Event.line? ++ last.unread = first.unread ∧
      count = (events.filterMap Event.token?).length + (events.filterMap Event.line?).length := by
  induction h with
  | none => simp
  | more _ turn ih =>
      obtain ⟨hl, hc⟩ := ih
      obtain ⟨hl', hc'⟩ := turn_reads turn
      have hlen := congrArg List.length hl'
      rw [List.length_append] at hlen
      rw [List.filterMap_append, List.filterMap_append, List.length_append, List.length_append]
      refine ⟨?_, by omega⟩
      rw [List.append_assoc, hl', hl]

namespace Ledger

/-- The ledger accounts for what is pending: it is what the tokens have not taken. -/
def Balanced (ledger : Ledger) : Pending → Prop
  | .nothing => ledger.opening = none ∧ ledger.lines = [] ∧ ledger.text = ledger.spent
  | .text buffer =>
      ledger.opening = none ∧ ledger.lines ≠ [] ∧ ledger.text = ledger.spent ++ buffer
  | .table opening source _ =>
      ledger.opening = some opening ∧ ledger.lines ≠ [] ∧ opening.token = .tableStart ∧
        ledger.text = ledger.spent ++ opening.before ++ source

/-- Events take a ledger to a later one: they agree with it, and what they put into the
documents is the output of the tokens that they complete. -/
structure Reaches (imageDirectory : Text) (ledger : Ledger) (events : List Event)
    (pending : Pending) : Prop where
  agrees : ledger.AgreesAll events
  balanced : (ledger.enterAll events).Balanced pending
  output : ∃ passages, (ledger.enterAll events).passages = ledger.passages ++ passages ∧
    events.filter Event.isOutput = passages.flatMap (Passage.output imageDirectory)

variable {imageDirectory : Text} {ledger : Ledger}

theorem Reaches.trans {events later : List Event} {middle last : Pending}
    (h : ledger.Reaches imageDirectory events middle)
    (h' : (ledger.enterAll events).Reaches imageDirectory later last) :
    ledger.Reaches imageDirectory (events ++ later) last := by
  obtain ⟨passages, hp, ho⟩ := h.output
  obtain ⟨passages', hp', ho'⟩ := h'.output
  refine ⟨agreesAll_append.2 ⟨h.agrees, h'.agrees⟩, ?_, passages ++ passages', ?_, ?_⟩
  · rw [enterAll_append]
    exact h'.balanced
  · rw [enterAll_append, hp', hp, List.append_assoc]
  · rw [List.filter_append, ho, ho', List.flatMap_append]

theorem text_complete (ledger : Ledger) (p : Passage) : (ledger.complete p).text = ledger.text := rfl

theorem spent_complete (ledger : Ledger) (p : Passage) :
    (ledger.complete p).spent = ledger.spent ++ p.spent := by
  simp [complete, spent]

/-- Of the events of a table only that of the table itself changes the ledger. -/
theorem enterAll_tableEvents {opening : Match} (source : Text)
    (h : ledger.opening = some opening) :
    ledger.enterAll (tableEvents opening source) = ledger.complete ⟨opening, source⟩ ∧
      (ledger.Agrees (.table source (Table.ofMarkup source)) →
        ledger.AgreesAll (tableEvents opening source)) := by
  obtain ⟨hbad, hbad'⟩ := enterAll_badSpans (Table.badSpans source) ledger
  have hlast : ∀ event ∈ writeText opening.before ++
      (Table.ofMarkup source).render.map Event.write, event.isOutput := by
    intro event he
    exact (List.mem_append.1 he).elim (writeText_isOutput _ _ ·) (writes_isOutput _ _ ·)
  have hsplit : tableEvents opening source = (Table.badSpans source).map .badSpan ++
      .table source (Table.ofMarkup source) :: (writeText opening.before ++
        (Table.ofMarkup source).render.map .write) := by
    simp [tableEvents]
  rw [hsplit, enterAll_append, agreesAll_append, hbad]
  refine ⟨?_, fun ha => ⟨hbad', ha, (enterAll_of_output hlast _).2⟩⟩
  have hopen : ledger.enter (.table source (Table.ofMarkup source)) =
      ledger.complete ⟨opening, source⟩ := by
    simp only [enter, h]
  rw [enterAll_cons, hopen]
  exact (enterAll_of_output hlast _).1

theorem closeTable_reaches (imageDirectory : Text) {opening : Match} {source : Text} (line : Nat)
    (h : ledger.Balanced (.table opening source line)) :
    ledger.Reaches imageDirectory (closeTable opening source line).1
      (closeTable opening source line).2 := by
  obtain ⟨hopen, hlines, htoken, htext⟩ := h
  cases hcut : cutTable? source with
  | none =>
      simp only [closeTable, hcut]
      exact ⟨trivial, ⟨hopen, hlines, htoken, htext⟩, [], (List.append_nil _).symm, rfl⟩
  | some parts =>
      obtain ⟨markup, rest⟩ := parts
      have happ : markup ++ rest = source := Text.append_of_cutAfter hcut
      obtain ⟨hall, hagree⟩ := enterAll_tableEvents markup hopen
      simp only [closeTable, hcut]
      refine ⟨hagree ⟨rfl, opening, source, rest, hopen, htext, hcut⟩, ?_, [⟨opening, markup⟩],
        ?_, ?_⟩
      · rw [hall]
        refine ⟨rfl, hlines, ?_⟩
        rw [text_complete, spent_complete]
        simp [htext, ← happ, Passage.spent, htoken]
      · rw [hall]
        rfl
      · rw [filter_tableEvents imageDirectory markup htoken]
        simp

/-- What stands in a stream around the signs of an item when a marker takes their place. -/
theorem text_replace {m : Match} {marker : Text}
    (h : ledger.text = ledger.spent ++ m.whole) :
    (ledger.replace m marker).map Glyph.char =
      ledger.spent ++ (m.before ++ marker ++ m.after) := by
  have htake : (ledger.stream.map Glyph.char).take (ledger.spent ++ m.before).length =
      ledger.spent ++ m.before := by
    change ledger.text.take _ = _
    rw [h, Match.whole, ← List.append_assoc, ← List.append_assoc, List.append_assoc, List.take_left]
  have hdrop : (ledger.stream.map Glyph.char).drop
      ((ledger.spent ++ m.before).length + m.taken.length) = m.after := by
    change ledger.text.drop _ = _
    rw [h, Match.whole, ← List.append_assoc, ← List.append_assoc, ← List.length_append,
      List.drop_left]
  simp only [replace, List.map_append, List.map_take, List.map_drop, htake, hdrop, List.map_map]
  simp [Function.comp_def]

/-- An item is replaced by its marker, and nothing of it is done with. -/
theorem text_enter_listItem {m : Match} {depth : Nat} (hm : m.token = .listItem depth)
    (h : ledger.text = ledger.spent ++ m.whole) :
    (ledger.enter (.token m)).text =
      (ledger.enter (.token m)).spent ++ (m.before ++ Rst.listMarker depth ++ m.after) := by
  simp only [enter, hm]
  change (ledger.replace m _).map _ = (ledger.complete _).spent ++ _
  rw [text_replace h, spent_complete]
  simp [Passage.spent, hm]

theorem token_reaches {buffer : Text} {m : Match} (line : Nat)
    (h : ledger.Balanced (.text buffer)) (hf : find? buffer = some m) :
    ledger.Reaches imageDirectory (.token m :: (handle imageDirectory line m).1)
      (handle imageDirectory line m).2 := by
  obtain ⟨hopen, hlines, htext⟩ := h
  have hwhole := whole_of_find? hf
  have hagrees : ledger.Agrees (.token m) := ⟨hopen, buffer, htext, hf⟩
  rw [← hwhole] at htext
  by_cases ht : m.token = .tableStart
  · have hb : (ledger.enter (.token m)).Balanced (.table m (m.taken ++ m.after) line) := by
      simp only [enter, ht]
      refine ⟨rfl, hlines, ht, ?_⟩
      change ledger.text = ledger.spent ++ _ ++ _
      rw [htext, Match.whole]
      simp
    have hclose := closeTable_reaches imageDirectory line hb
    have hhandle : handle imageDirectory line m = closeTable m (m.taken ++ m.after) line := by
      simp only [handle, ht]
    rw [hhandle]
    have hfirst : ledger.Reaches imageDirectory [.token m]
        (.table m (m.taken ++ m.after) line) := by
      refine ⟨⟨hagrees, trivial⟩, hb, [], ?_, rfl⟩
      simp [enterAll, enter, ht]
    exact hfirst.trans hclose
  · have ho := Passage.output_isOutput imageDirectory ⟨m, m.taken⟩
    rw [handle_eq_output imageDirectory line ht]
    obtain ⟨hall, hagree⟩ := enterAll_of_output ho (ledger.enter (.token m))
    have hpass : (ledger.enter (.token m)).passages = ledger.passages ++ [⟨m, m.taken⟩] := by
      cases hm : m.token with
      | tableStart => exact absurd hm ht
      | pageBreak _ | heading _ _ | listItem _ | literalBlock | image _ _ _ | newline =>
          simp [enter, hm, complete]
    refine ⟨⟨hagrees, hagree⟩, ?_, [⟨m, m.taken⟩], ?_, ?_⟩
    · rw [enterAll_cons, hall]
      cases hm : m.token with
      | tableStart => exact absurd hm ht
      | listItem depth =>
          have hitem := text_enter_listItem hm htext
          simp only [enter, hm, handle] at hitem ⊢
          exact ⟨rfl, hlines, hitem⟩
      | pageBreak _ | heading _ _ | literalBlock | image _ _ _ | newline =>
          simp only [enter, hm, handle]
          refine ⟨rfl, hlines, ?_⟩
          rw [text_complete, spent_complete]
          simp [htext, Match.whole, Passage.spent, hm]
    · rw [enterAll_cons, hall, hpass]
    · have hfilter : Event.isOutput (.token m) = false := rfl
      rw [List.filter_cons, hfilter, List.filter_eq_self.2 ho]
      simp

theorem text_read (ledger : Ledger) (joint line : Text) :
    (ledger.enter (.read joint line)).text = ledger.text ++ joint ++ line := by
  simp [enter, text, Function.comp_def]

theorem lines_read (ledger : Ledger) (joint line : Text) :
    (ledger.enter (.read joint line)).lines ≠ [] := by
  simp [enter]

/-- Whatever the turn, the ledger accounts for what is pending after it. -/
theorem turn_reaches {first last : Course} {events : List Event}
    (h : Turn imageDirectory first events last) (hb : ledger.Balanced first.state.pending) :
    ledger.Reaches imageDirectory events last.state.pending := by
  cases h with
  | token found => exact token_reaches _ hb found
  | @start number line unread =>
      obtain ⟨hopen, hlines, htext⟩ := hb
      have hagrees : ledger.Agrees (.read [] line) := by
        simp only [Agrees, hopen]
        exact .inl ⟨hlines, trivial⟩
      refine ⟨⟨hagrees, trivial⟩, ⟨hopen, lines_read _ _ _, ?_⟩, [], ?_, rfl⟩
      · change (ledger.enter (.read [] line)).text = ledger.spent ++ line
        rw [text_read, htext, List.append_nil]
      · exact (List.append_nil _).symm
  | @join number buffer line unread empty =>
      obtain ⟨hopen, hlines, htext⟩ := hb
      have hagrees : ledger.Agrees (.read (joint buffer line) line) := by
        simp only [Agrees, hopen]
        exact .inr ⟨hlines, buffer, htext, empty, rfl⟩
      refine ⟨⟨hagrees, trivial⟩, ⟨hopen, lines_read _ _ _, ?_⟩, [], ?_, rfl⟩
      · change (ledger.enter (.read (joint buffer line) line)).text = ledger.spent ++ _
        rw [text_read, htext]
        simp only [List.append_assoc]
      · exact (List.append_nil _).symm
  | @extend number opened opening source line unread =>
      obtain ⟨hopen, hlines, htoken, htext⟩ := hb
      have hagrees : ledger.Agrees (.read [' '] line) := by
        simp only [Agrees, hopen]
      have hread : (ledger.enter (.read [' '] line)).Balanced
          (.table opening (source ++ ' ' :: line) opened) := by
        refine ⟨hopen, lines_read _ _ _, htoken, ?_⟩
        rw [text_read, htext]
        simp only [List.append_assoc]
        rfl
      have hfirst : ledger.Reaches imageDirectory [.read [' '] line]
          (.table opening (source ++ ' ' :: line) opened) :=
        ⟨⟨hagrees, trivial⟩, hread, [], (List.append_nil _).symm, rfl⟩
      exact hfirst.trans (closeTable_reaches _ _ hread)

theorem turns_reaches {first last : Course} {count : Nat} {events : List Event}
    (h : Turns imageDirectory first count events last)
    (hb : ledger.Balanced first.state.pending) :
    ledger.Reaches imageDirectory events last.state.pending := by
  refine h.invariant (P := fun events course =>
    ledger.Reaches imageDirectory events course.state.pending) ?_ ?_
  · exact ⟨trivial, hb, [], (List.append_nil _).symm, rfl⟩
  · intro events later middle last hr turn
    exact hr.trans (turn_reaches turn hr.balanced)

theorem lines_enterAll (ledger : Ledger) (events : List Event) :
    (ledger.enterAll events).lines = ledger.lines ++ events.filterMap Event.line? := by
  induction events generalizing ledger with
  | nil => simp [enterAll]
  | cons event events ih =>
      rw [enterAll_cons, ih]
      cases event with
      | read joint line => simp [enter, Event.line?]
      | token m =>
          have he : (ledger.enter (.token m)).lines = ledger.lines := by
            simp only [enter]
            split <;> rfl
          rw [he]
          rfl
      | table source table =>
          have he : (ledger.enter (.table source table)).lines = ledger.lines := by
            simp only [enter]
            split <;> rfl
          rw [he]
          rfl
      | badSpan _ | openDocument _ | write _ => rfl

/-- The tokens of a ledger, that of a table not yet closed included. -/
def found (ledger : Ledger) : List Match :=
  ledger.passages.map Passage.found ++ ledger.opening.toList

/-- Every token that is found completes one passage, unless its table is still open. -/
theorem found_enterAll {events : List Event} (h : ledger.AgreesAll events) :
    (ledger.enterAll events).found = ledger.found ++ events.filterMap Event.token? := by
  induction events generalizing ledger with
  | nil => simp [enterAll]
  | cons event events ih =>
      rw [enterAll_cons, ih h.2]
      have ha := h.1
      cases event with
      | token m =>
          have he : (ledger.enter (.token m)).found = ledger.found ++ [m] := by
            simp only [enter]
            split <;> simp [found, complete, ha.1]
          simp [he, Event.token?]
      | table source table =>
          obtain ⟨-, m, markup, after, hopen, -, -⟩ := ha
          have he : (ledger.enter (.table source table)).found = ledger.found := by
            simp [enter, hopen, found, complete]
          rw [he]
          rfl
      | read _ _ | badSpan _ | openDocument _ | write _ => rfl

/-- What an event that agrees with a ledger does to its tables: only that of a table adds one, set
from the markup that the token took. -/
theorem tables_enter {event : Event} (h : ledger.Agrees event)
    (hopening : ∀ m ∈ ledger.opening, m.token = .tableStart) :
    (ledger.enter event).passages.filterMap Passage.table? =
        ledger.passages.filterMap Passage.table? ++ event.table?.toList ∧
      ∀ m ∈ (ledger.enter event).opening, m.token = .tableStart := by
  cases event with
  | read _ _ | badSpan _ | openDocument _ | write _ => exact ⟨(List.append_nil _).symm, hopening⟩
  | token m =>
      cases hm : m.token with
      | tableStart =>
          simp only [enter, hm]
          refine ⟨(List.append_nil _).symm, fun m' hm' => ?_⟩
          cases hm'
          exact hm
      | pageBreak _ | heading _ _ | listItem _ | literalBlock | image _ _ _ | newline =>
          have hnone : Passage.table? ⟨m, m.taken⟩ = none := by simp only [Passage.table?, hm]
          simp only [enter, hm, complete, List.filterMap_append, List.filterMap_cons_none hnone]
          exact ⟨rfl, fun _ hnil => by cases hnil⟩
  | table source set =>
      obtain ⟨rfl, m, _, _, hopen, -, -⟩ := h
      have hsome : Passage.table? ⟨m, source⟩ = some (Table.ofMarkup source) := by
        simp only [Passage.table?, hopening m hopen]
      simp only [enter, hopen, complete, List.filterMap_append, List.filterMap_cons_some hsome]
      exact ⟨rfl, fun _ hnil => by cases hnil⟩

/-- The tables of a run are those that its passages took, in the same order. -/
theorem tables_enterAll {events : List Event} (h : ledger.AgreesAll events)
    (hopening : ∀ m ∈ ledger.opening, m.token = .tableStart) :
    (ledger.enterAll events).passages.filterMap Passage.table? =
      ledger.passages.filterMap Passage.table? ++ events.filterMap Event.table? := by
  induction events generalizing ledger with
  | nil => exact (List.append_nil _).symm
  | cons event events ih =>
      obtain ⟨hevent, hevents⟩ := h
      obtain ⟨htables, hopened⟩ := tables_enter hevent hopening
      rw [enterAll_cons, ih hevents hopened, htables]
      simp only [List.filterMap_eq_flatMap_toList, List.flatMap_cons, List.append_assoc]

end Ledger
end WikiDocs

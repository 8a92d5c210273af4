import WikiDocs.Proofs.Latin1
import WikiDocs.Proofs.OpenTables

/-!
Runs that open no document but the first. What is read line by line is put
together to the body of that document; a run into memory then leaves that body
and nothing else, unless it is strict and refuses a line of it.
-/

namespace WikiDocs

open Conversion Text Token

namespace Conversion

variable {imageDirectory : Text}

/-- Reading lines behind what is pending finds tokens of the given kinds, writes `body` without
opening a document, and leaves `rest` pending. -/
def Reads (imageDirectory : Text) (pending : Pending) (lines : List Text) (kinds : List Kind)
    (body : List Text) (rest : Pending) : Prop :=
  ∀ number, ∃ events,
    feedAll imageDirectory ⟨number, pending⟩ lines = (events, ⟨number + lines.length, rest⟩) ∧
      (events.filterMap Event.token?).map (·.token.kind) = kinds ∧
      events.filter Event.isOutput = body.map .write

theorem Reads.nil (pending : Pending) : Reads imageDirectory pending [] [] [] pending :=
  fun _ => ⟨[], rfl, rfl, rfl⟩

theorem Reads.trans {pending middle rest : Pending} {lines more : List Text}
    {kinds kinds' : List Kind} {body body' : List Text}
    (h : Reads imageDirectory pending lines kinds body middle)
    (h' : Reads imageDirectory middle more kinds' body' rest) :
    Reads imageDirectory pending (lines ++ more) (kinds ++ kinds') (body ++ body') rest := by
  intro number
  obtain ⟨events, hfeed, hkinds, hbody⟩ := h number
  obtain ⟨later, hfeed', hkinds', hbody'⟩ := h' (number + lines.length)
  refine ⟨events ++ later, ?_, ?_, ?_⟩
  · rw [feedAll_append, hfeed, hfeed', List.length_append, Nat.add_assoc]
  · rw [List.filterMap_append, List.map_append, hkinds, hkinds']
  · rw [List.filter_append, List.map_append, hbody, hbody']

/-- Before a line that is not blank an empty text is as good as nothing. -/
theorem Reads.of_empty {line : Text} {lines : List Text} {kinds : List Kind} {body : List Text}
    {rest : Pending} (hline : line ≠ [])
    (h : Reads imageDirectory (.text []) (line :: lines) kinds body rest) :
    Reads imageDirectory .nothing (line :: lines) kinds body rest := by
  intro number
  obtain ⟨events, hfeed, hwritten⟩ := h number
  refine ⟨events, ?_, hwritten⟩
  rw [← hfeed]
  simp only [feedAll, feed, attach_empty hline]

end Conversion

theorem mem_write_iff {events : List Event} {body : List Text}
    (h : events.filter Event.isOutput = body.map .write) {line : Text} :
    .write line ∈ events ↔ line ∈ body := by
  have hfilter : .write line ∈ events.filter Event.isOutput ↔ .write line ∈ events :=
    List.mem_filter.trans (and_iff_left rfl)
  rw [← hfilter, h]
  simp

theorem sectionsOf_writes {title : String} {events : List Event} {body : List Text}
    (h : events.filter Event.isOutput = body.map .write) :
    sectionsOf title events = [{ title, lines := body }] := by
  rw [sectionsOf, Shelf.foldl_outputs, h, Shelf.foldl_writes]
  rfl

/-- A conversion that opens no document but the first, which has the given body, and finds tokens
of the given kinds. -/
structure WritesBody (options : Options) (input : List UInt8) (kinds : List Kind)
    (body : List Text) : Prop where
  /-- Whatever the sink, this is all that the run sets out to write. -/
  outline_eq :
    (outline options {} (Line.pieces input)).1.filter Event.isOutput = body.map .write ∧
      (outline options {} (Line.pieces input)).2 = .ok ()
  /-- Only a strict run can fail in memory, and only at a line that is not Latin-1. -/
  succeeds_iff :
    (∃ summary, (convert ({} : MemoryFiles) options input).answer = .ok summary) ↔
      (options.strictLatin1 = true → ∀ line ∈ body, line.Latin1)
  documents_eq : ∀ summary, (convert ({} : MemoryFiles) options input).answer = .ok summary →
    summary.documents = [Section.document options { title := options.title, lines := body }] ∧
      ∀ kind, summary.tally.tokenCount kind = kinds.count kind
  content_eq : ∀ summary, (convert ({} : MemoryFiles) options input).answer = .ok summary →
    options.title ++ options.sourceExtension ≠ options.scriptName →
    (convert ({} : MemoryFiles) options input).state.names =
        [options.scriptName, options.title ++ options.sourceExtension] ∧
      (convert ({} : MemoryFiles) options input).state.bytes?
          (options.title ++ options.sourceExtension) =
        some (Utf8.encode (unlines (Rst.banner options.title.toList ++ body)))

section Outline

variable {options : Options} {input : List UInt8} {body : List Text}
  (hend : (outline options {} (Line.pieces input)).2 = .ok ())
  (hbody : (outline options {} (Line.pieces input)).1.filter Event.isOutput = body.map .write)
include hend hbody

theorem succeeds_iff_of_outline :
    (∃ summary, (convert ({} : MemoryFiles) options input).answer = .ok summary) ↔
      (options.strictLatin1 = true → ∀ line ∈ body, line.Latin1) := by
  have hlines : ∀ strict, outline (options.withStrict strict) {} (Line.pieces input) =
      outline options {} (Line.pieces input) := by
    intro strict
    have hexpand : (options.withStrict strict).expandEscapes = options.expandEscapes := rfl
    exact outline_congr hexpand rfl _ _
  have hlax : (options.withStrict false).strictLatin1 = false := rfl
  obtain ⟨hrun, hok⟩ := runEvents_of_lax hlax (by rw [hlines, hend])
  cases hstrict : options.strictLatin1 with
  | false =>
      have hsame : options.withStrict false = options := by rw [Options.withStrict, ← hstrict]
      rw [hsame] at hok
      exact iff_of_true hok fun h => by cases h
  | true =>
      have hsame : options.withStrict true = options := by rw [Options.withStrict, ← hstrict]
      obtain ⟨heq, hnone⟩ | ⟨_, text, char, more, -, htext, hmore, hanswer, -⟩ :=
        strict_or_stopped ({} : MemoryFiles) options input
      · rw [hsame] at heq
        refine iff_of_true (by rwa [heq]) fun _ line hline => ?_
        rw [hrun, hlines] at hnone
        exact foreign?_eq_none.1 (hnone _ ((mem_write_iff hbody).2 hline))
      · rw [hsame] at hanswer
        refine iff_of_false ?_ fun hall => ?_
        · rintro ⟨summary, hok⟩
          rw [hanswer] at hok
          cases hok
        · have hmem : text ∈ body := by
            rw [← mem_write_iff hbody, ← hlines false, ← hrun, hmore]
            exact List.mem_append_right _ List.mem_cons_self
          rw [foreign?_eq_none.2 (hall rfl text hmem)] at htext
          cases htext

theorem writesBody_of_outline :
    WritesBody options input
      (((outline options {} (Line.pieces input)).1.filterMap Event.token?).map (·.token.kind))
      body := by
  have hsections : ∀ summary, (convert ({} : MemoryFiles) options input).answer = .ok summary →
      sectionsOf options.title (runEvents ({} : MemoryFiles) options input) =
        [{ title := options.title, lines := body }] := by
    intro summary hok
    obtain ⟨_, -, -, hrun, -⟩ := started_of_convert_ok hok
    rw [hrun]
    exact sectionsOf_writes hbody
  refine ⟨⟨hbody, hend⟩, succeeds_iff_of_outline hend hbody, fun summary hok => ⟨?_, ?_⟩,
    fun summary hok hscript => ?_⟩
  · rw [documents_of_convert_ok hok, hsections summary hok]
    rfl
  · obtain ⟨_, -, -, hrun, -⟩ := started_of_convert_ok hok
    rw [← hrun]
    exact tokenCount_of_convert_ok hok
  · have hnames : ∀ document ∈ summary.documents, document.fileName ≠ options.scriptName := by
      rw [documents_of_convert_ok hok, hsections summary hok, List.map_singleton,
        List.forall_mem_singleton]
      exact hscript
    have hholds := holds_of_convert_ok hok hnames
    rw [hsections summary hok] at hholds
    exact ⟨hholds.names_eq, hholds.content_eq [] _ [] rfl (by simp)⟩

end Outline

/-- An input that is read to its end is written as the body that its lines come to, and as what is
pending in the end. -/
theorem Conversion.Reads.writesBody {options : Options} {input : List UInt8} {lines : List Text}
    {kinds : List Kind} {body : List Text} {rest : Text}
    (hinput : (Line.pieces input).map (Line.ofPiece options.expandEscapes) = lines.map .ok)
    (h : Reads options.imageDirectory.toList .nothing lines kinds body (.text rest)) :
    WritesBody options input kinds (body ++ if rest = [] then [] else [rest]) := by
  obtain ⟨events, hfeed, hkinds, hbody⟩ := h 0
  have houtline : outline options {} (Line.pieces input) = (events ++ writeText rest, .ok ()) := by
    rw [outline_of_lines hinput, hfeed]
    rfl
  have hquiet := (quiet_of_isOutput (writeText_isOutput rest)).2
  have hwritten : (outline options {} (Line.pieces input)).1.filter Event.isOutput =
      (body ++ if rest = [] then [] else [rest]).map .write := by
    rw [houtline, List.filter_append, hbody, List.filter_eq_self.2 (writeText_isOutput rest),
      List.map_append, writeText]
    split <;> rfl
  have hall := writesBody_of_outline (by rw [houtline]) hwritten
  rwa [houtline, List.filterMap_append, hquiet, List.append_nil, hkinds] at hall

end WikiDocs

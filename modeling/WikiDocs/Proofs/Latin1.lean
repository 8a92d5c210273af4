import WikiDocs.Proofs.Strict
import WikiDocs.Proofs.TableLine

/-!
Latin-1 in the documents of a strict run into memory. Every line is checked before it is
written, but a banner is not: what a document holds beyond Latin-1 comes from a title.
-/

namespace WikiDocs

open Conversion Text

/-- Whether a text has no character beyond Latin-1. -/
def Text.Latin1 (text : Text) : Prop := ∀ c ∈ text, c.toNat ≤ 0xFF

instance (text : Text) : Decidable text.Latin1 :=
  List.decidableBAll (fun c : Char => c.toNat ≤ 0xFF) text

/-- Whether all characters of a text beyond Latin-1 are in titles. -/
def Text.ForeignFrom (titles : List String) (text : Text) : Prop :=
  ∀ c ∈ text, 0xFF < c.toNat → ∃ title ∈ titles, c ∈ title.toList

namespace Text

variable {titles titles' : List String} {text more : Text}

theorem foreignFrom_append :
    ForeignFrom titles (text ++ more) ↔ ForeignFrom titles text ∧ ForeignFrom titles more :=
  List.forall_mem_append

theorem foreignFrom_of_mem {title : String} (h : title ∈ titles) :
    ForeignFrom titles title.toList := fun _ hc _ => ⟨title, h, hc⟩

theorem Latin1.foreignFrom (h : text.Latin1) : ForeignFrom titles text :=
  fun c hc hforeign => absurd (h c hc) (Nat.not_le.2 hforeign)

theorem ForeignFrom.mono (h : ForeignFrom titles text) (hsub : titles ⊆ titles') :
    ForeignFrom titles' text := by
  intro c hc hforeign
  obtain ⟨title, htitle, hmem⟩ := h c hc hforeign
  exact ⟨title, hsub htitle, hmem⟩

theorem ForeignFrom.latin1 (h : ForeignFrom titles text)
    (htitles : ∀ title ∈ titles, Latin1 title.toList) : text.Latin1 := by
  intro c hc
  by_contra hforeign
  obtain ⟨title, htitle, hmem⟩ := h c hc (Nat.not_le.1 hforeign)
  exact hforeign (htitles title htitle c hmem)

end Text

/-- The strings of the options that a document holds without a check, if it takes the place of the
build script. -/
structure Options.Latin1 (options : Options) : Prop where
  sourceExtension : Text.Latin1 options.sourceExtension.toList
  renderedExtension : Text.Latin1 options.renderedExtension.toList
  renderCommand : Text.Latin1 options.renderCommand.toList

section Title

variable {titles : List String} {title : String} (h : title ∈ titles)
include h

theorem foreignFrom_banner : ForeignFrom titles (unlines (Rst.banner title.toList)) := by
  have hrule : Latin1 (List.replicate title.toList.length '#') := by
    intro c hc
    rw [List.eq_of_mem_replicate hc]
    decide
  have hbreak : ForeignFrom titles ['\n'] := Latin1.foreignFrom (by decide)
  simp only [Rst.banner, unlines, List.flatMap_cons, List.flatMap_nil, foreignFrom_append]
  exact ⟨⟨hrule.foreignFrom, hbreak⟩, ⟨foreignFrom_of_mem h, hbreak⟩,
    ⟨hrule.foreignFrom, hbreak⟩, ⟨Latin1.foreignFrom (by decide), hbreak⟩,
    Latin1.foreignFrom (by decide)⟩

theorem foreignFrom_scriptLine {options : Options} (hlatin1 : options.Latin1) :
    ForeignFrom titles
      (Registry.scriptLine options (Registry.documentOf options title) ++ ['\n']) := by
  have htitle := foreignFrom_of_mem h
  simp only [Registry.scriptLine, Registry.documentOf, Rst.buildCommand, String.toList_append,
    foreignFrom_append]
  refine ⟨⟨⟨⟨⟨hlatin1.renderCommand.foreignFrom, ?_⟩, htitle,
    hlatin1.sourceExtension.foreignFrom⟩, ?_⟩, htitle,
    hlatin1.renderedExtension.foreignFrom⟩, ?_⟩
  all_goals exact Latin1.foreignFrom (by decide)

end Title

theorem subset_banner (title : Text) : title ⊆ unlines (Rst.banner title) := fun _ hc =>
  List.mem_flatMap.2 ⟨title, by simp [Rst.banner], List.mem_append_left _ hc⟩

/-- Whether a file holds all characters of a text, and beyond Latin-1 nothing but characters of
titles. -/
def MemoryFiles.Keeps (store : MemoryFiles) (titles : List String) (name : String) (kept : Text) :
    Prop :=
  ∃ text, store.bytes? name = some (Utf8.encode text) ∧ kept ⊆ text ∧ ForeignFrom titles text

namespace MemoryFiles

variable {store : MemoryFiles} {titles : List String} {name other : String} {kept more : Text}

theorem keeps_create : (store.create name).Keeps titles name [] :=
  ⟨[], by rw [bytes?_create, if_pos rfl]; rfl, List.nil_subset _, Latin1.foreignFrom (by decide)⟩

theorem Keeps.create (h : store.Keeps titles name kept) (hne : name ≠ other) :
    (store.create other).Keeps titles name kept := by
  obtain ⟨text, hbytes, htext⟩ := h
  exact ⟨text, by rw [bytes?_create, if_neg hne, hbytes], htext⟩

theorem Keeps.append_self (h : store.Keeps titles name kept) (hmore : ForeignFrom titles more) :
    (store.append name (Utf8.encode more)).Keeps titles name (kept ++ more) := by
  obtain ⟨text, hbytes, hkept, hforeign⟩ := h
  refine ⟨text ++ more, ?_, ?_, foreignFrom_append.2 ⟨hforeign, hmore⟩⟩
  · rw [bytes?_append, if_pos rfl, hbytes, Option.map_some, Utf8.encode_append]
  · exact List.append_subset.2
      ⟨List.subset_append_of_subset_left _ hkept, List.subset_append_right _ _⟩

theorem Keeps.weaken {kept' : Text} {titles' : List String} (h : store.Keeps titles name kept)
    (hkept : kept' ⊆ kept) (htitles : titles ⊆ titles') : store.Keeps titles' name kept' := by
  obtain ⟨text, hbytes, htext, hforeign⟩ := h
  exact ⟨text, hbytes, List.Subset.trans hkept htext, hforeign.mono htitles⟩

theorem Keeps.append (h : store.Keeps titles name kept) (hmore : ForeignFrom titles more) :
    (store.append other (Utf8.encode more)).Keeps titles name kept := by
  by_cases hname : name = other
  · subst hname
    exact (h.append_self hmore).weaken (List.subset_append_left _ _) (List.Subset.refl _)
  · obtain ⟨text, hbytes, htext⟩ := h
    exact ⟨text, by rw [bytes?_append, if_neg hname, hbytes], htext⟩

end MemoryFiles

/-- Whether the file of each title asked for so far holds the title, and beyond Latin-1 nothing but
characters of titles. -/
def Registry.Sound (registry : Registry MemoryFiles MemoryFile) : Prop :=
  ∀ title ∈ registry.titles,
    registry.sink.Keeps registry.titles (title ++ registry.options.sourceExtension) title.toList

namespace Registry

variable {registry : Registry MemoryFiles MemoryFile}

/-- The new document starts with its banner. The files of the others stay as they are, but one of
them can be the build script, which gets a line. -/
theorem Sound.openDocument (h : registry.Sound) (hlatin1 : registry.options.Latin1)
    (title : String) : (registry.openDocument title).state.Sound := by
  rw [openDocument_memory]
  intro other hother
  have hscript := foreignFrom_scriptLine (List.mem_cons_self (a := title) (l := registry.titles))
    hlatin1
  have hbanner := foreignFrom_banner (List.mem_cons_self (a := title) (l := registry.titles))
  by_cases hsame : other = title
  · subst hsame
    refine MemoryFiles.Keeps.weaken ?_ (subset_banner other.toList) (List.Subset.refl _)
    exact (MemoryFiles.keeps_create.append hscript).append_self hbanner
  · have hfile : other ++ registry.options.sourceExtension ≠
        title ++ registry.options.sourceExtension :=
      mt (String.append_left_inj registry.options.sourceExtension).1 hsame
    have hold := h other ((List.mem_cons.1 hother).resolve_left hsame)
    have hkept := hold.weaken (List.Subset.refl _) (List.subset_cons_self title registry.titles)
    exact ((hkept.create hfile).append hscript).append hbanner

theorem Sound.writeLine (h : registry.Sound) {line : Text} (hline : line.Latin1) :
    (registry.writeLine line).state.Sound := by
  cases hcurrent : registry.current with
  | none => simpa only [Registry.writeLine, hcurrent] using h
  | some opened =>
      obtain ⟨document, file⟩ := opened
      simp only [Registry.writeLine, hcurrent, Sink.writeLine]
      intro title htitle
      refine (h title htitle).append (foreignFrom_append.2 ⟨hline.foreignFrom, ?_⟩)
      exact Latin1.foreignFrom (by decide)

end Registry

namespace Session

variable {session : Session MemoryFiles MemoryFile}

/-- A strict session writes no line that is not Latin-1, whether it goes on or not. -/
theorem perform_sound (h : session.registry.Sound) (hlatin1 : session.registry.options.Latin1)
    (hstrict : session.registry.options.strictLatin1 = true) (event : Event) :
    (session.perform event).state.registry.Sound := by
  cases event with
  | read _ _ | token _ | badSpan _ | table _ _ => exact h
  | openDocument title =>
      simp only [perform, onRegistry]
      exact h.openDocument hlatin1 _
  | write line =>
      cases hforeign : foreign? line with
      | some char => simpa only [perform, write_refused hstrict hforeign] using h
      | none =>
          simp only [perform, write, hstrict, hforeign, if_true]
          exact h.writeLine (foreign?_eq_none.1 hforeign)

theorem performAll_sound (h : session.registry.Sound)
    (hlatin1 : session.registry.options.Latin1)
    (hstrict : session.registry.options.strictLatin1 = true) (events : List Event) :
    (session.performAll events).state.registry.Sound := by
  induction events generalizing session with
  | nil => exact h
  | cons event events ih =>
      have hnext := perform_sound h hlatin1 hstrict event
      cases hevent : (session.perform event).answer with
      | error e =>
          rw [performAll, Outcome.andThen_error hevent]
          exact hnext
      | ok _ =>
          rw [performAll, Outcome.andThen_ok hevent]
          exact ih hnext (by rwa [perform_options]) (by rwa [perform_options])

/-- No opening of a document fails in memory. -/
theorem opened_of_error {event : Event} {e : Error}
    (h : (session.perform event).answer = .error e) : event.opened? = none := by
  cases event with
  | read _ _ | token _ | badSpan _ | table _ _ | write _ => rfl
  | openDocument title =>
      simp only [perform, onRegistry, Registry.openDocument_memory] at h
      cases h

/-- The titles asked for are those of the events that are carried out, the last one first. -/
theorem titles_performAll (events : List Event) :
    (session.performAll events).state.registry.titles =
      (((session.done events).filterMap Event.opened?).map String.ofList).reverse ++
        session.registry.titles := by
  induction events generalizing session with
  | nil => rfl
  | cons event events ih =>
      have htitles := (session.perform_overwriting event).2
      cases hevent : (session.perform event).answer with
      | error e =>
          rw [opened_of_error hevent] at htitles
          simp only [performAll, Outcome.andThen_error hevent, done, hevent, id]
          exact htitles
      | ok _ =>
          simp only [performAll, Outcome.andThen_ok hevent, done, hevent, ih, htitles]
          cases hopened : event.opened? <;> simp [hopened]

end Session

/-- Each document of a strict run holds its title, and beyond Latin-1 nothing but characters of
titles. -/
theorem keeps_of_strict {options : Options} (hstrict : options.strictLatin1 = true)
    (hlatin1 : options.Latin1) (input : List UInt8) {title : String}
    (h : title ∈ openedTitles options input) :
    (convert ({} : MemoryFiles) options input).state.Keeps (openedTitles options input)
      (title ++ options.sourceExtension) title.toList := by
  obtain ⟨registry, hstart⟩ := started_memory options
  have hoptions := Registry.options_of_start hstart
  have hsound : registry.Sound := by
    obtain ⟨sink, script, -, -, rfl⟩ := Registry.of_start hstart
    refine Registry.Sound.openDocument ?_ (by rwa [Registry.prepared_options]) _
    rw [Registry.prepared_memory]
    exact fun _ hnone => absurd hnone List.not_mem_nil
  let last := (Session.performAll { registry } (outline options {} (Line.pieces input)).1).state
  have hlast : last.registry.Sound :=
    Session.performAll_sound hsound (by rwa [hoptions]) (by rwa [hoptions]) _
  have htitles : last.registry.titles =
      (((runEvents ({} : MemoryFiles) options input).filterMap Event.opened?).map
        String.ofList).reverse ++ [options.title] := by
    rw [runEvents_of_start hstart, ← (Registry.notices_of_start hstart).2]
    exact Session.titles_performAll _
  have hsame : ∀ other, other ∈ last.registry.titles ↔ other ∈ openedTitles options input := by
    intro other
    rw [htitles, openedTitles]
    simp [or_comm]
  have hkeeps := hlast title ((hsame title).2 h)
  rw [Session.performAll_options, hoptions] at hkeeps
  rw [state_of_start hstart]
  exact hkeeps.weaken (List.Subset.refl _) fun other hother => (hsame other).1 hother

/-- A strict run into memory is refused if and only if the lax one writes a line that is not
Latin-1. -/
theorem refused_iff (options : Options) (input : List UInt8) :
    (∃ line char, (convert ({} : MemoryFiles) (options.withStrict true) input).answer =
        .error (.notLatin1 line char)) ↔
      ∃ line, .write line ∈ runEvents ({} : MemoryFiles) (options.withStrict false) input ∧
        ¬ line.Latin1 := by
  obtain ⟨heq, hnone⟩ | ⟨_, text, char, more, -, htext, hrun, hanswer, -⟩ :=
    strict_or_stopped ({} : MemoryFiles) options input
  · refine iff_of_false ?_ ?_
    · rintro ⟨line, char, hrefused⟩
      have hlax : (options.withStrict false).strictLatin1 = false := rfl
      have hending := (lax_run hlax input).2
      rw [← heq, hrefused] at hending
      obtain ⟨_, hio⟩ | ⟨_, htable⟩ := outline_ending hending.symm
      · cases hio
      · cases htable
    · rintro ⟨line, hline, hforeign⟩
      exact hforeign (foreign?_eq_none.1 (hnone _ hline))
  · refine iff_of_true ⟨_, char, hanswer⟩ ⟨text, ?_, fun hlatin1 => ?_⟩
    · rw [hrun]
      exact List.mem_append_right _ List.mem_cons_self
    · rw [foreign?_eq_none.2 hlatin1] at htext
      cases htext

/-- The documents of a strict run into memory are Latin-1 if and only if their titles are: a title is
written without a check. A line is checked, and one that is not Latin-1 makes the run fail. -/
theorem strict_documents {options : Options} (hlatin1 : options.Latin1) (input : List UInt8) :
    let outcome := convert ({} : MemoryFiles) (options.withStrict true) input
    let titles := openedTitles (options.withStrict true) input
    ((∀ title ∈ titles, ∃ text : Text,
        outcome.state.bytes? (title ++ options.sourceExtension) = some (Utf8.encode text) ∧
          text.Latin1) ↔
      ∀ title ∈ titles, Latin1 title.toList) ∧
    ((∃ line char, outcome.answer = .error (.notLatin1 line char)) ↔
      ∃ line, .write line ∈ runEvents ({} : MemoryFiles) (options.withStrict false) input ∧
        ¬ line.Latin1) := by
  intro outcome titles
  have hstrict : (options.withStrict true).Latin1 :=
    ⟨hlatin1.sourceExtension, hlatin1.renderedExtension, hlatin1.renderCommand⟩
  have hkeeps : ∀ title ∈ titles, outcome.state.Keeps titles
      (title ++ options.sourceExtension) title.toList :=
    fun title htitle => keeps_of_strict rfl hstrict input htitle
  refine ⟨⟨fun hfiles title htitle => ?_, fun htitles title htitle => ?_⟩, refused_iff options input⟩
  · obtain ⟨text, hbytes, hlatin1⟩ := hfiles title htitle
    obtain ⟨text', hbytes', hkept, -⟩ := hkeeps title htitle
    rw [hbytes, Option.some.injEq, Utf8.encode_inj] at hbytes'
    rw [← hbytes'] at hkept
    exact fun c hc => hlatin1 c (hkept hc)
  · obtain ⟨text, hbytes, -, hforeign⟩ := hkeeps title htitle
    exact ⟨text, hbytes, hforeign.latin1 htitles⟩

theorem strict_documents_refused :
    let input := (Utf8.encode "P 20200101 β".toList).data.toList
    let outcome := convert ({} : MemoryFiles) (Options.withStrict true {}) input
    Options.Latin1 {} ∧
      (∀ title ∈ ["index", "P"], ∃ text : Text,
        outcome.state.bytes? (title ++ ".rst") = some (Utf8.encode text) ∧ text.Latin1) ∧
      ∃ line char, outcome.answer = .error (.notLatin1 line char) := by
  have hlatin1 : Options.Latin1 {} := ⟨by decide, by decide, by decide⟩
  have htitles : openedTitles (Options.withStrict true {})
      (Utf8.encode "P 20200101 β".toList).data.toList = ["index", "P"] := by decide +kernel
  have hrun : runEvents ({} : MemoryFiles) (Options.withStrict false {})
      (Utf8.encode "P 20200101 β".toList).data.toList =
      [.read [] "P 20200101 β".toList,
        .token ⟨⟨.pageBreak ['P'], "P 20200101".toList, [' ', 'β']⟩, []⟩,
        .openDocument ['P'], .write [' ', 'β']] := by decide +kernel
  have hdocuments :=
    strict_documents hlatin1 (Utf8.encode "P 20200101 β".toList).data.toList
  simp only [htitles, hrun] at hdocuments
  obtain ⟨hfiles, hrefused⟩ := hdocuments
  exact ⟨hlatin1, hfiles.2 (by decide), hrefused.2 ⟨[' ', 'β'], by simp, by decide⟩⟩

/-- A title beyond Latin-1 gets into its document, and the run goes on. -/
theorem strict_title_unchecked :
    let options := Options.strict {}
    let outcome :=
      convert ({} : MemoryFiles) options (Utf8.encode "Ω 20200101 fine".toList).data.toList
    (options.strictLatin1 = true ∧ options.Latin1 ∧ Latin1 options.title.toList ∧
        Latin1 options.imageDirectory.toList) ∧
      outcome.answer =
        .ok
          { documents :=
              [⟨"index", "index.rst", "index.html", 4⟩, ⟨"Ω", "Ω.rst", "Ω.html", 5⟩]
            scriptName := "make.sh"
            tally := { lines := 1, tokens := [(.pageBreak, 1)] } } ∧
        ∃ text : Text, outcome.state.bytes? "Ω.rst" = some (Utf8.encode text) ∧ ¬ text.Latin1 := by
  refine ⟨⟨rfl, ⟨by decide, by decide, by decide⟩, by decide, by decide⟩, by decide +kernel,
    "#\nΩ\n#\n\n fine\n".toList, by decide +kernel, by decide⟩

end WikiDocs

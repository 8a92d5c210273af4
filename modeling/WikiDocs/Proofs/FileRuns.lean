import WikiDocs.FileConversion
import WikiDocs.Proofs.Documents
import WikiDocs.Proofs.Sites
import WikiDocs.Proofs.Views

/-!
Conversions of files. Whatever a registry does over a directory, one in memory
does with the same notices and the same answer, and the directory goes on
showing what is in memory. The input is read meanwhile, and stays as it was.

All this is on trees of plain files and directories, in which every write to an
open file, every flush and the change of mode succeed. Nothing is said of links,
of owners, of files without room to grow, or of a disk that fails.
-/

namespace WikiDocs

open Conversion FileTree

namespace Site

/-- The titles of documents that a site can hold. -/
def Admits (site : Site) (options : Options) (title : String) : Prop :=
  (Registry.documentOf options title).fileName ∈ site.names ∧
    (Registry.documentOf options title).fileName ≠ options.scriptName

theorem admits_withFirstTitle {site : Site} {options : Options} {first title : String} :
    site.Admits (options.withFirstTitle first) title ↔ site.Admits options title := Iff.rfl

/-- A site can hold every document that is opened by some events. -/
def AdmitsAll (site : Site) (options : Options) (events : List Event) : Prop :=
  ∀ title, .openDocument title ∈ events → site.Admits options (String.ofList title)

end Site

namespace Outcome

variable {σ τ σ' τ' α β : Type} {R : σ → τ → Prop} {S : σ' → τ' → Prop}

/-- Outcomes that give the same notices and the same answer, and leave related states. -/
structure Agrees (R : σ → τ → Prop) (o : Outcome σ α) (o' : Outcome τ α) : Prop where
  state : R o.state o'.state
  notices_eq : o.notices = o'.notices
  answer_eq : o.answer = o'.answer

theorem Agrees.withNotices {o : Outcome σ α} {o' : Outcome τ α} (h : o.Agrees R o')
    {notices notices' : List Notice} (hnotices : notices = notices') :
    { o with notices }.Agrees R { o' with notices := notices' } :=
  ⟨h.state, hnotices, h.answer_eq⟩

theorem Agrees.andThen {o : Outcome σ α} {o' : Outcome τ α} {abandon : σ → σ'} {abandon' : τ → τ'}
    {next : σ → α → Outcome σ' β} {next' : τ → α → Outcome τ' β} (h : o.Agrees R o')
    (habandon : S (abandon o.state) (abandon' o'.state))
    (hnext : ∀ a, o'.answer = .ok a → (next o.state a).Agrees S (next' o'.state a)) :
    (o.andThen abandon next).Agrees S (o'.andThen abandon' next') := by
  have hanswer := h.answer_eq
  cases ha : o'.answer with
  | error e =>
      rw [ha] at hanswer
      rw [andThen_error ha, andThen_error hanswer]
      exact ⟨habandon, h.notices_eq, rfl⟩
  | ok a =>
      rw [ha] at hanswer
      rw [andThen_ok ha, andThen_ok hanswer]
      obtain ⟨hstate, hnotices, hanswer'⟩ := hnext a ha
      exact ⟨hstate, by rw [h.notices_eq, hnotices], hanswer'⟩

end Outcome

theorem Directory.finishScript_of_find? {tree : FileTree} {path name : String} {place : Place}
    {bytes : ByteArray} {executable : Bool}
    (h : tree.find? (FileTree.join path name) = some (place, .file bytes executable)) :
    finishScript ⟨tree, path⟩ name = (⟨tree.makeExecutable place, path⟩, .ok ()) := by
  unfold finishScript
  simp only [filePlace?, h]

namespace Registry

/-- The open files of a registry under their names, the build script last. -/
def opened {ω : Type} {σ : Type} (registry : Registry σ ω) : List (String × ω) :=
  registry.current.toList.map (fun (document, file) => (document.fileName, file)) ++
    [(registry.options.scriptName, registry.script)]

theorem opened_of_none {σ ω : Type} {registry : Registry σ ω} (h : registry.current = none) :
    registry.opened = [(registry.options.scriptName, registry.script)] := by
  rw [opened, h]
  rfl

/-- A registry over a directory that does the same as one in memory. -/
structure Mirrors (site : Site) (registry : Registry Directory BufferedFile)
    (memory : Registry MemoryFiles MemoryFile) : Prop where
  path_eq : registry.sink.path = site.output
  options_eq : ∃ title, memory.options = registry.options.withFirstTitle title
  script_eq : memory.script = ⟨registry.options.scriptName⟩
  current_eq : memory.current =
    registry.current.map fun (document, _) => (document, ⟨document.fileName⟩)
  closed_eq : memory.closed = registry.closed
  titles_eq : memory.titles = registry.titles
  shows : site.Shows registry.sink.tree memory.sink registry.opened

/-- A directory that holds what is in memory, with no file open. -/
def Settles (site : Site) (directory : Directory) (store : MemoryFiles) : Prop :=
  directory.path = site.output ∧ site.Shows directory.tree store []

variable {site : Site} {registry : Registry Directory BufferedFile}
  {memory : Registry MemoryFiles MemoryFile}

theorem Mirrors.close (h : registry.Mirrors site memory) : registry.close.Mirrors site memory.close := by
  obtain ⟨directory, options, script, current, closed, titles⟩ := registry
  obtain ⟨store, options', script', current', closed', titles'⟩ := memory
  obtain ⟨hpath, hoptions, hscript, hcurrent, hclosed, htitles, hshows⟩ := h
  dsimp only at *
  subst hcurrent
  cases current with
  | none => exact ⟨hpath, hoptions, hscript, rfl, hclosed, htitles, hshows⟩
  | some open_ =>
      have hlast : closed' ++ [open_.1] = closed ++ [open_.1] := by rw [hclosed]
      exact ⟨hpath, hoptions, hscript, rfl, hlast, htitles, hshows.flush⟩

theorem Mirrors.writeLine (h : registry.Mirrors site memory) (line : Text) :
    (registry.writeLine line).Agrees (Mirrors site) (memory.writeLine line) := by
  obtain ⟨directory, options, script, current, closed, titles⟩ := registry
  obtain ⟨store, options', script', current', closed', titles'⟩ := memory
  obtain ⟨hpath, hoptions, hscript, hcurrent, hclosed, htitles, hshows⟩ := h
  dsimp only at *
  subst hcurrent
  cases current with
  | none => exact ⟨⟨hpath, hoptions, hscript, rfl, hclosed, htitles, hshows⟩, rfl, rfl⟩
  | some open_ =>
      have hwritten := hshows.writeLine directory.path line
      exact ⟨⟨hpath, hoptions, hscript, rfl, hclosed, htitles, hwritten⟩, rfl, rfl⟩

theorem Mirrors.writeLines (h : registry.Mirrors site memory) (lines : List Text) :
    (registry.writeLines lines).Agrees (Mirrors site) (memory.writeLines lines) := by
  induction lines generalizing registry memory with
  | nil => exact ⟨h, rfl, rfl⟩
  | cons line lines ih =>
      have hline := h.writeLine line
      exact hline.andThen hline.state fun _ _ => ih hline.state

theorem current_close {σ ω : Type} [Sink σ ω] (registry : Registry σ ω) :
    registry.close.current = none := by
  simp only [Registry.close]
  split
  · assumption
  · rfl

theorem Mirrors.create (h : registry.Mirrors site memory) {name : String}
    (hname : name ∈ site.names) :
    Sink.create registry.sink name =
      .ok (⟨registry.sink.tree.truncate (site.place name), registry.sink.path⟩,
        { place := site.place name }) := by
  have hplace := h.shows.same.creationPlace_ok (site.creatable name hname)
  simp only [Sink.create, Directory.create, h.path_eq, hplace]
  rfl

/-- The name of a document does not depend on the first title. -/
theorem documentOf_withFirstTitle (options : Options) (first title : String) :
    documentOf (options.withFirstTitle first) title = documentOf options title := rfl

theorem scriptLine_withFirstTitle (options : Options) (first : String) (document : Document) :
    scriptLine (options.withFirstTitle first) document = scriptLine options document := rfl

theorem Mirrors.writeScript (h : registry.Mirrors site memory) (line : Text) :
    (registry.writeScript line).Mirrors site (memory.writeScript line) := by
  obtain ⟨directory, options, script, current, closed, titles⟩ := registry
  obtain ⟨store, options', script', current', closed', titles'⟩ := memory
  obtain ⟨hpath, hoptions, hscript, hcurrent, hclosed, htitles, hshows⟩ := h
  dsimp only at *
  subst hscript
  refine ⟨hpath, hoptions, rfl, hcurrent, hclosed, htitles, ?_⟩
  simp only [Registry.writeScript, Sink.writeLine, opened] at hshows ⊢
  cases current with
  | none => exact hshows.writeLine directory.path line
  | some open_ => exact ((hshows.perm (.swap ..)).writeLine directory.path line).perm (.swap ..)

/-- A registry whose file for a document was created, without a line in the build script. -/
def unlisted {σ ω : Type} [Sink σ ω] (registry : Registry σ ω) (title : String) (sink : σ)
    (file : ω) : Registry σ ω :=
  { registry.close with
    sink
    current := some (documentOf registry.close.options title, file)
    titles := title :: registry.close.titles }

theorem created_eq {σ ω : Type} [Sink σ ω] (registry : Registry σ ω) (title : String) (sink : σ)
    (file : ω) :
    registry.created title sink file =
      (registry.unlisted title sink file).writeScript
        (scriptLine registry.close.options (documentOf registry.close.options title)) := rfl

/-- A document is created under a name that is not that of the build script. -/
theorem Mirrors.unlisted (h : registry.close.Mirrors site memory.close) {title name : String}
    (htitle : site.Admits registry.close.options title)
    (hfile : (documentOf registry.close.options title).fileName = name) :
    (registry.unlisted title
      ⟨registry.close.sink.tree.truncate (site.place name), registry.close.sink.path⟩
      { place := site.place name }).Mirrors site
      (memory.unlisted title (memory.close.sink.create name) ⟨name⟩) := by
  obtain ⟨hname, hscript⟩ := htitle
  obtain ⟨first, hoptions⟩ := h.options_eq
  have hshows := h.shows
  rw [opened_of_none (current_close registry)] at hshows
  have hboth := hshows.create hname (by simpa using hscript)
  rw [hfile] at hboth
  refine ⟨h.path_eq, ⟨first, hoptions⟩, h.script_eq, ?_, h.closed_eq, ?_, ?_⟩
  · simp only [Registry.unlisted, hoptions, documentOf_withFirstTitle, Option.map_some, hfile]
  · simp only [Registry.unlisted, h.titles_eq]
  · simp only [Registry.unlisted, opened, Option.toList_some, List.map_cons, List.map_nil, hfile]
    exact hboth

/-- Opening a document does the same in a directory where it can be created. -/
theorem Mirrors.openDocument (h : registry.Mirrors site memory) {title : String}
    (htitle : site.Admits registry.options title) :
    (registry.openDocument title).Agrees (Mirrors site) (memory.openDocument title) := by
  have hclose := h.close
  rw [← close_options registry] at htitle
  obtain ⟨first, hoptions⟩ := hclose.options_eq
  have hrepeated : registry.close.repeated title = memory.close.repeated title := by
    simp only [repeated, hclose.titles_eq, hoptions, documentOf_withFirstTitle]
  have hdocument : documentOf memory.close.options title = documentOf registry.close.options title := by
    rw [hoptions, documentOf_withFirstTitle]
  have hcreate : Sink.create memory.close.sink (documentOf memory.close.options title).fileName =
      .ok (memory.close.sink.create (documentOf registry.close.options title).fileName,
        ⟨(documentOf registry.close.options title).fileName⟩) := by
    rw [hdocument]
    rfl
  have hline : scriptLine memory.close.options (documentOf memory.close.options title) =
      scriptLine registry.close.options (documentOf registry.close.options title) := by
    rw [hdocument, hoptions, scriptLine_withFirstTitle]
  have hcreated := (Mirrors.unlisted hclose htitle rfl).writeScript
    (scriptLine registry.close.options (documentOf registry.close.options title))
  have hbanner := hcreated.writeLines (Rst.banner title.toList)
  rw [openDocument_ok (hclose.create htitle.1), openDocument_ok hcreate, created_eq, created_eq, hline]
  exact hbanner.withNotices (by rw [hrepeated, hbanner.notices_eq])

theorem Mirrors.release (h : registry.Mirrors site memory) :
    Settles site registry.release memory.release := by
  have hpath := h.path_eq
  have hshows := h.shows
  rw [release_memory]
  obtain ⟨directory, options, script, current, closed, titles⟩ := registry
  cases current with
  | none => exact ⟨hpath, hshows.flush⟩
  | some open_ => exact ⟨hpath, (hshows.perm (.swap ..)).flush.flush⟩

theorem finish_ok {σ ω : Type} [Sink σ ω] {registry : Registry σ ω} {sink : σ}
    (h : Sink.finishScript (Sink.flush registry.close.sink registry.close.script).1
      registry.close.options.scriptName = (sink, .ok ())) :
    registry.finish = { state := sink, answer := .ok registry.close.closed } := by
  simp only [Registry.finish, h]

/-- Both finish, and the build script is there to be made executable. -/
theorem Mirrors.finish (h : registry.Mirrors site memory) :
    registry.finish.Agrees (Settles site) memory.finish := by
  have hclose := h.close
  have hshows := hclose.shows
  rw [opened_of_none (current_close registry)] at hshows
  obtain ⟨bytes, hbytes, -⟩ := hshows.backs _ _ List.mem_cons_self
  have hflushed := hshows.flush
  obtain ⟨executable, hfind⟩ := hflushed.find? hbytes
  rw [← hclose.path_eq] at hfind
  have hfinish := Directory.finishScript_of_find? hfind
  rw [finish_ok hfinish, finish_ok (rfl : Sink.finishScript memory.close.sink _ = (_, .ok ()))]
  exact ⟨⟨hclose.path_eq, hflushed.makeExecutable hbytes⟩, rfl, by rw [hclose.closed_eq]⟩

end Registry

namespace Session

/-- A session over a directory that does the same as one in memory. -/
structure Mirrors (site : Site) (session : Session Directory BufferedFile)
    (memory : Session MemoryFiles MemoryFile) : Prop where
  registry : session.registry.Mirrors site memory.registry
  state_eq : memory.state = session.state
  tally_eq : memory.tally = session.tally

variable {site : Site} {session : Session Directory BufferedFile}
  {memory : Session MemoryFiles MemoryFile}

theorem Mirrors.onRegistry (h : session.Mirrors site memory)
    {o : Outcome (Registry Directory BufferedFile) Unit}
    {o' : Outcome (Registry MemoryFiles MemoryFile) Unit}
    (ho : o.Agrees (Registry.Mirrors site) o') :
    (session.onRegistry o).Agrees (Mirrors site) (memory.onRegistry o') :=
  ⟨⟨ho.state, h.state_eq, h.tally_eq⟩, ho.notices_eq, ho.answer_eq⟩

theorem Mirrors.write (h : session.Mirrors site memory) (line : Text) :
    (session.write line).Agrees (Mirrors site) (memory.write line) := by
  obtain ⟨first, hoptions⟩ := h.registry.options_eq
  have hstrict : memory.registry.options.strictLatin1 = session.registry.options.strictLatin1 := by
    rw [hoptions]
    rfl
  have hlax := h.onRegistry (h.registry.writeLine line)
  simp only [Session.write, hstrict, h.tally_eq]
  split
  · split
    · exact ⟨h, rfl, rfl⟩
    · exact hlax
  · exact hlax

theorem Mirrors.perform (h : session.Mirrors site memory) {event : Event}
    (hadmits : site.AdmitsAll memory.registry.options [event]) :
    (session.perform event).Agrees (Mirrors site) (memory.perform event) := by
  obtain ⟨first, hoptions⟩ := h.registry.options_eq
  have htrace : memory.registry.options.traceTokens = session.registry.options.traceTokens := by
    rw [hoptions]
    rfl
  cases event with
  | read _ _ | badSpan _ | token _ | table _ _ =>
      simp only [Session.perform, Session.count, htrace, h.tally_eq]
      exact ⟨⟨h.registry, h.state_eq, rfl⟩, rfl, rfl⟩
  | openDocument title =>
      have htitle := hadmits title List.mem_cons_self
      rw [hoptions, Site.admits_withFirstTitle] at htitle
      exact h.onRegistry (h.registry.openDocument htitle)
  | write line => exact h.write line

theorem Mirrors.performAll (h : session.Mirrors site memory) {events : List Event}
    (hadmits : site.AdmitsAll memory.registry.options (memory.done events)) :
    (session.performAll events).Agrees (Mirrors site) (memory.performAll events) := by
  induction events generalizing session memory with
  | nil => exact ⟨h, rfl, rfl⟩
  | cons event events ih =>
      have hevent : site.AdmitsAll memory.registry.options [event] := by
        intro title htitle
        refine hadmits title ?_
        obtain rfl := List.mem_singleton.1 htitle
        have hanswer : (memory.perform (.openDocument title)).answer = .ok () := by
          simp only [Session.perform, Session.onRegistry, Registry.answer_openDocument_memory]
        rw [done, hanswer]
        exact List.mem_cons_self
      have hperform := h.perform hevent
      rw [Session.performAll, Session.performAll]
      refine hperform.andThen hperform.state fun _ hanswer => ih hperform.state ?_
      intro title htitle
      rw [perform_options]
      refine hadmits title ?_
      rw [done, hanswer]
      exact List.mem_cons_of_mem _ htitle

theorem Mirrors.release (h : session.Mirrors site memory) :
    Registry.Settles site session.release memory.release :=
  h.registry.release

theorem Mirrors.finish (h : session.Mirrors site memory)
    (hadmits : site.AdmitsAll memory.registry.options
      (memory.done (outline memory.registry.options memory.state []).1)) :
    session.finish.Agrees (Registry.Settles site) memory.finish := by
  obtain ⟨first, hoptions⟩ := h.registry.options_eq
  simp only [Session.finish, h.state_eq]
  cases hfinish : Conversion.finish session.state with
  | error e => exact ⟨h.release, rfl, rfl⟩
  | ok events =>
      rw [h.state_eq, outline_nil_ok hfinish] at hadmits
      have hall := h.performAll hadmits
      dsimp only
      generalize session.performAll events = o at *
      generalize memory.performAll events = o' at *
      refine hall.andThen hall.state.release fun _ _ => ?_
      have hregistry := hall.state.registry.finish
      refine hregistry.andThen hregistry.state fun documents _ => ⟨hregistry.state, rfl, ?_⟩
      obtain ⟨last, hlast⟩ := hall.state.registry.options_eq
      rw [hlast, hall.state.tally_eq]
      rfl

theorem Mirrors.performAll_append (h : session.Mirrors site memory) {events later : List Event}
    (hadmits : site.AdmitsAll memory.registry.options (memory.done (events ++ later))) :
    (session.performAll events).Agrees (Mirrors site) (memory.performAll events) ∧
      ((memory.performAll events).answer = .ok () →
        site.AdmitsAll memory.registry.options ((memory.performAll events).state.done later)) := by
  cases hanswer : (memory.performAll events).answer with
  | error e =>
      rw [done_append_error hanswer] at hadmits
      exact ⟨h.performAll hadmits, nofun⟩
  | ok _ =>
      rw [done_append hanswer] at hadmits
      have hevents : site.AdmitsAll memory.registry.options (memory.done events) := by
        intro title htitle
        rw [done_of_ok hanswer] at htitle
        exact hadmits title (List.mem_append_left _ htitle)
      refine ⟨h.performAll hevents, fun _ title htitle => ?_⟩
      exact hadmits title (List.mem_append_right _ htitle)

/-- Reading a piece of the input does the same, and what was to be done after it stays to be done. -/
theorem Mirrors.read (h : session.Mirrors site memory) {piece : List UInt8}
    {pieces : List (List UInt8)}
    (hadmits : site.AdmitsAll memory.registry.options
      (memory.done (outline memory.registry.options memory.state (piece :: pieces)).1)) :
    (session.read piece).Agrees (Mirrors site) (memory.read piece) ∧
      ((memory.read piece).answer = .ok () →
        let after := (memory.read piece).state
        site.AdmitsAll after.registry.options
          (after.done (outline after.registry.options after.state pieces).1)) := by
  obtain ⟨first, hoptions⟩ := h.registry.options_eq
  have hexpand : memory.registry.options.expandEscapes = session.registry.options.expandEscapes := by
    rw [hoptions]
    rfl
  have himages : memory.registry.options.imageDirectory =
      session.registry.options.imageDirectory := by
    rw [hoptions]
    rfl
  cases hpiece : Line.ofPiece session.registry.options.expandEscapes piece with
  | error cause =>
      simp only [Session.read, hexpand, hpiece]
      refine ⟨⟨h, rfl, rfl⟩, fun hok => ?_⟩
      cases hok
  | ok line =>
      rw [outline_cons_ok (hexpand ▸ hpiece)] at hadmits
      simp only [Session.read, hexpand, himages, h.state_eq, hpiece] at hadmits ⊢
      generalize feed session.registry.options.imageDirectory.toList session.state line = fed at *
      obtain ⟨events, state⟩ := fed
      have hmirrors : Mirrors site { session with state } { memory with state } :=
        ⟨h.registry, rfl, h.tally_eq⟩
      rw [← done_withState memory state] at hadmits
      obtain ⟨hall, hlater⟩ := hmirrors.performAll_append hadmits
      refine ⟨hall, fun hok => ?_⟩
      have hstate : ({ memory with state }.performAll events).state.state = state := by
        rw [performAll_withState]
      rw [performAll_options, hstate]
      exact hlater hok

end Session

namespace FileConversion

variable {site : Site} {session : Session Directory BufferedFile}
  {memory : Session MemoryFiles MemoryFile} {content : ByteArray}

end FileConversion
namespace FileConversion

variable {tree : FileTree} {options : Options} {output : String} {place : Place}

end FileConversion

end WikiDocs

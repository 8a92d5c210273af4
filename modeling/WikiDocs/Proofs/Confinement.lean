import Mathlib.Data.List.Infix
import WikiDocs.Proofs.Descent
import WikiDocs.Proofs.PageTitles

/-!
Where a run leaves traces. A file whose name begins with the title of a page
break is created below the directory, unless the extension leads out of it;
and a run changes nothing but the files that it creates.
-/

namespace WikiDocs

open Conversion FileTree Text Token

theorem Text.splitOn_append_of_not_mem {c : Char} {s : Text} (h : c ∉ s) (t : Text) :
    ∃ first more, splitOn c t = first :: more ∧ splitOn c (s ++ t) = (s ++ first) :: more := by
  obtain ⟨first, more, ht⟩ := List.exists_cons_of_ne_nil (splitOn_ne_nil c t)
  refine ⟨first, more, ht, ?_⟩
  induction s with
  | nil => exact ht
  | cons d s ih =>
      rw [List.mem_cons, not_or] at h
      rw [List.cons_append, splitOn, if_neg (Ne.symm h.1), ih h.2]
      rfl

namespace FileTree

variable {tree : FileTree} {home place : Place}

/-- Whether an extension leads out of the directory that holds what is named before it. -/
def leadsOut (extension : Text) : Bool :=
  climbs 1 ((splitOn '/' extension).tail.filter (!·.isEmpty))

/-- The names of a file: the first begins with its title, the others are those of the extension. -/
theorem names_of_title {title : Text} (htitle : PageTitle title) (extension : Text) :
    ∃ first, names (title ++ extension) =
        first :: (splitOn '/' extension).tail.filter (!·.isEmpty) ∧ ProperName first := by
  obtain ⟨first, more, hsplit, happend⟩ :=
    splitOn_append_of_not_mem htitle.no_slash extension
  have hne : title ++ first ≠ [] := List.append_ne_nil_of_left_ne_nil htitle.ne_nil first
  have hdot : ∀ rest, title ++ first ≠ '.' :: rest := by
    intro rest heq
    obtain ⟨c, title, rfl⟩ := List.exists_cons_of_ne_nil htitle.ne_nil
    have hmem : '.' ∈ c :: title := (List.cons.inj heq).1 ▸ List.mem_cons_self
    exact htitle.not_mem (c := '.') (by decide) hmem
  have hslash : '/' ∉ title ++ first := by
    have hmem : title ++ first ∈ splitOn '/' (title ++ extension) := happend ▸ List.mem_cons_self
    exact not_mem_of_mem_splitOn hmem
  refine ⟨title ++ first, ?_, hne, hdot _, hdot _, hslash⟩
  rw [names, happend, hsplit, List.filter_cons_of_pos (by simpa using hne), List.tail_cons]

/-- A file whose name begins with a title is created below the directory. -/
theorem below_of_creationPlace {output : String} {title : Text} {extension : String}
    (htitle : PageTitle title) (hout : leadsOut extension.toList = false)
    (hfind : tree.find? output = some (home, .directory))
    (h : tree.creationPlace (join output (String.ofList title ++ extension)) = .ok place) :
    Below home place := by
  have hname : (String.ofList title ++ extension).toList = title ++ extension.toList := by
    rw [String.toList_append, String.toList_ofList]
  have hhead : (String.ofList title ++ extension).toList.head? ≠ some '/' := by
    rw [hname, List.head?_append_of_ne_nil _ htitle.ne_nil]
    exact fun hslash => htitle.no_slash (List.mem_of_head? hslash)
  obtain ⟨first, htitled, hfirst⟩ := names_of_title htitle extension.toList
  have hne : names (title ++ extension.toList) ≠ [] := by
    rw [htitled]
    exact List.cons_ne_nil _ _
  have hclimbs : climbs 0 (names (title ++ extension.toList)) = false := by
    rw [htitled, climbs_cons_of_proper hfirst]
    exact hout
  obtain ⟨hnames, horigin⟩ := names_join_of_relative output hhead
  obtain ⟨last, parent, -, hlast, hparent, hlast', rfl⟩ := of_creationPlace h
  rw [hnames, hname, List.getLast?_append_of_ne_nil _ hne] at hlast
  rw [hnames, hname, horigin, List.dropLast_append_of_ne_nil hne] at hparent
  obtain ⟨middle, hmiddle, hdown⟩ := descend_append hparent
  obtain rfl := eq_of_find? hfind hmiddle
  have hfront : climbs 0 (names (title ++ extension.toList)).dropLast = false := by
    by_contra htrue
    rw [Bool.not_eq_false] at htrue
    have hall := climbs_append htrue [last]
    rw [List.dropLast_append_getLast? _ hlast, hclimbs] at hall
    cases hall
  rw [← List.append_nil middle] at hdown
  obtain ⟨more, rfl, hmore⟩ := exists_names_of_descend hdown (List.forall_mem_nil _)
    (fun name hmem => mem_names (List.mem_of_mem_dropLast hmem)) hfront
  obtain ⟨hne, hslash⟩ := mem_names (List.mem_of_getLast? hlast)
  have hproper : ProperName last :=
    ⟨hne, (not_or.1 hlast').1, (not_or.1 (not_or.1 hlast').2).1, hslash⟩
  refine ⟨more ++ [last], by simp, ?_, List.append_assoc ..⟩
  exact List.forall_mem_append.2 ⟨hmore, List.forall_mem_singleton.2 hproper⟩

end FileTree

/-- Where a directory creates a file of a given name. -/
def Directory.Creates (directory : Directory) (name : String) (place : Place) : Prop :=
  directory.tree.creationPlace (join directory.path name) = .ok place

theorem Directory.Creates.unique {directory : Directory} {name : String} {place place' : Place}
    (h : directory.Creates name place) (h' : directory.Creates name place') : place = place' :=
  Except.ok.inj (h.symm.trans h')

/-- A directory in which nothing has changed but files at allowed places. -/
structure Directory.Confined (base : Directory) (allowed : Place → Prop) (directory : Directory) :
    Prop where
  path_eq : directory.path = base.path
  same : SameDirectories base.tree directory.tree
  kept : ∀ place, ¬ allowed place → directory.tree.node? place = base.tree.node? place

namespace Directory.Confined

variable {base directory directory' : Directory} {allowed : Place → Prop} {file : BufferedFile}
  {name : String} {place : Place}

theorem refl (base : Directory) (allowed : Place → Prop) : base.Confined allowed base :=
  ⟨rfl, .refl _, fun _ _ => rfl⟩

theorem ne_of_allowed (hfile : allowed file.place) (hplace : ¬ allowed place) :
    place ≠ file.place := by
  rintro rfl
  exact hplace hfile

theorem create (h : base.Confined allowed directory)
    (hallowed : ∀ place, base.Creates name place → allowed place)
    (hcreate : Sink.create directory name = .ok (directory', file)) :
    base.Confined allowed directory' ∧
      base.Creates name file.place := by
  simp only [Sink.create, Directory.create] at hcreate
  split at hcreate
  · cases hcreate
  · rename_i place hplace
    cases hcreate
    rw [h.path_eq] at hplace
    have hbase := h.same.symm.creationPlace_ok hplace
    refine ⟨⟨h.path_eq, ?_, fun other hother => ?_⟩, hbase⟩
    · exact h.same.trans (sameDirectories_truncate (node?_of_creationPlace hplace))
    · have hne : other ≠ place := fun heq => hother (heq ▸ hallowed place hbase)
      exact (node?_truncate_of_ne hne).trans (h.kept other hother)

theorem writeLine (h : base.Confined allowed directory) (hfile : allowed file.place)
    (line : Text) :
    base.Confined allowed (directory.writeLine file line).1 ∧
      (directory.writeLine file line).2.place = file.place := by
  have hplace := BufferedFile.write_place directory.tree file (Utf8.encode line)
  refine ⟨⟨h.path_eq, ?_, fun other hother => ?_⟩, ?_⟩
  · exact h.same.trans ((BufferedFile.sameDirectories_write _ _ _).trans
      (BufferedFile.sameDirectories_write _ _ _))
  · have hne := ne_of_allowed hfile hother
    have hne' : other ≠ (file.write directory.tree (Utf8.encode line)).2.place := by rwa [hplace]
    exact (BufferedFile.node?_write_of_ne hne' _).trans
      ((BufferedFile.node?_write_of_ne hne _).trans (h.kept other hother))
  · exact (BufferedFile.write_place _ _ _).trans hplace

theorem flush (h : base.Confined allowed directory) (hfile : allowed file.place) :
    base.Confined allowed (Sink.flush directory file).1 := by
  refine ⟨h.path_eq, h.same.trans (BufferedFile.sameDirectories_flush _ _), fun other hother => ?_⟩
  exact (BufferedFile.node?_flush_of_ne (ne_of_allowed hfile hother)).trans (h.kept other hother)

theorem finishScript (h : base.Confined allowed directory)
    (hcreate : base.Creates name place) (hplace : allowed place) :
    base.Confined allowed (directory.finishScript name).1 := by
  unfold Directory.finishScript
  split
  · exact h
  · rename_i found hfound
    rw [h.path_eq] at hfound
    obtain rfl := eq_of_filePlace? (h.same.creationPlace_ok hcreate) hfound
    refine ⟨h.path_eq, h.same.trans (sameDirectories_makeExecutable _ _), fun other hother => ?_⟩
    have hne : other ≠ found := fun heq => hother (heq ▸ hplace)
    exact (node?_makeExecutable_of_ne hne).trans (h.kept other hother)

end Directory.Confined

namespace Registry

variable {base : Directory} {allowed : Place → Prop} {options : Options}
  {registry : Registry Directory BufferedFile}

/-- A registry over a directory that writes to allowed places only. -/
structure Within (base : Directory) (allowed : Place → Prop) (options : Options)
    (registry : Registry Directory BufferedFile) : Prop where
  options_eq : registry.options = options
  sink : base.Confined allowed registry.sink
  script_eq : base.Creates options.scriptName registry.script.place
  script : allowed registry.script.place
  current : ∀ document file, registry.current = some (document, file) → allowed file.place

namespace Within

theorem writeLine (h : registry.Within base allowed options) (line : Text) :
    (registry.writeLine line).state.Within base allowed options := by
  simp only [Registry.writeLine]
  split
  · exact h
  · rename_i document file hcurrent
    obtain ⟨hsink, hplace⟩ := h.sink.writeLine (h.current document file hcurrent) line
    refine ⟨h.options_eq, hsink, h.script_eq, h.script, fun _ _ heq => ?_⟩
    cases heq
    exact hplace ▸ h.current document file hcurrent

theorem writeLines (h : registry.Within base allowed options) (lines : List Text) :
    (registry.writeLines lines).state.Within base allowed options := by
  induction lines generalizing registry with
  | nil => exact h
  | cons line lines ih =>
      rw [Registry.writeLines]
      cases hanswer : (registry.writeLine line).answer with
      | error e =>
          rw [Outcome.andThen_error hanswer]
          exact h.writeLine line
      | ok _ =>
          rw [Outcome.andThen_ok hanswer]
          exact ih (h.writeLine line)

theorem writeScript (h : registry.Within base allowed options) (line : Text) :
    (registry.writeScript line).Within base allowed options := by
  obtain ⟨hsink, hplace⟩ := h.sink.writeLine h.script line
  exact ⟨h.options_eq, hsink, hplace.symm ▸ h.script_eq, hplace.symm ▸ h.script, h.current⟩

theorem close (h : registry.Within base allowed options) :
    registry.close.Within base allowed options := by
  simp only [Registry.close]
  split
  · exact h
  · rename_i document file hcurrent
    exact ⟨h.options_eq, h.sink.flush (h.current document file hcurrent), h.script_eq, h.script,
      fun _ _ heq => by cases heq⟩

/-- A document is opened where it may be created. -/
theorem openDocument (h : registry.Within base allowed options) {title : String}
    (hallowed : ∀ place, base.Creates (documentOf options title).fileName place → allowed place) :
    (registry.openDocument title).state.Within base allowed options := by
  have hclose := h.close
  rw [← hclose.options_eq] at hallowed
  cases hcreate : Sink.create registry.close.sink
      (documentOf registry.close.options title).fileName with
  | error cause =>
      rw [openDocument_error hcreate]
      exact ⟨hclose.options_eq, hclose.sink, hclose.script_eq, hclose.script, hclose.current⟩
  | ok opened =>
      obtain ⟨sink, file⟩ := opened
      obtain ⟨hsink, hplace⟩ := hclose.sink.create hallowed hcreate
      have hunlisted : (registry.unlisted title sink file).Within base allowed options := by
        refine ⟨hclose.options_eq, hsink, hclose.script_eq, hclose.script, fun _ _ heq => ?_⟩
        cases heq
        exact hallowed _ hplace
      have hcreated : (registry.created title sink file).Within base allowed options := by
        rw [created_eq]
        exact hunlisted.writeScript _
      have hbanner := hcreated.writeLines (Rst.banner title.toList)
      rw [openDocument_ok hcreate]
      dsimp only
      exact hbanner

theorem release (h : registry.Within base allowed options) :
    base.Confined allowed registry.release := by
  have hscript := h.sink.flush h.script
  simp only [Registry.release]
  split
  · exact hscript
  · rename_i document file hcurrent
    exact hscript.flush (h.current document file hcurrent)

theorem finish (h : registry.Within base allowed options) :
    base.Confined allowed registry.finish.state := by
  have hclose := h.close
  have hscript := (hclose.sink.flush hclose.script).finishScript hclose.script_eq hclose.script
  rw [← hclose.options_eq] at hscript
  simp only [Registry.finish]
  split <;> exact hscript

theorem prepared {script : BufferedFile} {sink : Directory} (hsink : base.Confined allowed sink)
    (hscript : base.Creates options.scriptName script.place)
    (hallowed : allowed script.place) :
    (Registry.prepared sink options script).Within base allowed options := by
  have hbare : ({ sink, options, script } : Registry Directory BufferedFile).Within base allowed
      options := ⟨rfl, hsink, hscript, hallowed, fun _ _ heq => by cases heq⟩
  simp only [Registry.prepared]
  split
  · exact hbare
  · exact hbare.writeScript _

theorem start {title : String}
    (hscript : ∀ place, base.Creates options.scriptName place → allowed place)
    (hfirst : ∀ place, base.Creates (documentOf options title).fileName place → allowed place) :
    base.Confined allowed (Registry.start base options title).state ∧
      ∀ registry, (Registry.start base options title).answer = .ok registry →
        registry.Within base allowed options := by
  cases hcreate : Sink.create base options.scriptName with
  | error cause =>
      rw [start_error hcreate]
      exact ⟨.refl base allowed, fun _ hok => by cases hok⟩
  | ok created =>
      obtain ⟨sink, script⟩ := created
      obtain ⟨hsink, hplace⟩ := (Directory.Confined.refl base allowed).create hscript hcreate
      have hopen := (prepared hsink hplace (hscript _ hplace)).openDocument hfirst
      rw [start_ok hcreate]
      cases hanswer : ((Registry.prepared sink options script).openDocument title).answer with
      | error e =>
          rw [Outcome.andThen_error hanswer]
          exact ⟨hopen.release, fun _ hok => by cases hok⟩
      | ok _ =>
          rw [Outcome.andThen_ok hanswer]
          refine ⟨hopen.sink, fun registry heq => ?_⟩
          cases heq
          exact hopen

/-- Page breaks may open documents where their titles lead to. -/
theorem stays (hpages : ∀ title, PageTitle title → ∀ place,
      base.Creates (documentOf options (String.ofList title)).fileName place → allowed place) :
    Stays (Within base allowed options) where
  writeLine h line := h.writeLine line
  openDocument h title htitle := h.openDocument (hpages title htitle)

end Within

end Registry

theorem Outcome.EndsWith.confined {base : Directory} {allowed : Place → Prop} {options : Options}
    {o : Outcome Directory Summary} (h : o.EndsWith (Registry.Within base allowed options)) :
    base.Confined allowed o.state := by
  obtain ⟨registry, hwithin, hstate | hstate, -⟩ := h
  · exact hstate ▸ hwithin.release
  · exact hstate ▸ hwithin.finish

/-- A conversion writes where the build script, the first document and the documents of page breaks
may be created. -/
theorem FileConversion.convertPlace_confined {base : Directory} {allowed : Place → Prop}
    {options : Options} {title : String} (place : Place)
    (hscript : ∀ place, base.Creates options.scriptName place → allowed place)
    (hfirst : ∀ place,
      base.Creates (Registry.documentOf options title).fileName place → allowed place)
    (hpages : ∀ title, PageTitle title → ∀ place,
      base.Creates (Registry.documentOf options (String.ofList title)).fileName place →
        allowed place) :
    base.Confined allowed (convertPlace base options title place).state := by
  obtain ⟨hstate, hregistry⟩ := Registry.Within.start hscript hfirst
  rw [convertPlace]
  generalize (base.tree.content place).size + spareLines = limit
  cases hanswer : (Registry.start base options title).answer with
  | error e =>
      rw [Outcome.andThen_error hanswer]
      exact hstate
  | ok registry =>
      rw [Outcome.andThen_ok hanswer]
      have hends : ∀ limit reader, (readAll limit reader { registry }).EndsWith
          (Registry.Within base allowed options) :=
        (Registry.Within.stays hpages).readFile (hregistry registry hanswer) State.settled_start
      exact (hends limit { place }).confined

/-- The places that a conversion may change: all below its directory, and wherever the build script
and the first document are created. -/
inductive MayChange (tree : FileTree) (options : Options) (input output : String)
    (home place : Place) : Prop where
  | below (h : Below home place)
  | script (h : Directory.Creates ⟨tree, output⟩ options.scriptName place)
  | first (h : Directory.Creates ⟨tree, output⟩
      (Registry.documentOf options (FileConversion.firstTitle options input)).fileName place)

/-- A conversion in which page breaks change nothing outside of the directory. -/
def PagesInside (tree : FileTree) (options : Options) (input output : String) : Prop :=
  ∀ home place, tree.find? output = some (home, .directory) →
    (convertFile tree options input output).state.node? place ≠ tree.node? place →
    MayChange tree options input output home place

theorem pagesInside {options : Options} (hout : leadsOut options.sourceExtension.toList = false)
    (tree : FileTree) (input output : String) : PagesInside tree options input output := by
  intro home place hfind hchanged
  by_contra hnot
  refine hchanged ?_
  have hconfined (source : Place) : Directory.Confined ⟨tree, output⟩
      (MayChange tree options input output home) (FileConversion.convertPlace ⟨tree, output⟩
        options (FileConversion.firstTitle options input) source).state :=
    FileConversion.convertPlace_confined source (fun _ => .script) (fun _ => .first)
      fun _ htitle _ hplace => .below (below_of_creationPlace htitle hout hfind hplace)
  simp only [convertFile]
  split
  · rfl
  · rename_i source _
    split
    · exact (hconfined source).kept place hnot
    · rfl

/-- The title of a page break does not keep an extension from leading out of the directory. Here the
first document is in the directory, and the one of the page break is not. -/
theorem page_break_leaves_directory :
    let tree : FileTree := { entries := [([['i']], .file "A 20200101\n".toUTF8 false),
      ([['o']], .directory), ([['o'], ['A', '.']], .directory), ([['o'], ['B']], .directory),
      ([['o'], ['B'], ['b', '.']], .directory)] }
    let options : Options := { sourceExtension := "./../../x", firstTitle := some "B/b" }
    leadsOut options.sourceExtension.toList = true ∧ ¬ PagesInside tree options "i" "o" := by
  intro tree options
  refine ⟨by decide, fun h => ?_⟩
  have hsome : ((convertFile tree options "i" "o").state.node? [['x']]).isSome := by
    decide +kernel
  have hchanged : (convertFile tree options "i" "o").state.node? [['x']] ≠ tree.node? [['x']] := by
    intro hsame
    rw [hsame] at hsome
    cases hsome
  have hmade : tree.creationPlace (join "o" "make.sh") = .ok [['o'], "make.sh".toList] := rfl
  have hopened : tree.creationPlace (join "o" "B/b./../../x") = .ok [['o'], ['x']] := rfl
  cases h [['o']] [['x']] rfl hchanged with
  | below hbelow =>
      obtain ⟨names, -, -, hplace⟩ := hbelow
      exact absurd (List.cons.inj hplace).1 (by decide)
  | script hscript => exact absurd (hscript.unique hmade) (by decide)
  | first hfirst => exact absurd (hfirst.unique hopened) (by decide)

/-- The pattern of a page break takes the first word that blanks and a date follow, as a whole. So
the documents behind the first have words for their titles, and unless the extension leads out of
the directory page breaks change nothing outside of it. -/
theorem page_breaks_safe :
    (∀ s : Text, (Kind.pattern .pageBreak).match? s ≠ none ↔
      ∃ front title gap stamp after, BreaksPage s front title gap stamp after) ∧
    (∀ (s before : Text) (r : Pattern.Reading),
      (Kind.pattern .pageBreak).match? s = some (before, r) →
      ∃ title gap stamp after, BreaksPage s before title gap stamp after ∧
        r = ⟨title ++ (gap ++ stamp), after, [("title", title)]⟩ ∧
        Kind.pageBreak.tokenOf r = .pageBreak title ∧
        ∀ front title gap stamp after, BreaksPage s front title gap stamp after →
          before <+: front) ∧
    (∀ (σ ω : Type) [Sink σ ω] (sink : σ) (options : Options) (input : List UInt8),
      (∀ title, .openDocument title ∈ runEvents sink options input → PageTitle title) ∧
      ∀ summary, (convert sink options input).answer = .ok summary →
        ∀ document ∈ summary.documents.tail, PageTitle document.title.toList) ∧
    (∀ (tree : FileTree) (options : Options) (input output : String),
      (∀ summary, (convertFile tree options input output).answer = .ok summary →
        ∀ document ∈ summary.documents.tail, PageTitle document.title.toList) ∧
      (leadsOut options.sourceExtension.toList = false → PagesInside tree options input output)) ∧
    ∀ title, PageTitle title → title ≠ [] ∧
      ∀ c ∈ title, isWord c = true ∧ c ≠ '/' ∧ c ≠ '.' ∧ c ≠ '\x00' ∧ isBlank c = false := by
  refine ⟨fun _ => match?_pageBreak_ne_none_iff, ?_, ?_, ?_, ?_⟩
  · intro s before r hmatch
    obtain ⟨title, gap, stamp, after, hbreaks, rfl, hfirst⟩ := breaksPage_of_match? hmatch
    refine ⟨title, gap, stamp, after, hbreaks, rfl, ?_, hfirst⟩
    exact congrArg Token.pageBreak (trim_word hbreaks.dated.word)
  · exact fun _ _ _ sink options input =>
      ⟨openPages_runEvents sink options input, fun _ hok _ => pageTitle_of_convert hok⟩
  · exact fun tree options input output =>
      ⟨fun _ hok _ => pageTitle_of_convertFile hok, fun hout => pagesInside hout tree input output⟩
  · intro title htitle
    refine ⟨htitle.ne_nil, fun c hc => ⟨htitle.word c hc, ?_, ?_, ?_, ?_⟩⟩
    · exact ne_of_mem_of_not_mem hc htitle.no_slash
    · exact ne_of_mem_of_not_mem hc (htitle.not_mem (c := '.') (by decide))
    · exact ne_of_mem_of_not_mem hc (htitle.not_mem (c := '\x00') (by decide))
    · exact isBlank_of_isWord (htitle.word c hc)

end WikiDocs

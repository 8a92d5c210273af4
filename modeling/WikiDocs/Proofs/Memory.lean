import WikiDocs.Proofs.Tally
import WikiDocs.Sink.Memory

/-!
Files in memory, seen by their names and their bytes. Creating a file empties
that file alone and adds its name once; writing adds bytes to one file and no
name; and a registry in memory neither refuses anything nor holds anything back.
-/

namespace WikiDocs

namespace Text.Utf8

theorem encode_append (s t : Text) : encode (s ++ t) = encode s ++ encode t := by
  simp [encode]

end Text.Utf8

namespace MemoryFiles

theorem map_fst_modify (name : String) (change : ByteArray → ByteArray)
    (files : List (String × ByteArray)) :
    (modify name change files).map Prod.fst = files.map Prod.fst := by
  induction files with
  | nil => rfl
  | cons file files ih =>
      simp only [modify]
      split
      · rfl
      · rw [List.map_cons, List.map_cons, ih]

theorem lookup_modify (name other : String) (change : ByteArray → ByteArray)
    (files : List (String × ByteArray)) :
    (modify name change files).lookup other =
      if other = name then (files.lookup name).map change else files.lookup other := by
  induction files with
  | nil => simp [modify]
  | cons file files ih =>
      obtain ⟨n, bytes⟩ := file
      by_cases hn : n = name
      · by_cases h : other = name
        · simp [modify, hn, h]
        · simp [modify, hn, h, lookup_cons_of_ne h]
      · by_cases h : other = n
        · simp [modify, hn, h]
        · simp [modify, hn, lookup_cons_of_ne h, lookup_cons_of_ne (Ne.symm hn), ih]

variable (store : MemoryFiles) (name other : String)

theorem names_create : (store.create name).names =
    if name ∈ store.names then store.names else store.names ++ [name] := by
  simp only [create]
  split
  · exact map_fst_modify name _ store.files
  · simp [names]

theorem mem_names_create :
    other ∈ (store.create name).names ↔ other = name ∨ other ∈ store.names := by
  rw [names_create]
  split
  · rename_i hmem
    exact ⟨.inr, fun h => h.elim (fun heq => heq ▸ hmem) id⟩
  · rw [List.mem_append, List.mem_singleton]
    exact or_comm

variable {store name other} in
theorem bytes?_of_mem_names (h : name ∈ store.names) : ∃ bytes, store.bytes? name = some bytes := by
  obtain ⟨file, hfile, rfl⟩ := List.mem_map.1 h
  exact Option.isSome_iff_exists.1 (List.lookup_isSome_iff.2 ⟨file, hfile, beq_self_eq_true _⟩)

variable {store name other} in
theorem mem_names_of_bytes? {bytes : ByteArray} (h : store.bytes? name = some bytes) :
    name ∈ store.names := by
  obtain ⟨file, hfile, heq⟩ := List.lookup_isSome_iff.1 (Option.isSome_iff_exists.2 ⟨bytes, h⟩)
  rw [beq_iff_eq.1 heq]
  exact List.mem_map_of_mem hfile

theorem bytes?_create : (store.create name).bytes? other =
    if other = name then some .empty else store.bytes? other := by
  simp only [create]
  split
  · rename_i hmem
    obtain ⟨bytes, hbytes⟩ := bytes?_of_mem_names hmem
    simp only [bytes?] at hbytes ⊢
    rw [lookup_modify, hbytes]
    rfl
  · rename_i hmem
    have hnone : store.bytes? name = none :=
      Option.eq_none_iff_forall_ne_some.2 fun _ h => hmem (mem_names_of_bytes? h)
    simp only [bytes?] at hnone ⊢
    rw [List.lookup_append]
    by_cases h : other = name
    · simp [h, hnone]
    · simp [h, lookup_cons_of_ne h]

theorem names_append (bytes : ByteArray) : (store.append name bytes).names = store.names :=
  map_fst_modify name _ store.files

theorem bytes?_append (bytes : ByteArray) : (store.append name bytes).bytes? other =
    if other = name then (store.bytes? name).map (· ++ bytes) else store.bytes? other :=
  lookup_modify name other _ store.files

theorem modify_eq_self (files : List (String × ByteArray)) {change : ByteArray → ByteArray}
    (h : ∀ bytes, change bytes = bytes) : modify name change files = files := by
  induction files with
  | nil => rfl
  | cons file files ih => simp [modify, h, ih]

theorem modify_modify (files : List (String × ByteArray)) (change change' : ByteArray → ByteArray) :
    modify name change' (modify name change files) = modify name (change' ∘ change) files := by
  induction files with
  | nil => rfl
  | cons file files ih =>
      obtain ⟨n, bytes⟩ := file
      by_cases hn : n = name
      · simp [modify, hn]
      · simp [modify, hn, ih]

theorem append_nil : store.append name (Text.Utf8.encode []) = store :=
  congrArg MemoryFiles.mk (modify_eq_self name store.files fun _ => ByteArray.append_empty)

theorem append_append (bytes bytes' : ByteArray) :
    (store.append name bytes).append name bytes' = store.append name (bytes ++ bytes') := by
  simp only [append, modify_modify, Function.comp_def, ByteArray.append_assoc]

end MemoryFiles

/-- A sink that keeps its files in memory and takes every line. It may refuse to create files. -/
class Sink.InMemory (σ : Type) [Sink σ MemoryFile] where
  files : σ → MemoryFiles
  files_create {sink sink' : σ} {file : MemoryFile} {name : String}
    (h : create sink name = .ok (sink', file)) :
    files sink' = (files sink).create name ∧ file = ⟨name⟩
  files_writeLine (sink : σ) (file : MemoryFile) (line : Text) :
    files (writeLine sink file line).1 =
        (files sink).append file.name (Text.Utf8.encode (line ++ ['\n'])) ∧
      (writeLine sink file line).2 = file
  files_flush (sink : σ) (file : MemoryFile) : files (flush sink file).1 = files sink

instance : Sink.InMemory MemoryFiles where
  files := id
  files_create h := by cases h; exact ⟨rfl, rfl⟩
  files_writeLine _ _ _ := ⟨rfl, rfl⟩
  files_flush _ _ := rfl

/-- Lines as they stand in a file, each with its line feed. -/
def Text.unlines (lines : List Text) : Text := lines.flatMap (· ++ ['\n'])

namespace Registry

theorem prepared_memory (store : MemoryFiles) (options : Options) (file : MemoryFile) :
    prepared store options file =
      { sink := store.append file.name
          (Text.Utf8.encode (Text.unlines (options.scriptHeader.toList.map String.toList)))
        options
        script := file } := by
  simp only [prepared]
  split
  · rename_i hheader
    simp [hheader, Text.unlines, MemoryFiles.append_nil]
  · rename_i header hheader
    simp [hheader, Text.unlines, writeScript, Sink.writeLine]

section InMemory

variable {σ : Type} [Sink σ MemoryFile] [Sink.InMemory σ]

open Sink.InMemory (files)

theorem writeLine_inMemory {registry : Registry σ MemoryFile} {document : Document}
    {file : MemoryFile} (h : registry.current = some (document, file)) (line : Text) :
    ∃ sink, registry.writeLine line =
        { state :=
            { registry with
              sink, current := some ({ document with lineCount := document.lineCount + 1 }, file) }
          answer := .ok () } ∧
      files sink = (files registry.sink).append file.name (Text.Utf8.encode (line ++ ['\n'])) := by
  obtain ⟨hfiles, hfile⟩ := Sink.InMemory.files_writeLine registry.sink file line
  refine ⟨_, ?_, hfiles⟩
  simp only [writeLine, h, hfile]

/-- Lines go to the end of the file of the open document, and none is refused. -/
theorem writeLines_inMemory {registry : Registry σ MemoryFile} {document : Document}
    {file : MemoryFile} (h : registry.current = some (document, file)) (lines : List Text) :
    ∃ sink, registry.writeLines lines =
        { state :=
            { registry with
              sink
              current :=
                some ({ document with lineCount := document.lineCount + lines.length }, file) }
          answer := .ok () } ∧
      files sink =
        (files registry.sink).append file.name (Text.Utf8.encode (Text.unlines lines)) := by
  induction lines generalizing registry document with
  | nil =>
      refine ⟨registry.sink, ?_, ?_⟩
      · simp only [writeLines, List.length_nil, Nat.add_zero, ← h]
      · rw [Text.unlines, List.flatMap_nil, MemoryFiles.append_nil]
  | cons line lines ih =>
      obtain ⟨sink, hline, hfiles⟩ := writeLine_inMemory h line
      have hopen : (registry.writeLine line).state.current =
          some ({ document with lineCount := document.lineCount + 1 }, file) := by rw [hline]
      obtain ⟨sink', hlines, hfiles'⟩ := ih hopen
      have hcount : document.lineCount + 1 + lines.length =
          document.lineCount + (lines.length + 1) := by omega
      refine ⟨sink', ?_, ?_⟩
      · rw [writeLines, Outcome.andThen_ok (by rw [hline]), hlines]
        simp only [hline, List.nil_append, List.length_cons, hcount]
      · rw [hfiles', hline, hfiles, MemoryFiles.append_append, ← Text.Utf8.encode_append]
        rfl

end InMemory

theorem writeLines_memory {registry : Registry MemoryFiles MemoryFile} {document : Document}
    {file : MemoryFile} (h : registry.current = some (document, file)) (lines : List Text) :
    registry.writeLines lines =
      { state :=
          { registry with
            sink := registry.sink.append file.name (Text.Utf8.encode (Text.unlines lines))
            current :=
              some ({ document with lineCount := document.lineCount + lines.length }, file) }
        answer := .ok () } := by
  obtain ⟨sink, hlines, hfiles⟩ := writeLines_inMemory h lines
  obtain rfl : sink = _ := hfiles
  exact hlines

theorem close_memory (registry : Registry MemoryFiles MemoryFile) :
    registry.close =
      { registry with
        current := none
        closed := registry.closed ++ registry.current.toList.map Prod.fst } := by
  obtain ⟨sink, options, script, current, closed, titles⟩ := registry
  cases current with
  | none => simp [close]
  | some opened => rfl

/-- A document is opened at once: its file is made, the build script gets its line, and the banner
is written. -/
theorem openDocument_memory (registry : Registry MemoryFiles MemoryFile) (title : String) :
    registry.openDocument title =
      let document := documentOf registry.options title
      { state :=
          { registry with
            sink :=
              ((registry.sink.create document.fileName).append registry.script.name
                (Text.Utf8.encode (scriptLine registry.options document ++ ['\n']))).append
                document.fileName (Text.Utf8.encode (Text.unlines (Rst.banner title.toList)))
            current :=
              some ({ document with lineCount := (Rst.banner title.toList).length },
                ⟨document.fileName⟩)
            closed := registry.closed ++ registry.current.toList.map Prod.fst
            titles := title :: registry.titles }
        notices :=
          (if title ∈ registry.titles then [.overwriting document.fileName] else []) ++
            [.parsing title]
        answer := .ok () } := by
  simp only [openDocument, close_memory, Sink.create, writeScript, Sink.writeLine]
  rw [writeLines_memory rfl]
  simp [documentOf]

theorem answer_openDocument_memory (registry : Registry MemoryFiles MemoryFile) (title : String) :
    (registry.openDocument title).answer = .ok () := by
  rw [openDocument_memory]

/-- In memory there is nothing to bring to its place. -/
theorem release_memory (registry : Registry MemoryFiles MemoryFile) :
    registry.release = registry.sink := by
  simp only [release]
  split <;> rfl

theorem finish_memory (registry : Registry MemoryFiles MemoryFile) :
    registry.finish =
      { state := registry.sink
        answer := .ok (registry.closed ++ registry.current.toList.map Prod.fst) } := by
  simp only [finish, close_memory]
  rfl

end Registry

/-- In memory nothing keeps a run from starting. -/
theorem started_memory (options : Options) : ∃ registry : Registry MemoryFiles MemoryFile,
    (Registry.start ({} : MemoryFiles) options options.title).answer = .ok registry := by
  have hcreate : Sink.create ({} : MemoryFiles) options.scriptName =
      .ok (({} : MemoryFiles).create options.scriptName, ⟨options.scriptName⟩) := rfl
  rw [Registry.start_ok hcreate,
    Outcome.andThen_ok (Registry.answer_openDocument_memory _ options.title)]
  exact ⟨_, rfl⟩

end WikiDocs

import WikiDocs.Proofs.BufferedFiles

/-!
Files that are created side by side. A directory shows what a memory sink
holds, but for what open files have in their buffers. Creating a file, writing
to it and giving it up keep this, and touch nothing else.
-/

namespace WikiDocs

open FileTree

/-- A directory in which files can be created under some names, and the tree as it was. -/
structure Site where
  tree : FileTree
  output : String
  home : Place
  names : List String
  creatable : ∀ name ∈ names,
    tree.creationPlace (FileTree.join output name) = .ok (home ++ [name.toList])

namespace Site

def place (site : Site) (name : String) : Place := site.home ++ [name.toList]

variable {site : Site}

theorem place_inj {name other : String} : site.place name = site.place other ↔ name = other := by
  simp [place, String.toList_inj]

/-- A tree shows the files of a memory sink at a site: each that is open holds its bytes on disk and
in its buffer, and every other one on disk alone. Elsewhere the tree is as it was. -/
structure Shows (site : Site) (tree : FileTree) (store : MemoryFiles)
    (opened : List (String × BufferedFile)) : Prop where
  same : SameDirectories site.tree tree
  names_subset : ∀ name ∈ store.names, name ∈ site.names
  untouched : ∀ place, (∀ name ∈ store.names, place ≠ site.place name) →
    tree.node? place = site.tree.node? place
  distinct : (opened.map Prod.fst).Nodup
  backs : ∀ name file, (name, file) ∈ opened →
    ∃ bytes, store.bytes? name = some bytes ∧ file.Backs tree (site.place name) bytes
  settled : ∀ name bytes, store.bytes? name = some bytes → name ∉ opened.map Prod.fst →
    ∃ executable, tree.node? (site.place name) = some (.file bytes executable)

namespace Shows

variable {tree : FileTree} {store : MemoryFiles} {opened opened' : List (String × BufferedFile)}
  {name : String} {file : BufferedFile}

theorem perm (h : site.Shows tree store opened) (hperm : opened.Perm opened') :
    site.Shows tree store opened' := by
  have hnames := hperm.map Prod.fst
  refine ⟨h.same, h.names_subset, h.untouched, hnames.nodup_iff.1 h.distinct, ?_, ?_⟩
  · intro name file hmem
    exact h.backs name file (hperm.mem_iff.2 hmem)
  · intro name bytes hbytes hmem
    exact h.settled name bytes hbytes (mt hnames.mem_iff.1 hmem)

/-- What is done to one file keeps the others. -/
theorem change (front : List (String × BufferedFile)) {tree' : FileTree} {store' : MemoryFiles}
    (h : site.Shows tree store (front ++ opened)) (hfront : ∀ open_ ∈ front, open_.1 = name)
    (hname : name ∈ site.names) (hopened : name ∉ opened.map Prod.fst)
    (hsame : SameDirectories tree tree')
    (hnode : ∀ place, place ≠ site.place name → tree'.node? place = tree.node? place)
    (hnames : ∀ other, other ∈ store'.names ↔ other = name ∨ other ∈ store.names)
    (hbytes : ∀ other, other ≠ name → store'.bytes? other = store.bytes? other)
    (hfile : ∃ bytes, store'.bytes? name = some bytes ∧ file.Backs tree' (site.place name) bytes) :
    site.Shows tree' store' ((name, file) :: opened) := by
  have hplace : ∀ other, other ≠ name →
      tree'.node? (site.place other) = tree.node? (site.place other) :=
    fun other hne => hnode _ (mt place_inj.1 hne)
  have hdistinct := h.distinct
  rw [List.map_append] at hdistinct
  refine ⟨h.same.trans hsame, ?_, ?_, ?_, ?_, ?_⟩
  · intro other hother
    obtain rfl | hmem := (hnames other).1 hother
    · exact hname
    · exact h.names_subset other hmem
  · intro place hplaces
    rw [hnode place (hplaces name ((hnames name).2 (.inl rfl)))]
    exact h.untouched place fun other hmem => hplaces other ((hnames other).2 (.inr hmem))
  · exact List.nodup_cons.2 ⟨hopened, (List.nodup_append.1 hdistinct).2.1⟩
  · intro other otherFile hmem
    obtain heq | htail := List.mem_cons.1 hmem
    · cases heq
      exact hfile
    · have hne : other ≠ name := by
        rintro rfl
        exact hopened (List.mem_map_of_mem (f := Prod.fst) htail)
      obtain ⟨bytes, hother, hbacks⟩ := h.backs other otherFile (List.mem_append_right _ htail)
      exact ⟨bytes, (hbytes other hne).trans hother, hbacks.frame (hplace other hne)⟩
  · intro other bytes hother hmem
    rw [List.map_cons, List.mem_cons, not_or] at hmem
    rw [hplace other hmem.1]
    refine h.settled other bytes ((hbytes other hmem.1).symm.trans hother) ?_
    rw [List.map_append, List.mem_append, not_or]
    refine ⟨?_, hmem.2⟩
    intro hin
    obtain ⟨open_, hopen, rfl⟩ := List.mem_map.1 hin
    exact hmem.1 (hfront open_ hopen)

theorem node?_ne_directory (h : site.Shows tree store opened) (hname : name ∈ site.names) :
    tree.node? (site.place name) ≠ some .directory :=
  node?_of_creationPlace (h.same.creationPlace_ok (site.creatable name hname))

/-- A file is created where none of that name is open. -/
theorem create (h : site.Shows tree store opened) (hname : name ∈ site.names)
    (hopened : name ∉ opened.map Prod.fst) :
    site.Shows (tree.truncate (site.place name)) (store.create name)
      ((name, { place := site.place name }) :: opened) := by
  have hnode := h.node?_ne_directory hname
  obtain ⟨executable, hfile⟩ := node?_truncate_self hnode
  have hbytes : (store.create name).bytes? name = some .empty := by
    rw [MemoryFiles.bytes?_create, if_pos rfl]
  refine change [] h nofun hname hopened (sameDirectories_truncate hnode)
    (fun place hne => node?_truncate_of_ne hne) (MemoryFiles.mem_names_create store name) ?_
    ⟨.empty, hbytes, rfl, .empty, executable, hfile, rfl, ByteArray.append_empty⟩
  intro other hne
  rw [MemoryFiles.bytes?_create, if_neg hne]

/-- A line that is written to an open file. -/
theorem writeLine (h : site.Shows tree store ((name, file) :: opened)) (path : String)
    (line : Text) :
    let written := Directory.writeLine ⟨tree, path⟩ file line
    site.Shows written.1.tree (store.append name (Text.Utf8.encode (line ++ ['\n'])))
      ((name, written.2) :: opened) := by
  intro written
  obtain ⟨bytes, hstored, hbacks⟩ := h.backs name file List.mem_cons_self
  have hline := hbacks.write (Text.Utf8.encode line)
  have hbreak := hline.write (Text.Utf8.encode ['\n'])
  have hbytes : (store.append name (Text.Utf8.encode (line ++ ['\n']))).bytes? name =
      some (bytes ++ Text.Utf8.encode line ++ Text.Utf8.encode ['\n']) := by
    rw [MemoryFiles.bytes?_append, if_pos rfl, hstored, Option.map_some,
      Text.Utf8.encode_append, ByteArray.append_assoc]
  have hmem := MemoryFiles.mem_names_of_bytes? hstored
  refine change [(name, file)] h (by simp) (h.names_subset name hmem)
    (List.nodup_cons.1 h.distinct).1 ?_ ?_ ?_ ?_ ⟨_, hbytes, hbreak⟩
  · exact (BufferedFile.sameDirectories_write _ _ _).trans
      (BufferedFile.sameDirectories_write _ _ _)
  · intro place hne
    have hfirst : place ≠ file.place := by rwa [hbacks.place_eq]
    have hsecond : place ≠ (file.write tree (Text.Utf8.encode line)).2.place := by
      rwa [BufferedFile.write_place]
    exact (BufferedFile.node?_write_of_ne hsecond _).trans (BufferedFile.node?_write_of_ne hfirst _)
  · intro other
    rw [MemoryFiles.names_append]
    exact ⟨.inr, fun hother => hother.elim (fun heq => heq ▸ hmem) id⟩
  · intro other hne
    rw [MemoryFiles.bytes?_append, if_neg hne]

theorem giveUp (h : site.Shows tree store ((name, file) :: opened))
    (hbuffer : file.buffer = .empty) : site.Shows tree store opened := by
  refine ⟨h.same, h.names_subset, h.untouched, (List.nodup_cons.1 h.distinct).2, ?_, ?_⟩
  · intro other otherFile hmem
    exact h.backs other otherFile (List.mem_cons_of_mem _ hmem)
  · intro other bytes hbytes hmem
    by_cases hname : other = name
    · obtain ⟨bytes', hbytes', hbacks⟩ := h.backs name file List.mem_cons_self
      rw [hname, hbytes'] at hbytes
      cases hbytes
      rw [hname]
      exact hbacks.node? hbuffer
    · refine h.settled other bytes hbytes ?_
      rw [List.map_cons, List.mem_cons, not_or]
      exact ⟨hname, hmem⟩

/-- A file that is flushed holds all its bytes, so it can be given up. -/
theorem flush (h : site.Shows tree store ((name, file) :: opened)) :
    site.Shows (file.flush tree).1 store opened := by
  obtain ⟨bytes, hbytes, hbacks⟩ := h.backs name file List.mem_cons_self
  have hmem := MemoryFiles.mem_names_of_bytes? hbytes
  have hflushed : site.Shows (file.flush tree).1 store ((name, (file.flush tree).2) :: opened) := by
    refine change [(name, file)] h (by simp) (h.names_subset name hmem)
      (List.nodup_cons.1 h.distinct).1 (BufferedFile.sameDirectories_flush tree file) ?_ ?_
      (fun _ _ => rfl) ⟨bytes, hbytes, hbacks.flush⟩
    · intro place hne
      refine BufferedFile.node?_flush_of_ne ?_
      rwa [hbacks.place_eq]
    · intro other
      exact ⟨.inr, fun hother => hother.elim (fun heq => heq ▸ hmem) id⟩
  exact hflushed.giveUp (BufferedFile.flush_buffer tree file)

/-- A file that is shown is found under its path. -/
theorem find? (h : site.Shows tree store []) {bytes : ByteArray}
    (hbytes : store.bytes? name = some bytes) :
    ∃ executable, tree.find? (FileTree.join site.output name) =
      some (site.place name, .file bytes executable) := by
  obtain ⟨executable, hnode⟩ := h.settled name bytes hbytes List.not_mem_nil
  have hname := h.names_subset name (MemoryFiles.mem_names_of_bytes? hbytes)
  exact ⟨executable,
    find?_of_creationPlace (h.same.creationPlace_ok (site.creatable name hname)) hnode⟩

theorem makeExecutable (h : site.Shows tree store []) {bytes : ByteArray}
    (hbytes : store.bytes? name = some bytes) :
    site.Shows (tree.makeExecutable (site.place name)) store [] := by
  obtain ⟨executable, hnode⟩ := h.settled name bytes hbytes List.not_mem_nil
  have hsame : SameDirectories tree (tree.makeExecutable (site.place name)) := by
    simp only [FileTree.makeExecutable, hnode]
    exact sameDirectories_set (FileTree.ne_directory hnode)
  refine ⟨h.same.trans hsame, h.names_subset, ?_, List.nodup_nil,
    fun _ _ hmem => absurd hmem List.not_mem_nil, ?_⟩
  · intro place hplaces
    have hne := hplaces name (MemoryFiles.mem_names_of_bytes? hbytes)
    exact (node?_makeExecutable_of_ne hne).trans (h.untouched place hplaces)
  · intro other bytes' hbytes' hmem
    obtain ⟨executable', hother⟩ := h.settled other bytes' hbytes' hmem
    by_cases hname : other = name
    · rw [hname] at hother ⊢
      exact ⟨true, node?_makeExecutable_self hother⟩
    · exact ⟨executable', (node?_makeExecutable_of_ne (mt place_inj.1 hname)).trans hother⟩

end Shows
end Site

end WikiDocs

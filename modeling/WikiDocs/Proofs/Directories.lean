import WikiDocs.Proofs.Steady
import WikiDocs.Sink.Directory

/-!
Directories as steady sinks. Files are created and written where no directory
stands, so the directories of a tree stay where they are, and with them the
names under which files can be created.
-/

namespace WikiDocs

namespace FileTree

/-- Two trees with the same directories. -/
def SameDirectories (tree tree' : FileTree) : Prop :=
  ∀ place, tree'.node? place = some .directory ↔ tree.node? place = some .directory

theorem SameDirectories.refl (tree : FileTree) : SameDirectories tree tree := fun _ => Iff.rfl

theorem SameDirectories.trans {tree tree' tree'' : FileTree} (h : SameDirectories tree tree')
    (h' : SameDirectories tree' tree'') : SameDirectories tree tree'' :=
  fun place => (h' place).trans (h place)

theorem lookup_put (place other : Place) (node : Node) (entries : List (Place × Node)) :
    (put place node entries).lookup other =
      if other = place then some node else entries.lookup other := by
  induction entries with
  | nil =>
      by_cases h : other = place
      · simp [put, h]
      · simp [put, h, lookup_cons_of_ne h]
  | cons entry entries ih =>
      obtain ⟨p, n⟩ := entry
      by_cases hp : p = place
      · by_cases h : other = place
        · simp [put, hp, h]
        · simp [put, hp, h, lookup_cons_of_ne h]
      · by_cases h : other = p
        · simp [put, hp, h]
        · simp [put, hp, lookup_cons_of_ne h, ih]

/-- Where no directory stands a file can be put. -/
theorem sameDirectories_set {tree : FileTree} {place : Place} {content : ByteArray}
    {executable : Bool} (h : tree.node? place ≠ some .directory) :
    SameDirectories tree (tree.set place (.file content executable)) := by
  intro other
  simp only [node?, set, lookup_put]
  split
  · exact Iff.rfl
  · rename_i hother
    split
    · rename_i heq
      subst heq
      simp only [node?, if_neg hother] at h
      simp [h]
    · exact Iff.rfl

theorem sameDirectories_truncate {tree : FileTree} {place : Place}
    (h : tree.node? place ≠ some .directory) : SameDirectories tree (tree.truncate place) := by
  simp only [truncate]
  split <;> exact sameDirectories_set h

theorem sameDirectories_writeAt (tree : FileTree) (place : Place) (offset : Nat)
    (bytes : ByteArray) : SameDirectories tree (tree.writeAt place offset bytes) := by
  simp only [writeAt]
  split
  · rename_i hfile
    exact sameDirectories_set (by simp [hfile])
  · exact .refl tree

/-- Where a path leads depends on the directories alone. -/
theorem SameDirectories.descend {tree tree' : FileTree} (h : SameDirectories tree tree')
    (place : Place) (names : List Text) :
    (tree'.descend place names).toOption = (tree.descend place names).toOption := by
  induction names generalizing place with
  | nil => rfl
  | cons name names ih =>
      simp only [FileTree.descend]
      split
      · exact ih _
      · split
        · exact ih _
        · split
          · rfl
          · by_cases hd : tree.node? (place ++ [name]) = some .directory
            · simp only [hd, (h _).2 hd]
              exact ih _
            · have hd' := mt (h _).1 hd
              split
              · split
                · rfl
                · rfl
                · rename_i hn
                  exact absurd hn hd
              · split
                · rfl
                · rfl
                · rename_i hn
                  exact absurd hn hd
              · rename_i hn
                exact absurd hn hd'

theorem SameDirectories.creationPlace {tree tree' : FileTree} (h : SameDirectories tree tree')
    (path : String) :
    (tree'.creationPlace path).toOption = (tree.creationPlace path).toOption := by
  simp only [FileTree.creationPlace]
  split
  · rfl
  · split
    · rfl
    · rename_i last _
      have hdescend := h.descend (origin path.toList) (names path.toList).dropLast
      cases hd : tree.descend (origin path.toList) (names path.toList).dropLast with
      | error cause =>
          cases hd' : tree'.descend (origin path.toList) (names path.toList).dropLast with
          | error cause' => rfl
          | ok place' =>
              rw [hd, hd'] at hdescend
              cases hdescend
      | ok place =>
          cases hd' : tree'.descend (origin path.toList) (names path.toList).dropLast with
          | error cause' =>
              rw [hd, hd'] at hdescend
              cases hdescend
          | ok place' =>
              rw [hd, hd'] at hdescend
              cases hdescend
              simp only
              split
              · rfl
              · split
                · rfl
                · by_cases hn : tree.node? (place ++ [last]) = some .directory
                  · simp only [hn, (h _).2 hn]
                  · have hn' := mt (h _).1 hn
                    split
                    · contradiction
                    · rfl

theorem node?_of_creationPlace {tree : FileTree} {path : String} {place : Place}
    (h : tree.creationPlace path = .ok place) : tree.node? place ≠ some .directory := by
  simp only [creationPlace] at h
  split at h
  · cases h
  · split at h
    · cases h
    · split at h
      · cases h
      · split at h
        · cases h
        · split at h
          · cases h
          · split at h
            · cases h
            · rename_i hne
              cases h
              exact hne

end FileTree

open FileTree (SameDirectories sameDirectories_truncate sameDirectories_writeAt)

namespace BufferedFile

theorem sameDirectories_flush (tree : FileTree) (file : BufferedFile) :
    SameDirectories tree (file.flush tree).1 := by
  simp only [flush]
  split
  · exact .refl tree
  · exact sameDirectories_writeAt _ _ _ _

theorem sameDirectories_write (tree : FileTree) (file : BufferedFile) (bytes : ByteArray) :
    SameDirectories tree (file.write tree bytes).1 := by
  simp only [write]
  split
  · exact .refl tree
  · have hflushed : SameDirectories tree
        (if bufferSize - file.buffer.size < bytes.size then flush tree file else (tree, file)).1 := by
      split
      · exact sameDirectories_flush tree file
      · exact .refl tree
    split
    · exact hflushed.trans (sameDirectories_writeAt _ _ _ _)
    · exact hflushed

end BufferedFile

theorem Directory.accepts_eq (directory : Directory) (name : String) :
    Sink.accepts directory name =
      ((directory.tree.creationPlace (FileTree.join directory.path name)).toOption).isSome := by
  simp only [Sink.accepts, Sink.create, create]
  cases directory.tree.creationPlace (FileTree.join directory.path name) <;> rfl

theorem Directory.accepts_of_same {directory directory' : Directory}
    (hp : directory'.path = directory.path) (h : SameDirectories directory.tree directory'.tree)
    (name : String) : Sink.accepts directory' name = Sink.accepts directory name := by
  rw [accepts_eq, accepts_eq, hp, h.creationPlace]

instance : Sink.Steady Directory where
  accepts_create := by
    intro directory directory' file name h
    simp only [Sink.create, Directory.create] at h
    split at h
    · cases h
    · rename_i place hplace
      cases h
      refine Directory.accepts_of_same rfl ?_
      exact sameDirectories_truncate (FileTree.node?_of_creationPlace hplace)
  accepts_writeLine := by
    intro directory file line
    apply Directory.accepts_of_same
    · rfl
    · exact (BufferedFile.sameDirectories_write _ _ _).trans
        (BufferedFile.sameDirectories_write _ _ _)
  accepts_flush := by
    intro directory file
    apply Directory.accepts_of_same
    · rfl
    · exact BufferedFile.sameDirectories_flush _ _

end WikiDocs

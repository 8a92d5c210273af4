import WikiDocs.Proofs.BufferedFiles
import WikiDocs.Proofs.UnbrokenTables

/-!
Where paths lead. Names lead down from a directory, and those that do not climb
above it stay below it; whatever files change, they lead to the same places.
-/

namespace WikiDocs

open FileTree Text

namespace FileTree

/-- A name that an entry of a directory can have. -/
structure ProperName (name : Text) : Prop where
  ne_nil : name ≠ []
  ne_here : name ≠ hereName
  ne_up : name ≠ upName
  no_slash : '/' ∉ name

/-- A place to which the names of entries lead down from a directory. -/
def Below (home place : Place) : Prop :=
  ∃ names, names ≠ [] ∧ (∀ name ∈ names, ProperName name) ∧ place = home ++ names

variable {tree : FileTree} {home place place' : Place}

/-- A name other than "." and ".." leads on exactly through a directory. -/
theorem descend_cons_eq_ok_iff {name : Text} {names : List Text} (hhere : name ≠ hereName)
    (hup : name ≠ upName) :
    tree.descend place (name :: names) = .ok place' ↔
      name.byteSize ≤ nameLimit ∧ tree.node? (place ++ [name]) = some .directory ∧
        tree.descend (place ++ [name]) names = .ok place' := by
  rw [descend, if_neg hhere, if_neg hup, ← Nat.not_lt]
  split
  · simp [*]
  · split <;> simp [*]

theorem descend_append {front back : List Text}
    (h : tree.descend place (front ++ back) = .ok place') :
    ∃ middle, tree.descend place front = .ok middle ∧ tree.descend middle back = .ok place' := by
  induction front generalizing place with
  | nil => exact ⟨place, rfl, h⟩
  | cons name front ih =>
      rw [List.cons_append] at h
      by_cases hhere : name = hereName
      · rw [descend, if_pos hhere] at h ⊢
        exact ih h
      by_cases hup : name = upName
      · rw [descend, if_neg hhere, if_pos hup] at h ⊢
        exact ih h
      obtain ⟨hlimit, hnode, h⟩ := (descend_cons_eq_ok_iff hhere hup).1 h
      obtain ⟨middle, hmiddle, hback⟩ := ih h
      exact ⟨middle, (descend_cons_eq_ok_iff hhere hup).2 ⟨hlimit, hnode, hmiddle⟩, hback⟩

/-- Whether names lead above a directory from so many directories below it. -/
def climbs (depth : Nat) : List Text → Bool
  | [] => false
  | name :: names =>
    if name = hereName then climbs depth names
    else if name = upName then depth == 0 || climbs (depth - 1) names
    else climbs (depth + 1) names

theorem climbs_append {front : List Text} {depth : Nat} (h : climbs depth front = true)
    (back : List Text) : climbs depth (front ++ back) = true := by
  induction front generalizing depth with
  | nil => cases h
  | cons name front ih =>
      rw [climbs] at h
      rw [List.cons_append, climbs]
      by_cases hhere : name = hereName
      · rw [if_pos hhere] at h ⊢
        exact ih h
      rw [if_neg hhere] at h ⊢
      by_cases hup : name = upName
      · rw [if_pos hup, Bool.or_eq_true] at h ⊢
        exact h.imp_right ih
      rw [if_neg hup] at h ⊢
      exact ih h

theorem climbs_cons_of_proper {name : Text} {names : List Text} {depth : Nat}
    (h : ProperName name) : climbs depth (name :: names) = climbs (depth + 1) names := by
  rw [climbs, if_neg h.ne_here, if_neg h.ne_up]

/-- The directory above a place that proper names lead to is one name shorter. -/
theorem parent_append {front : List Text} {last : Text} (h : ProperName last) :
    parent (home ++ (front ++ [last])) = home ++ front := by
  have hroot : home ++ (front ++ [last]) ≠ [rootName] := by
    intro heq
    have hlast : last ∈ [rootName] := heq ▸ by simp
    rw [List.mem_singleton.1 hlast] at h
    exact h.no_slash List.mem_cons_self
  have hall : ¬ (home ++ (front ++ [last])).all (· == upName) = true := by
    intro hall
    have hlast := List.all_eq_true.1 hall last (by simp)
    exact h.ne_up (by simpa using hlast)
  rw [parent, if_neg hroot, if_neg hall, ← List.append_assoc, List.dropLast_concat]

/-- Names that do not climb lead from below a directory to below it, or to itself. -/
theorem exists_names_of_descend {more names : List Text}
    (h : tree.descend (home ++ more) names = .ok place) (hmore : ∀ name ∈ more, ProperName name)
    (hnames : ∀ name ∈ names, name ≠ [] ∧ '/' ∉ name) (hclimbs : climbs more.length names = false) :
    ∃ more, place = home ++ more ∧ ∀ name ∈ more, ProperName name := by
  induction names generalizing more with
  | nil =>
      cases h
      exact ⟨more, rfl, hmore⟩
  | cons name names ih =>
      obtain ⟨⟨hne, hslash⟩, hnames⟩ := List.forall_mem_cons.1 hnames
      rw [climbs] at hclimbs
      by_cases hhere : name = hereName
      · rw [descend, if_pos hhere] at h
        rw [if_pos hhere] at hclimbs
        exact ih h hmore hnames hclimbs
      rw [if_neg hhere] at hclimbs
      by_cases hup : name = upName
      · rw [descend, if_neg hhere, if_pos hup] at h
        rw [if_pos hup] at hclimbs
        obtain ⟨hdepth, hclimbs⟩ := Bool.or_eq_false_iff.1 hclimbs
        obtain rfl | ⟨front, last, rfl⟩ := more.eq_nil_or_concat
        · cases hdepth
        · rw [List.concat_eq_append] at h hmore hclimbs
          obtain ⟨hfront, hlast⟩ := List.forall_mem_append.1 hmore
          rw [parent_append (hlast last List.mem_cons_self)] at h
          rw [List.length_append, List.length_singleton, Nat.add_sub_cancel] at hclimbs
          exact ih h hfront hnames hclimbs
      rw [if_neg hup] at hclimbs
      obtain ⟨-, -, h⟩ := (descend_cons_eq_ok_iff hhere hup).1 h
      have hproper : ProperName name := ⟨hne, hhere, hup, hslash⟩
      rw [List.append_assoc] at h
      refine ih h ?_ hnames (by rwa [List.length_append, List.length_singleton])
      exact List.forall_mem_append.2 ⟨hmore, List.forall_mem_singleton.2 hproper⟩

/-- A directory that is found is where its names lead. -/
theorem eq_of_find? {path : String} (hfind : tree.find? path = some (home, .directory))
    (h : tree.descend (origin path.toList) (names path.toList) = .ok place) : place = home := by
  simp only [find?] at hfind
  split at hfind
  · cases hfind
  · split at hfind
    · rename_i hlast
      rw [List.getLast?_eq_none_iff] at hlast
      rw [hlast] at h
      cases hfind
      cases h
      rfl
    · rename_i last hlast
      obtain ⟨front, hfront⟩ := List.getLast?_eq_some_iff.1 hlast
      rw [hfront] at h
      rw [hfront, List.dropLast_concat] at hfind
      obtain ⟨middle, hmiddle, hplace⟩ := descend_append h
      rw [hmiddle] at hfind
      dsimp only at hfind
      by_cases hhere : last = hereName
      · rw [descend, if_pos hhere] at hplace
        rw [if_pos hhere] at hfind
        cases hfind
        cases hplace
        rfl
      rw [if_neg hhere] at hfind
      by_cases hup : last = upName
      · rw [descend, if_neg hhere, if_pos hup] at hplace
        rw [if_pos hup] at hfind
        cases hfind
        cases hplace
        rfl
      obtain ⟨-, hnode, hplace⟩ := (descend_cons_eq_ok_iff hhere hup).1 hplace
      rw [if_neg hup, hnode] at hfind
      cases hfind
      cases hplace
      rfl

theorem mem_names {path name : Text} (h : name ∈ names path) : name ≠ [] ∧ '/' ∉ name := by
  obtain ⟨hmem, hne⟩ := List.mem_filter.1 h
  exact ⟨by simpa using hne, not_mem_of_mem_splitOn hmem⟩

/-- A file under a path stands where one would be created. -/
theorem eq_of_filePlace? {path : String} (h : tree.creationPlace path = .ok place)
    (hfound : tree.filePlace? path = some place') : place' = place := by
  obtain ⟨last, parent, hpath, hlast, hparent, hname, rfl⟩ := of_creationPlace h
  have hnode := node?_of_creationPlace h
  rw [not_or, not_or] at hname
  simp only [filePlace?, find?, hpath, hlast, hparent, hname, if_false, Option.isSome_none,
    Bool.false_eq_true] at hfound
  cases hentry : tree.node? (parent ++ [last]) with
  | none =>
      rw [hentry] at hfound
      cases hfound
  | some node =>
      rw [hentry] at hfound hnode
      cases node with
      | directory => exact absurd rfl hnode
      | file content executable => exact (Option.some.inj hfound).symm

theorem sameDirectories_makeExecutable (tree : FileTree) (place : Place) :
    SameDirectories tree (tree.makeExecutable place) := by
  simp only [makeExecutable]
  split
  · rename_i hfile
    exact sameDirectories_set (ne_directory hfile)
  · exact .refl tree

theorem SameDirectories.symm {tree' : FileTree} (h : SameDirectories tree tree') :
    SameDirectories tree' tree := fun place => (h place).symm

end FileTree

end WikiDocs

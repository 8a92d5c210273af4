import WikiDocs.Proofs.BlockStarts

/-!
Images written and read back. An image put together from its parts is found
where it stands, whatever its label, its path and the text behind it hold; and
each image that is found is put together from such parts.
-/

namespace WikiDocs.Token

open Pattern Text

/-- What may stand between the width and the label of an image: blanks, or a bar among blanks. -/
inductive Separates : Text → Prop where
  | blanks {gap : Text} (ne : gap ≠ []) (blank : ∀ c ∈ gap, isBlank c = true) : Separates gap
  | bar {front back : Text} (blank : ∀ c ∈ front, isBlank c = true)
      (blank' : ∀ c ∈ back, isBlank c = true) : Separates (front ++ '|' :: back)

/-- The parts of an image. The label is as it is written, with blanks at its end. -/
structure ImageParts where
  digits : Text
  separator : Text
  label : Text
  path : Text
  digits_ne : digits ≠ []
  all_digits : ∀ c ∈ digits, isDigit c = true
  separates : Separates separator
  label_ne : label ≠ []
  label_free : '<' ∉ label
  path_ne : path ≠ []
  path_free : '>' ∉ path

namespace ImageParts

def text (parts : ImageParts) : Text :=
  imageText parts.digits (parts.separator ++ parts.label) parts.path

def width (parts : ImageParts) : Text := parts.digits ++ imagePixels

/-- What the groups of the pattern take. -/
def groups (parts : ImageParts) : List (String × Text) :=
  [("size", parts.width), ("label", parts.label), ("path", parts.path)]

end ImageParts

variable {s separator caption label : Text}

theorem Separates.free (h : Separates separator) : '<' ∉ separator := by
  have hopen : isBlank '<' = false := by decide
  intro hmem
  cases h with
  | blanks _ hblank => exact absurd (hblank _ hmem) (by simp [hopen])
  | bar hfront hback =>
      rw [List.mem_append, List.mem_cons] at hmem
      obtain hmem | hmem | hmem := hmem
      · exact absurd (hfront _ hmem) (by simp [hopen])
      · cases hmem
      · exact absurd (hback _ hmem) (by simp [hopen])

/-- A trimmed label is taken whole, if a bar at its beginning cannot be taken for the separation. -/
theorem label?_of_separates (h : Separates separator) (hne : label ≠ []) (htrim : Trimmed label)
    (hbar : '|' ∈ separator ∨ label.head? ≠ some '|') :
    label? (separator ++ label) = some label := by
  obtain ⟨c, more, rfl⟩ := List.exists_cons_of_ne_nil hne
  cases h with
  | blanks hgap hblank =>
      have hc : c ≠ '|' := by
        refine fun heq => hbar.elim (fun hmem => ?_) fun hhead => hhead (congrArg some heq)
        exact absurd (hblank _ hmem) (by decide)
      obtain ⟨htake, hdrop⟩ := cut_run hblank htrim.head
      simp only [label?, htake, hdrop]
      rw [if_neg hc, if_pos hgap]
  | @bar front back hfront hback =>
      have hstop : ∀ d ∈ ('|' :: (back ++ c :: more)).head?, isBlank d = false :=
        fun d hd => by cases hd; rfl
      obtain ⟨htake, hdrop⟩ := cut_run hfront hstop
      obtain ⟨htake', hdrop'⟩ := cut_run hback htrim.head
      rw [List.append_assoc, List.cons_append]
      simp only [label?, htake, hdrop, htake', hdrop', if_true]
      rw [if_pos hne]

/-- Whatever is taken for a label, a separation is left in front of it. -/
theorem separates_of_label? (h : label? caption = some label) :
    ∃ separator, Separates separator ∧ caption = separator ++ label ∧ label ≠ [] := by
  obtain ⟨gap, s, rfl, htake, hdrop, hgap, -⟩ := exists_run isBlank caption
  simp only [label?, htake, hdrop] at h
  cases s with
  | nil =>
      dsimp only at h
      split at h
      · rename_i hlength
        obtain ⟨front, b, rfl, hlast⟩ :=
          exists_drop_last (List.ne_nil_of_length_pos (Nat.zero_lt_of_lt hlength))
        obtain rfl := hlast.symm.trans (Option.some.inj h)
        rw [List.length_append] at hlength
        have hfront : front ≠ [] := List.ne_nil_of_length_pos (Nat.le_of_succ_le_succ hlength)
        exact ⟨front, .blanks hfront fun c hc => hgap c (List.mem_append_left _ hc),
          List.append_nil _, List.cons_ne_nil _ _⟩
      · cases h
  | cons c s =>
      dsimp only at h
      split at h
      · rename_i hbar
        subst hbar
        obtain ⟨gap₂, rest, rfl, htake, hdrop, hgap₂, -⟩ := exists_run isBlank s
        rw [htake, hdrop] at h
        split at h
        · rename_i hne
          obtain rfl := Option.some.inj h
          exact ⟨_, .bar hgap hgap₂, by simp, hne⟩
        · rename_i hnil
          obtain rfl := not_not.1 hnil
          split at h
          · rename_i hne
            obtain ⟨front, b, rfl, hlast⟩ := exists_drop_last hne
            obtain rfl := hlast.symm.trans (Option.some.inj h)
            exact ⟨_, .bar hgap fun c hc => hgap₂ c (List.mem_append_left _ hc), by simp,
              List.cons_ne_nil _ _⟩
          · rename_i hnil
            obtain rfl := not_not.1 hnil
            split at h
            · rename_i hne
              obtain rfl := Option.some.inj h
              exact ⟨gap, .blanks hne hgap, rfl, List.cons_ne_nil _ _⟩
            · cases h
      · split at h
        · rename_i hne
          obtain rfl := Option.some.inj h
          exact ⟨gap, .blanks hne hgap, rfl, List.cons_ne_nil _ _⟩
        · cases h

namespace ImageParts

variable {parts : ImageParts}

theorem captioned (h : label? (parts.separator ++ parts.label) = some parts.label) :
    Captioned parts.digits (parts.separator ++ parts.label) parts.label parts.path where
  digits_ne := parts.digits_ne
  all_digits := parts.all_digits
  label_eq := h
  caption_free := by
    rw [List.mem_append, not_or]
    exact ⟨parts.separates.free, parts.label_free⟩
  path_ne := parts.path_ne
  path_free := parts.path_free

/-- Where an image begins, no kind with a higher priority does. -/
theorem find?_text (h : label? (parts.separator ++ parts.label) = some parts.label) (rest : Text) :
    find? (parts.text ++ rest) =
      some ⟨⟨.image parts.width (trim parts.label) parts.path, parts.text, rest⟩, []⟩ := by
  have himage : Kind.lexeme? .image true (parts.text ++ rest) =
      some ⟨.image parts.width (trim parts.label) parts.path, parts.text, rest⟩ := by
    rw [Kind.lexeme?_eq, text, (captioned h).prefers rest true]
    rfl
  have hblock : ∀ other : Kind, other.atStart = true →
      other.lexeme? true (parts.text ++ rest) = none := by
    intro other hat
    by_contra hother
    rw [Kind.lexeme?, image?_of_atStart hat hother] at himage
    cases himage
  have hfirst : lexeme? true (parts.text ++ rest) =
      some ⟨.image parts.width (trim parts.label) parts.path, parts.text, rest⟩ := by
    refine lexeme?_of_first himage fun other hlt => ?_
    cases other with
    | title | subtitle | minorTitle | listItem => exact hblock _ rfl
    | pageBreak | literalBlock | tableStart => rfl
    | image | newline => exact absurd hlt (by decide)
  rw [find?, findFrom?.eq_def, List.isEmpty_nil, hfirst]
  rfl

end ImageParts

variable {m : Match}

theorem Kind.kind_tokenOf (kind : Kind) (r : Reading) : (kind.tokenOf r).kind = kind := by
  cases kind <;> rfl

/-- An image that is found is written as its parts, which the groups of the pattern take. -/
theorem exists_parts_of_find? (h : find? s = some m) (hkind : m.token.kind = .image) :
    ∃ parts : ImageParts, m.token = .image parts.width (trim parts.label) parts.path ∧
      m.taken = parts.text ∧
      (Kind.pattern .image).match? s = some (m.before, ⟨m.taken, m.after, parts.groups⟩) := by
  have hlexeme := lexeme?_eq_some (lexeme?_of_match h)
  rw [hkind] at hlexeme
  obtain ⟨digits, caption, label, path, hparts, htoken, htaken⟩ := captioned_of_image? hlexeme
  obtain ⟨separator, hseparates, rfl, hlabel⟩ := separates_of_label? hparts.label_eq
  let parts : ImageParts := {
    digits, separator, label, path
    digits_ne := hparts.digits_ne
    all_digits := hparts.all_digits
    separates := hseparates
    label_ne := hlabel
    label_free := fun hmem => hparts.caption_free (List.mem_append_right _ hmem)
    path_ne := hparts.path_ne
    path_free := hparts.path_free }
  obtain ⟨kind, r, hwins⟩ := wins_of_find? h
  obtain rfl : kind = .image := by
    rw [← hkind, congrArg Lexeme.token hwins.lexeme_eq]
    exact (Kind.kind_tokenOf kind r).symm
  have hat := hwins.matchAt?_eq
  rw [htaken, hparts.prefers m.after] at hat
  refine ⟨parts, htoken, htaken, ?_⟩
  rw [hwins.match_eq, ← Option.some.inj hat, htaken]
  rfl

/-- An image put together from its parts is found where it stands, with these parts, and ends where
the text behind it begins: whatever else stands in its label, in its path and in that text. Each
image that is found in a text is put together from such parts, and its label is the label among
them without the blanks around it. -/
theorem images_read_back :
    (∀ (parts : ImageParts) (rest : Text), Trimmed parts.label →
      ('|' ∈ parts.separator ∨ parts.label.head? ≠ some '|') →
      ∃ m, find? (parts.text ++ rest) = some m ∧
        m.token = .image parts.width parts.label parts.path ∧
        m.start = 0 ∧ m.stop = parts.text.byteSize ∧ m.after = rest) ∧
    ∀ (s : Text) (m : Match), find? s = some m → m.token.kind = .image →
      ∃ parts : ImageParts, m.token = .image parts.width (trim parts.label) parts.path ∧
        m.taken = parts.text ∧ m.whole = s ∧
        (Kind.pattern .image).match? s = some (m.before, ⟨m.taken, m.after, parts.groups⟩) := by
  constructor
  · intro parts rest htrim hbar
    have hfind := ImageParts.find?_text
      (label?_of_separates parts.separates parts.label_ne htrim hbar) rest
    rw [htrim] at hfind
    exact ⟨_, hfind, rfl, rfl, Nat.zero_add _, rfl⟩
  · intro s m h hkind
    obtain ⟨parts, htoken, htaken, hmatch⟩ := exists_parts_of_find? h hkind
    exact ⟨parts, htoken, htaken, whole_of_find? h, hmatch⟩

example : (find? "\\ `50px |\u2009|a\n:: b<image:x 20200101>`__\n\x7b|".toList).map (·.token) =
    some (.image "50px".toList "|a\n:: b".toList "x 20200101".toList) := by decide

end WikiDocs.Token

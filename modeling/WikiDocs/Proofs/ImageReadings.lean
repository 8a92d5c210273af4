import WikiDocs.Proofs.KindReadings

/-!
What the pattern of an image prefers. Blanks and a bar separate the width from
the label, and the label takes all that is left before the path; where nothing
would be left, the separation gives back what it can spare.
-/

namespace WikiDocs.Token

open Pattern Text

/-- The pattern of an image behind its label. -/
def imageTail : Pattern :=
  .all [exact imagePath, .group "path" (.repeated (.notAmong ['>']) .some), exact imageEnd]

/-- The pattern of an image from its label on. -/
def imageLabel : Pattern :=
  .seq (.group "label" (.repeated (.notAmong ['<']) .some)) imageTail

/-- The pattern of an image behind the blank or the bar that separates. -/
def imageCaption : Pattern := .seq (.repeated .blank .any) imageLabel

/-- The pattern of an image from the blank or the bar on that separates. -/
def imageSeparator : Pattern := .seq (.either (.one .blank) (.one (.just '|'))) imageCaption

theorem pattern_image :
    Kind.pattern .image = .seq (exact imageLead)
      (.seq (.group "size" (.all [.repeated digit .some, exact imagePixels]))
        (.seq (.repeated .blank .any) imageSeparator)) := rfl

theorem prefers_imageTail {path : Text} (hne : path ≠ []) (hpath : '>' ∉ path) (after : Text) :
    imageTail.Prefers (imagePath ++ (path ++ imageEnd)) after [("path", path)] := by
  have hrun : (repeated (.notAmong ['>']) .some).Prefers path (imageEnd ++ after) [] := by
    refine prefers_run (fun c hc => ?_) (List.length_pos_iff.2 hne) rfl fun c hc => ?_
    · simpa [CharClass.contains] using ne_of_mem_of_not_mem hc hpath
    · cases hc
      rfl
  have hend : (exact imageEnd).Prefers imageEnd after [] := prefers_exact (by decide) after
  exact (prefers_exact (by decide) _).seq ((hrun.group "path").seq hend)

theorem prefers_separator_blank {b : Char} (hb : isBlank b = true) (rest : Text) :
    (either (one .blank) (one (.just '|'))).Prefers [b] rest [] := by
  have hclass : CharClass.blank.contains b = true := hb
  exact prefers_either_left (prefers_one hclass rest) _

theorem prefers_separator_bar (rest : Text) :
    (either (one .blank) (one (.just '|'))).Prefers ['|'] rest [] := by
  refine prefers_either_right (fails_one fun c hc => ?_) (prefers_one rfl rest)
  cases hc
  rfl

theorem exists_drop_last {s : Text} (hne : s ≠ []) :
    ∃ front c, s = front ++ [c] ∧ s.drop (s.length - 1) = [c] := by
  obtain ⟨front, c, rfl⟩ := (List.eq_nil_or_concat s).resolve_left hne
  exact ⟨front, c, List.concat_eq_append, by simp⟩

section Caption

variable {tail after : Text} {groups : List (String × Text)}

section Fails

variable (hopen : ∀ c ∈ (tail ++ after).head?, c = '<')
include hopen

theorem fails_imageLabel : imageLabel.Fails (tail ++ after) :=
  ((fails_repeated fun c hc => by rw [hopen c hc]; rfl).group "label").seq _

theorem fails_imageCaption : imageCaption.Fails (tail ++ after) := by
  refine fails_seq fun start r hr => ?_
  rw [rest_of_mem_readings (fun c hc => by rw [hopen c hc]; rfl) hr]
  exact fails_imageLabel hopen

/-- Without a character for the label the separation does not match. -/
theorem fails_imageSeparator_last (c : Char) : imageSeparator.Fails (c :: (tail ++ after)) := by
  refine fails_seq fun start r hr => ?_
  have hrest : r.rest = tail ++ after := by
    obtain hr | hr := List.mem_append.1 hr
    · obtain ⟨d, hd, -⟩ := mem_readings_one hr
      exact (List.cons.inj hd).2.symm
    · obtain ⟨d, hd, -⟩ := mem_readings_one hr
      exact (List.cons.inj hd).2.symm
  rw [hrest]
  exact fails_imageCaption hopen

end Fails

theorem fails_imageSeparator {s : Text} (h : ∀ c ∈ s.head?, isBlank c = false ∧ c ≠ '|') :
    imageSeparator.Fails s := by
  have hblank : (one .blank).Fails s := fails_one fun c hc => (h c hc).1
  have hbar : (one (.just '|')).Fails s := fails_one fun c hc => beq_eq_false_iff_ne.2 (h c hc).2
  exact (fails_either hblank hbar).seq _

variable (htail : imageTail.Prefers tail after groups)
  (hopen : ∀ c ∈ (tail ++ after).head?, c = '<')
include htail hopen

theorem prefers_imageLabel {label : Text} (hne : label ≠ []) (hlabel : '<' ∉ label) :
    imageLabel.Prefers (label ++ tail) after (("label", label) :: groups) := by
  have hrun : (repeated (.notAmong ['<']) .some).Prefers label (tail ++ after) [] := by
    refine prefers_run (fun c hc => ?_) (List.length_pos_iff.2 hne) rfl fun c hc => ?_
    · simpa [CharClass.contains] using ne_of_mem_of_not_mem hc hlabel
    · rw [hopen c hc]
      rfl
  exact (hrun.group "label").seq htail

/-- A label takes all that follows the blanks in front of it. -/
theorem prefers_imageCaption {gap label : Text} (hgap : ∀ c ∈ gap, isBlank c = true)
    (hne : label ≠ []) (hstart : ∀ c ∈ label.head?, isBlank c = false) (hlabel : '<' ∉ label) :
    imageCaption.Prefers (gap ++ (label ++ tail)) after (("label", label) :: groups) := by
  have hrun : (repeated .blank .any).Prefers gap (label ++ tail ++ after) [] := by
    refine prefers_run hgap trivial rfl fun c hc => hstart c ?_
    rwa [List.append_assoc, List.head?_append_of_ne_nil _ hne] at hc
  exact hrun.seq (prefers_imageLabel htail hopen hne hlabel)

/-- Where nothing but blanks is left for a label, it takes the last of them. -/
theorem prefers_imageCaption_blank {gap : Text} {b : Char} (hgap : ∀ c ∈ gap, isBlank c = true)
    (hb : isBlank b = true) :
    imageCaption.Prefers (gap ++ ([b] ++ tail)) after (("label", [b]) :: groups) := by
  have hlabel : '<' ∉ [b] := by
    rw [List.mem_singleton]
    rintro rfl
    exact absurd hb (by decide)
  refine prefers_run_but_last hgap hb (fun c hc => ?_) (List.append_assoc ..)
    (prefers_imageLabel htail hopen (List.cons_ne_nil _ _) hlabel) (fails_imageLabel hopen)
  rw [hopen c hc]
  rfl

/-- The last blank separates if nothing else does. -/
theorem prefers_label_behind_blank {front label : Text} {b : Char}
    (hfront : ∀ c ∈ front, isBlank c = true) (hb : isBlank b = true) (hne : label ≠ [])
    (hstart : ∀ c ∈ label.head?, isBlank c = false) (hlabel : '<' ∉ label)
    (hfails : imageSeparator.Fails (label ++ (tail ++ after))) :
    (Pattern.seq (.repeated .blank .any) imageSeparator).Prefers (front ++ ([b] ++ (label ++ tail)))
      after (("label", label) :: groups) := by
  have hcaption := prefers_imageCaption htail hopen (List.forall_mem_nil _) hne hstart hlabel
  have hrest : [b] ++ (label ++ tail) ++ after = b :: (label ++ (tail ++ after)) := by simp
  refine prefers_run_but_last hfront hb (fun c hc => hstart c ?_) hrest
    ((prefers_separator_blank hb _).seq hcaption) hfails
  rwa [List.head?_append_of_ne_nil _ hne] at hc

/-- Of blanks alone the last is the label, and the one before it separates. -/
theorem prefers_label_blanks {front : Text} {b₁ b₂ : Char}
    (hfront : ∀ c ∈ front, isBlank c = true) (hb₁ : isBlank b₁ = true) (hb₂ : isBlank b₂ = true) :
    (Pattern.seq (.repeated .blank .any) imageSeparator).Prefers (front ++ ([b₁] ++ ([b₂] ++ tail)))
      after (("label", [b₂]) :: groups) := by
  have hcaption := prefers_imageCaption_blank htail hopen (List.forall_mem_nil _) hb₂
  have hspare : ∀ c ∈ [b₁, b₂], isBlank c = true := by simp [hb₁, hb₂]
  have hback : ∀ c ∈ (tail ++ after).head?, isBlank c = false ∧ c ≠ '|' := by
    intro c hc
    rw [hopen c hc]
    decide
  have hrest : [b₁] ++ ([b₂] ++ tail) ++ after = [b₁, b₂] ++ (tail ++ after) := by simp
  refine prefers_shorter_run hfront hspare (fun c hc => (hback c hc).1) hrest
    ((prefers_separator_blank hb₁ _).seq hcaption) fun more left hsplit hne => ?_
  cases more with
  | nil => exact absurd rfl hne
  | cons c more =>
      obtain ⟨-, hsplit⟩ := List.cons.inj hsplit
      cases more with
      | nil =>
          rw [← hsplit.trans (List.nil_append left)]
          exact fails_imageSeparator_last hopen b₂
      | cons d more =>
          rw [(List.append_eq_nil_iff.1 (List.cons.inj hsplit).2.symm).2]
          exact fails_imageSeparator hback

/-- Behind blanks and a bar the label is what follows the next blanks; without anything there it
is the last of them, and without any of them the bar itself. -/
theorem prefers_label_behind_bar {gap gap₂ rest label : Text} (hgap : ∀ c ∈ gap, isBlank c = true)
    (hgap₂ : ∀ c ∈ gap₂, isBlank c = true) (hend : ∀ c ∈ rest.head?, isBlank c = false)
    (hfree : '<' ∉ rest)
    (h : (if rest ≠ [] then some rest
      else if gap₂ ≠ [] then some (gap₂.drop (gap₂.length - 1))
      else if gap ≠ [] then some ['|'] else none) = some label) :
    (Pattern.seq (.repeated .blank .any) imageSeparator).Prefers
      (gap ++ (['|'] ++ (gap₂ ++ (rest ++ tail)))) after (("label", label) :: groups) := by
  have hrun : ∀ caption, (repeated .blank .any).Prefers gap (['|'] ++ caption ++ after) [] :=
    fun caption => prefers_run hgap trivial rfl fun c hc => by cases hc; rfl
  split at h
  · rename_i hne
    obtain rfl := Option.some.inj h
    exact (hrun _).seq ((prefers_separator_bar _).seq
      (prefers_imageCaption htail hopen hgap₂ hne hend hfree))
  · rename_i hnil
    obtain rfl := not_not.1 hnil
    split at h
    · rename_i hne
      obtain ⟨front, b, rfl, hlast⟩ := exists_drop_last hne
      obtain rfl := hlast.symm.trans (Option.some.inj h)
      have hfront : ∀ c ∈ front, isBlank c = true := fun c hc => hgap₂ c (List.mem_append_left _ hc)
      have hcaption := prefers_imageCaption_blank htail hopen hfront (hgap₂ b (by simp))
      rw [List.nil_append, List.append_assoc]
      exact (hrun _).seq ((prefers_separator_bar _).seq hcaption)
    · rename_i hnil
      obtain rfl := not_not.1 hnil
      split at h
      · rename_i hne
        obtain rfl := Option.some.inj h
        obtain ⟨front, b, rfl, -⟩ := exists_drop_last hne
        have hfront : ∀ c ∈ front, isBlank c = true :=
          fun c hc => hgap c (List.mem_append_left _ hc)
        have hbar : ∀ c ∈ ['|'].head?, isBlank c = false := fun c hc => by cases hc; rfl
        rw [List.append_assoc]
        exact prefers_label_behind_blank htail hopen hfront (hgap b (by simp))
          (List.cons_ne_nil _ _) hbar (by decide) (fails_imageSeparator_last hopen '|')
      · cases h

/-- What separates a width from a label, and then the label. -/
theorem prefers_label {caption label : Text} (h : label? caption = some label)
    (hcaption : '<' ∉ caption) :
    (Pattern.seq (.repeated .blank .any) imageSeparator).Prefers (caption ++ tail) after
      (("label", label) :: groups) := by
  obtain ⟨gap, s, rfl, htake, hdrop, hgap, hend⟩ := exists_run isBlank caption
  have hfree : '<' ∉ s := fun hmem => hcaption (List.mem_append_right _ hmem)
  simp only [label?, htake, hdrop] at h
  cases s with
  | nil =>
      dsimp only at h
      split at h
      · rename_i hlength
        obtain ⟨front, b₂, rfl, hlast⟩ :=
          exists_drop_last (List.ne_nil_of_length_pos (Nat.zero_lt_of_lt hlength))
        obtain rfl := hlast.symm.trans (Option.some.inj h)
        rw [List.length_append] at hlength
        obtain ⟨front, b₁, rfl, -⟩ :=
          exists_drop_last (List.ne_nil_of_length_pos (Nat.le_of_succ_le_succ hlength))
        have hfront : ∀ c ∈ front, isBlank c = true := fun c hc => hgap c (by simp [hc])
        rw [List.append_nil, List.append_assoc, List.append_assoc]
        exact prefers_label_blanks htail hopen hfront (hgap b₁ (by simp)) (hgap b₂ (by simp))
      · cases h
  | cons c s =>
      dsimp only at h
      split at h
      · rename_i hbar
        subst hbar
        obtain ⟨gap₂, rest, rfl, htake, hdrop, hgap₂, hend₂⟩ := exists_run isBlank s
        rw [htake, hdrop] at h
        have hrest : '<' ∉ rest := fun hmem => hfree (by simp [hmem])
        rw [List.append_assoc, List.cons_append, List.append_assoc]
        exact prefers_label_behind_bar htail hopen hgap hgap₂ hend₂ hrest h
      · rename_i hbar
        split at h
        · rename_i hne
          obtain rfl := Option.some.inj h
          obtain ⟨front, b, rfl, -⟩ := exists_drop_last hne
          have hfront : ∀ d ∈ front, isBlank d = true :=
            fun d hd => hgap d (List.mem_append_left _ hd)
          have hstop : ∀ d ∈ (c :: s ++ (tail ++ after)).head?, isBlank d = false ∧ d ≠ '|' := by
            intro d hd
            cases hd
            exact ⟨hend c rfl, hbar⟩
          rw [List.append_assoc, List.append_assoc]
          exact prefers_label_behind_blank htail hopen hfront (hgap b (by simp))
            (List.cons_ne_nil c s) hend hfree (fails_imageSeparator hstop)
        · cases h

end Caption

/-- The parts of an image, its caption not yet cut into the separation and the label. -/
structure Captioned (digits caption label path : Text) : Prop where
  digits_ne : digits ≠ []
  all_digits : ∀ c ∈ digits, isDigit c = true
  label_eq : label? caption = some label
  caption_free : '<' ∉ caption
  path_ne : path ≠ []
  path_free : '>' ∉ path

/-- How an image is written. -/
def imageText (digits caption path : Text) : Text :=
  imageLead ++ (digits ++ (imagePixels ++ (caption ++ (imagePath ++ (path ++ imageEnd)))))

theorem captioned_of_image? {s : Text} {l : Lexeme} (h : image? s = some l) :
    ∃ digits caption label path, Captioned digits caption label path ∧
      l.token = .image (digits ++ imagePixels) (trim label) path ∧
      l.taken = imageText digits caption path := by
  obtain ⟨s₁, -, h⟩ := Option.bind_eq_some_iff.1 h
  obtain ⟨_, hdigits, h⟩ := Option.bind_eq_some_iff.1 h
  obtain ⟨s₂, -, h⟩ := Option.bind_eq_some_iff.1 h
  obtain ⟨label, hlabel, h⟩ := Option.bind_eq_some_iff.1 h
  obtain ⟨s₃, -, h⟩ := Option.bind_eq_some_iff.1 h
  obtain ⟨_, hpath, h⟩ := Option.bind_eq_some_iff.1 h
  obtain ⟨after, -, h⟩ := Option.bind_eq_some_iff.1 h
  obtain rfl := Option.some.inj h
  clear h
  replace hdigits := (Option.guard_eq_some' _).1 hdigits
  replace hpath := (Option.guard_eq_some' _).1 hpath
  obtain ⟨digits, _, rfl, htake₁, -, hdigit, -⟩ := exists_run isDigit s₁
  obtain ⟨caption, _, rfl, htake₂, -, hcaption, -⟩ := exists_run (· != '<') s₂
  obtain ⟨path, _, rfl, htake₃, -, hname, -⟩ := exists_run (· != '>') s₃
  rw [htake₁] at hdigits ⊢
  rw [htake₂] at hlabel ⊢
  rw [htake₃] at hpath ⊢
  refine ⟨digits, caption, label, path, ?_, rfl, by simp only [imageText, List.append_assoc]⟩
  exact {
    digits_ne := hdigits
    all_digits := hdigit
    label_eq := hlabel
    caption_free := fun hmem => absurd (hcaption _ hmem) (by decide)
    path_ne := hpath
    path_free := fun hmem => absurd (hname _ hmem) (by decide) }

theorem Captioned.prefers {digits caption label path : Text}
    (h : Captioned digits caption label path) (after : Text) :
    (Kind.pattern .image).Prefers (imageText digits caption path) after
      [("size", digits ++ imagePixels), ("label", label), ("path", path)] := by
  have hopen : ∀ c ∈ (imagePath ++ (path ++ imageEnd) ++ after).head?, c = '<' :=
    fun c hc => by cases hc; rfl
  have hrest := prefers_label (prefers_imageTail h.path_ne h.path_free after) hopen h.label_eq
    h.caption_free
  have hnumber : ∀ rest, (repeated digit .some).Prefers digits (imagePixels ++ rest) [] :=
    fun rest => prefers_run h.all_digits (List.length_pos_iff.2 h.digits_ne) rfl fun c hc => by
      cases hc
      rfl
  have hsize := fun rest => ((hnumber rest).seq (prefers_exact (by decide) rest)).group "size"
  have hlead : ∀ rest, (exact imageLead).Prefers imageLead rest [] := prefers_exact (by decide)
  have hall := (hlead _).seq ((hsize _).seq hrest)
  rw [pattern_image]
  simp only [imageText, List.append_assoc] at hall ⊢
  exact hall

theorem prefers_image {start : Bool} {s : Text} {l : Lexeme} (h : image? s = some l) :
    Kind.image.Prefers start l := by
  obtain ⟨digits, caption, label, path, hparts, htoken, htaken⟩ := captioned_of_image? h
  refine ⟨[("size", digits ++ imagePixels), ("label", label), ("path", path)], ?_, htoken⟩
  rw [htaken]
  exact hparts.prefers l.after start

end WikiDocs.Token

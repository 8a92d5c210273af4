import WikiDocs.Proofs.Bodies
import WikiDocs.Proofs.LongerTexts

/-!
List items on lines that follow each other. Each line is found to be an item and
its text stays pending behind a list marker, where no token is found; the next
line is joined to it by a line break, which then is the first token.
-/

namespace WikiDocs

open Conversion Text Token

namespace Token

theorem Kind.lexeme?_start {kind : Kind} (h : kind.atStart = false) (start start' : Bool)
    (s : Text) : kind.lexeme? start s = kind.lexeme? start' s := by
  cases kind with
  | pageBreak | literalBlock | tableStart | image | newline => rfl
  | title | subtitle | minorTitle | listItem => cases h

theorem literalBlock?_behind {blanks text : Text} (hblanks : ∀ c ∈ blanks, c = ' ' ∨ c = '-')
    (h : literalBlock? text = none) : literalBlock? (blanks ++ text) = none := by
  by_contra hcolons
  rw [← ne_eq, literalBlock?_ne_none_iff] at hcolons
  by_cases hall : blanks.dropWhile isBlank = []
  · rw [List.dropWhile_append_of_pos (List.dropWhile_eq_nil_iff.1 hall)] at hcolons
    exact literalBlock?_ne_none_iff.2 hcolons h
  · -- The blanks end at a hyphen, where no colons stand.
    rw [(span_append (.inl hall)).2] at hcolons
    obtain ⟨c, rest, hrest⟩ := List.exists_cons_of_ne_nil hall
    rw [hrest, List.cons_append, List.cons_prefix_cons] at hcolons
    have hmem : c ∈ blanks := (List.dropWhile_suffix isBlank).subset (by rw [hrest]; simp)
    rw [← hcolons.1] at hmem
    exact absurd (hblanks _ hmem) (by decide)

/-- Within a list marker no token begins of a kind that may stand anywhere. -/
theorem Kind.lexeme?_behind {kind : Kind} {start : Bool} {blanks text : Text}
    (hkind : kind.atStart = false) (hne : blanks ≠ []) (hblanks : ∀ c ∈ blanks, c = ' ' ∨ c = '-')
    (h : find? text = none) : kind.lexeme? start (blanks ++ text) = none := by
  obtain ⟨c, more, rfl⟩ := List.exists_cons_of_ne_nil hne
  have hc := hblanks c List.mem_cons_self
  cases kind with
  | title | subtitle | minorTitle | listItem => cases hkind
  | pageBreak =>
      refine pageBreak?_of_head fun d hd => ?_
      cases hd
      obtain rfl | rfl := hc <;> decide
  | literalBlock => exact literalBlock?_behind hblanks (lexeme?_of_find? h .literalBlock)
  | tableStart | image | newline => obtain rfl | rfl := hc <;> rfl

/-- Behind a list marker a text without tokens has none either. -/
theorem find?_listMarker {depth : Nat} {text : Text} (h : find? text = none) :
    find? (Rst.listMarker depth ++ text) = none := by
  cases hfind : find? (Rst.listMarker depth ++ text) with
  | none => rfl
  | some m =>
      exfalso
      have hkind := not_atStart_of_listMarker hfind
      obtain ⟨start, hlexeme⟩ := lexeme?_of_findFrom? hfind
      obtain ⟨front, hfront⟩ := suffix_of_find? hfind
      have hnone : m.token.kind.lexeme? start (m.taken ++ m.after) = none := by
        obtain ⟨blanks, hmarker, hrest⟩ | ⟨inside, -, hrest⟩ := List.append_eq_append_iff.1 hfront
        · rw [hrest]
          by_cases hblanks : blanks = []
          · rw [hblanks, List.nil_append, Kind.lexeme?_start hkind start true]
            exact lexeme?_of_find? h _
          · refine Kind.lexeme?_behind hkind hblanks (fun c hc => ?_) h
            exact listMarker_chars depth c (by simp [hmarker, hc])
        · obtain ⟨start', hall⟩ := lexeme?_of_suffix h ⟨inside, hrest.symm⟩
          rw [Kind.lexeme?_start hkind start start']
          exact hall _
      rw [hnone] at hlexeme
      cases hlexeme

end Token

/-- A list item as its line is read: marks, spaces, and the text of the item. -/
structure Item where
  marks : Text
  spaces : Nat
  text : Text

namespace Item

def line (i : Item) : Text := i.marks ++ (List.replicate i.spaces ' ' ++ i.text)

/-- An item as it is written: three spaces for each asterisk but the first, a hyphen, a space, and
the text. -/
def rewritten (i : Item) : Text := Rst.listMarker (i.marks.count '*' - 1) ++ i.text

/-- Asterisks and backslashes, with an asterisk among them, before spaces and a text without tokens;
the text does not begin with a blank, and no image begins in it. -/
structure Plain (i : Item) : Prop where
  marks_mem : ∀ c ∈ i.marks, c = '*' ∨ c = '\\'
  star_mem : 0 < i.marks.count '*'
  spaces_pos : 0 < i.spaces
  text_ne : i.text ≠ []
  text_head : ∀ c ∈ i.text.head?, isBlank c = false
  no_token : find? i.text = none
  no_image : ¬ imageLead <:+: i.text

variable {i j : Item}

theorem Plain.isMark (h : i.Plain) : ∀ c ∈ i.marks, isMark c = true := by
  intro c hc
  obtain rfl | rfl := h.marks_mem c hc <;> rfl

theorem Plain.listItem?_eq (h : i.Plain) :
    listItem? i.line = some ⟨.listItem (i.marks.count '*' - 1),
      i.marks ++ List.replicate i.spaces ' ', i.text⟩ := by
  have hstop : ∀ c ∈ (List.replicate i.spaces ' ' ++ i.text).head?, Token.isMark c = false := by
    obtain ⟨n, hn⟩ := Nat.exists_eq_succ_of_ne_zero (Nat.ne_of_gt h.spaces_pos)
    rw [hn, List.replicate_succ]
    intro c hc
    cases hc
    decide
  have hspaces : ∀ c ∈ List.replicate i.spaces ' ', isBlank c = true := by
    intro c hc
    rw [(List.mem_replicate.1 hc).2]
    decide
  obtain ⟨htake, hdrop⟩ := cut_run h.isMark hstop
  obtain ⟨htake', hdrop'⟩ := cut_run hspaces h.text_head
  simp only [listItem?, line, htake, hdrop, htake', hdrop']
  rw [if_pos (List.count_pos_iff.1 h.star_mem)]

theorem Plain.startsBlock (h : i.Plain) : startsBlock i.line = true := by
  refine List.any_eq_true.2 ⟨.listItem, Kind.mem_all _, ?_⟩
  simp [Kind.atStart, Kind.lexeme?, h.listItem?_eq]

/-- On the line of an item, the item is found first. -/
theorem Plain.find?_line (h : i.Plain) :
    find? i.line = some ⟨⟨.listItem (i.marks.count '*' - 1),
      i.marks ++ List.replicate i.spaces ' ', i.text⟩, []⟩ := by
  obtain ⟨c, more, hmarks⟩ := List.exists_cons_of_ne_nil (l := i.marks) (by
    intro hnil
    have hstar := h.star_mem
    rw [hnil] at hstar
    cases hstar)
  have hmark : Token.isMark c = true := h.isMark c (by simp [hmarks])
  have hhead : i.line = c :: (more ++ (List.replicate i.spaces ' ' ++ i.text)) := by
    rw [line, hmarks, List.cons_append]
  have hdrop : i.line.dropWhile isBlank = i.line := by
    rw [hhead, List.dropWhile_cons_of_neg (by simp [isBlank_of_isMark hmark])]
  have hheading : ∀ level, heading? level i.line = none := by
    intro level
    cases hlevel : heading? level i.line with
    | none => rfl
    | some l =>
        obtain ⟨rest, hrest⟩ := sign_of_heading? hlevel
        rw [hdrop, hhead] at hrest
        cases hrest
        cases hmark
  obtain ⟨m, hm, hbefore, hat⟩ := find?_of_startsBlock h.startsBlock
  obtain ⟨-, hlexeme⟩ := of_find?_atStart hm hat
  obtain ⟨l, before⟩ := m
  cases hkind : l.token.kind with
  | listItem =>
      simp only [hkind, Kind.lexeme?, if_true, h.listItem?_eq, Option.some.injEq] at hlexeme
      rw [hm, ← hlexeme, show before = [] from hbefore]
  | title | subtitle | minorTitle =>
      simp [hkind, Kind.lexeme?, hheading] at hlexeme
  | pageBreak | literalBlock | tableStart | image | newline =>
      rw [hkind] at hat
      cases hat

theorem Plain.rewritten_ne (h : i.Plain) : i.rewritten ≠ [] :=
  List.append_ne_nil_of_right_ne_nil _ h.text_ne

theorem Plain.find?_rewritten (h : i.Plain) : find? i.rewritten = none :=
  find?_listMarker h.no_token

/-- Before its blanks end, a rewritten item comes to its hyphen. -/
theorem dropWhile_rewritten (i : Item) : i.rewritten.dropWhile isBlank = '-' :: ' ' :: i.text := by
  have hspaces : ∀ c ∈ List.replicate (3 * (i.marks.count '*' - 1)) ' ', isBlank c = true := by
    intro c hc
    rw [(List.mem_replicate.1 hc).2]
    decide
  rw [rewritten, Rst.listMarker, List.append_assoc, List.dropWhile_append_of_pos hspaces]
  exact List.dropWhile_cons_of_neg (by decide)

theorem Plain.no_image_rewritten (h : i.Plain) : ¬ imageLead <:+: i.rewritten := by
  intro himage
  rw [rewritten, Rst.listMarker, List.append_assoc, List.cons_append] at himage
  obtain hspaces | htext := infix_or_infix (by decide) himage
  · have hmem : '\\' ∈ List.replicate (3 * (i.marks.count '*' - 1)) ' ' :=
      hspaces.subset (by decide)
    exact absurd (List.mem_replicate.1 hmem).2 (by decide)
  · obtain hprefix | hinfix := List.infix_cons_iff.1 htext
    · exact absurd (List.cons_prefix_cons.1 hprefix).1 (by decide)
    · exact h.no_image hinfix

/-- No heading begins in a rewritten item, so none takes the break after it. -/
theorem not_swallows_rewritten (i : Item) (line : Text) : ¬ Swallows i.rewritten line := by
  have hdrop := i.dropWhile_rewritten
  intro h
  cases h with
  | blank level blank heading =>
      rw [List.dropWhile_eq_nil_iff.2 blank] at hdrop
      cases hdrop
  | closed level gap text front rest blank inside opens closes =>
      rw [opens, List.append_assoc, List.dropWhile_append_of_pos blank] at hdrop
      cases level <;> cases hdrop

/-- The line of another item behind a rewritten one: the break between the two is found first. -/
theorem Plain.find?_joined (hi : i.Plain) (hj : j.Plain) :
    find? (i.rewritten ++ '\n' :: j.line) = some ⟨⟨.newline, ['\n'], j.line⟩, i.rewritten⟩ :=
  find?_break hi.rewritten_ne hi.find?_rewritten hi.no_image_rewritten hj.startsBlock
    (i.not_swallows_rewritten j.line)

section Reading

variable (imageDirectory : Text)

/-- The line of an item is rewritten, and the item stays pending. -/
theorem Plain.drain_line (h : i.Plain) (number : Nat) :
    ∃ m, m.token.kind = .listItem ∧
      drain imageDirectory number i.line = ([.token m], .text i.rewritten) := by
  refine ⟨⟨⟨.listItem (i.marks.count '*' - 1), i.marks ++ List.replicate i.spaces ' ', i.text⟩, []⟩,
    rfl, ?_⟩
  rw [drain_some h.find?_line rfl]
  simp only [handle, List.nil_append]
  rw [← rewritten, drain_none h.find?_rewritten]
  rfl

theorem Plain.reads_first (h : i.Plain) :
    Reads imageDirectory .nothing [i.line] [.listItem] [] (.text i.rewritten) := by
  intro number
  obtain ⟨m, hkind, hdrain⟩ := h.drain_line imageDirectory (number + 1)
  refine ⟨[.read [] i.line, .token m], ?_, ?_, rfl⟩
  · simp only [feedAll, feed, attach, resume, hdrain]
    rfl
  · exact congrArg (fun kind => [kind]) hkind

theorem Plain.reads_next (hi : i.Plain) (hj : j.Plain) :
    Reads imageDirectory (.text i.rewritten) [j.line] [.newline, .listItem]
      [Rst.finishLine i.rewritten] (.text j.rewritten) := by
  intro number
  obtain ⟨m, hkind, hdrain⟩ := hj.drain_line imageDirectory (number + 1)
  have hjoint := joint_of_startsBlock hi.rewritten_ne hj.startsBlock
  refine ⟨[.read ['\n'] j.line, .token ⟨⟨.newline, ['\n'], j.line⟩, i.rewritten⟩,
    .write (Rst.finishLine i.rewritten), .token m], ?_, ?_, rfl⟩
  · simp only [feedAll, feed, attach, hjoint, List.append_assoc, List.singleton_append, resume]
    rw [drain_some (hi.find?_joined hj) rfl, handle, hdrain]
    rfl
  · exact congrArg (fun kind => [.newline, kind]) hkind

theorem reads_items {items : List Item} {last : Item} (hi : i.Plain)
    (hitems : ∀ item ∈ items ++ [last], item.Plain) :
    Reads imageDirectory (.text i.rewritten) ((items ++ [last]).map line)
      (List.replicate (items.length + 1) [.newline, .listItem]).flatten
      ((i :: items).map fun item => Rst.finishLine item.rewritten) (.text last.rewritten) := by
  induction items generalizing i with
  | nil => exact hi.reads_next imageDirectory (hitems last (by simp))
  | cons j items ih =>
      rw [List.cons_append, List.forall_mem_cons] at hitems
      exact (hi.reads_next imageDirectory hitems.1).trans (ih hitems.1 hitems.2)

end Reading
end Item

/-- Lines of list items are written one by one, each item on a line with its own depth, and every
line counts as one item. -/
theorem items_written {options : Options} {input : List UInt8} {items : List Item} {last : Item}
    (hplain : ∀ item ∈ items ++ [last], item.Plain)
    (hinput : (Line.pieces input).map (Line.ofPiece options.expandEscapes) =
      ((items ++ [last]).map Item.line).map .ok) :
    let kinds := Kind.listItem :: (List.replicate items.length [.newline, .listItem]).flatten
    WritesBody options input kinds
        (items.map (fun item => Rst.finishLine item.rewritten) ++ [last.rewritten]) ∧
      kinds.count .listItem = (items ++ [last]).length := by
  intro kinds
  have hreads : Reads options.imageDirectory.toList .nothing ((items ++ [last]).map Item.line) kinds
      (items.map fun item => Rst.finishLine item.rewritten) (.text last.rewritten) := by
    cases items with
    | nil => exact (hplain last (by simp)).reads_first _
    | cons first items =>
        rw [List.cons_append, List.forall_mem_cons] at hplain
        exact (hplain.1.reads_first _).trans (Item.reads_items _ hplain.1 hplain.2)
  have hbody := hreads.writesBody hinput
  rw [if_neg (hplain last (by simp)).rewritten_ne] at hbody
  refine ⟨hbody, ?_⟩
  simp [kinds, List.count_flatten]

theorem items_written_nested :
    let first : Item := ⟨['*'], 1, "foo".toList⟩
    let last : Item := ⟨['*', '\\', '*'], 2, "bar".toList⟩
    ((∀ item ∈ [first] ++ [last], item.Plain) ∧
        (Line.pieces "* foo\n*\\*  bar\n".toUTF8.data.toList).map (Line.ofPiece true) =
          (([first] ++ [last]).map Item.line).map .ok) ∧
      WritesBody {} "* foo\n*\\*  bar\n".toUTF8.data.toList [.listItem, .newline, .listItem]
        ["- foo".toList, "   - bar".toList] := by
  intro first last
  have hfirst : first.Plain := ⟨by simp [first], by decide, by decide, by decide,
    fun c hc => by cases hc; decide, by decide +kernel, by decide⟩
  have hlast : last.Plain := ⟨by simp [last], by decide, by decide, by decide,
    fun c hc => by cases hc; decide, by decide +kernel, by decide⟩
  have hplain : ∀ item ∈ [first] ++ [last], item.Plain := by
    rw [List.singleton_append, List.forall_mem_cons, List.forall_mem_singleton]
    exact ⟨hfirst, hlast⟩
  have hinput : (Line.pieces "* foo\n*\\*  bar\n".toUTF8.data.toList).map (Line.ofPiece true) =
      (([first] ++ [last]).map Item.line).map .ok := by decide +kernel
  have hwritten : WritesBody {} _ _ _ ∧ _ = _ := items_written hplain hinput
  exact ⟨⟨hplain, hinput⟩, hwritten.1⟩

end WikiDocs

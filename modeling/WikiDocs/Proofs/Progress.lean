import WikiDocs.Proofs.Conservation
import WikiDocs.Proofs.Scan
import WikiDocs.Proofs.Tally

/-!
Progress. Every token takes a character that was read, never only those of a
list marker, so there are no more tokens than characters on the lines and
between them, and the loops of a conversion end.
-/

namespace WikiDocs

open Conversion Token Text

namespace Ledger

/-- The substance that tokens can still take. An open table has taken some of its own. -/
def potential (ledger : Ledger) : Nat :=
  match ledger.opening with
  | none => ledger.text.substance - ledger.spent.substance
  | some m => ledger.text.substance - (ledger.spent ++ m.before).substance - 1

theorem substance_joint_le (buffer line : Text) : (joint buffer line).substance ≤ 2 := by
  simp only [joint]
  split
  · decide
  · split
    · decide
    · split <;> decide

theorem substance_le_length (s : Text) : s.substance ≤ s.length := List.countP_le_length

variable {ledger : Ledger}

theorem joint_le_of_agrees {joint line : Text} (h : ledger.Agrees (.read joint line)) :
    joint.substance ≤ 2 := by
  simp only [Agrees] at h
  split at h
  · rw [h]
    decide
  · rcases h with ⟨-, rfl⟩ | ⟨-, rest, -, -, rfl⟩
    · decide
    · exact substance_joint_le _ _

theorem potential_read {joint line : Text} (h : ledger.Agrees (.read joint line)) :
    (ledger.enter (.read joint line)).potential ≤ ledger.potential + (line.length + 2) := by
  have hj := joint_le_of_agrees h
  have hl := substance_le_length line
  have htext : (ledger.enter (.read joint line)).text.substance =
      ledger.text.substance + joint.substance + line.substance := by
    rw [text_read, substance_append, substance_append]
  have hspent : (ledger.enter (.read joint line)).spent = ledger.spent := rfl
  have hopen : (ledger.enter (.read joint line)).opening = ledger.opening := rfl
  simp only [potential, hopen, htext, hspent]
  split <;> omega

theorem potential_token {m : Match} (h : ledger.Agrees (.token m)) :
    (ledger.enter (.token m)).potential + 1 ≤ ledger.potential := by
  obtain ⟨hopen, rest, ht, hf⟩ := h
  have hpos := taken_substance_pos hf
  rw [← whole_of_find? hf] at ht
  have hsub : ledger.text.substance = ledger.spent.substance +
      (m.before.substance + m.taken.substance + m.after.substance) := by
    rw [ht, substance_append, Match.whole, substance_append, substance_append]
  cases hm : m.token with
  | listItem depth =>
      have htext := congrArg Text.substance (text_enter_listItem hm ht)
      simp only [substance_append, substance_listMarker] at htext
      have ho : (ledger.enter (.token m)).opening = none := by
        simp [enter, hm, complete]
      simp only [potential, ho, hopen]
      omega
  | tableStart =>
      have he : ledger.enter (.token m) = { ledger with opening := some m } := by
        simp only [enter, hm]
      have htext : (ledger.enter (.token m)).text = ledger.text := by rw [he]; rfl
      have hspent : (ledger.enter (.token m)).spent = ledger.spent := by rw [he]; rfl
      have ho : (ledger.enter (.token m)).opening = some m := by rw [he]
      simp only [potential, ho, hopen, htext, hspent, substance_append]
      omega
  | pageBreak _ | heading _ _ | literalBlock | image _ _ _ | newline =>
      have he : ledger.enter (.token m) = ledger.complete ⟨m, m.taken⟩ := by
        simp only [enter, hm]
      have htext : (ledger.enter (.token m)).text = ledger.text := by rw [he]; rfl
      have hspent : (ledger.enter (.token m)).spent =
          ledger.spent ++ (m.before ++ m.taken) := by
        rw [he, spent_complete]
        simp [Passage.spent, hm]
      have ho : (ledger.enter (.token m)).opening = none := by rw [he]; rfl
      simp only [potential, ho, hopen, htext, hspent, substance_append]
      omega

theorem potential_table {source : Text} {table : Table} (h : ledger.Agrees (.table source table))
    (hm : ∀ m, ledger.opening = some m → m.token = .tableStart) :
    (ledger.enter (.table source table)).potential ≤ ledger.potential := by
  obtain ⟨-, m, markup, after, hopen, ht, hcut⟩ := h
  have happ := congrArg Text.substance (append_of_cutAfter hcut)
  have hlt := substance_lt_of_cutTable? hcut
  have he : ledger.enter (.table source table) = ledger.complete ⟨m, source⟩ := by
    simp only [enter, hopen]
  have htext : (ledger.enter (.table source table)).text = ledger.text := by rw [he]; rfl
  have hspent : (ledger.enter (.table source table)).spent =
      ledger.spent ++ (m.before ++ source) := by
    rw [he, spent_complete]
    simp [Passage.spent, hm m hopen]
  have ho : (ledger.enter (.table source table)).opening = none := by rw [he]; rfl
  have hsub := congrArg Text.substance ht
  simp only [substance_append] at happ hsub
  simp only [potential, ho, hopen, htext, hspent, substance_append]
  omega

/-- Only a table is ever open. -/
theorem opening_enter (h : ∀ m, ledger.opening = some m → m.token = .tableStart) (event : Event) :
    ∀ m, (ledger.enter event).opening = some m → m.token = .tableStart := by
  intro m hm
  cases event with
  | token m' =>
      simp only [enter] at hm
      split at hm
      · cases hm
      · rename_i ht
        cases hm
        exact ht
      · cases hm
  | table source table =>
      simp only [enter] at hm
      split at hm
      · exact h m hm
      · cases hm
  | read _ _ | badSpan _ | openDocument _ | write _ => exact h m hm

/-- Tokens are paid for by the lines that are read, with two characters for each joint. -/
theorem tokens_add_potential_le {events : List Event} (h : ledger.AgreesAll events)
    (hm : ∀ m, ledger.opening = some m → m.token = .tableStart) :
    (events.filterMap Event.token?).length + (ledger.enterAll events).potential ≤
      ledger.potential + ((events.filterMap Event.line?).map (·.length + 2)).sum := by
  induction events generalizing ledger with
  | nil => simp [enterAll]
  | cons event events ih =>
      have hrest := ih h.2 (opening_enter hm event)
      have hhead := h.1
      rw [enterAll_cons]
      cases event with
      | read joint line =>
          have hp := potential_read hhead
          rw [List.filterMap_cons_none (Event.token?_read joint line),
            List.filterMap_cons_some (Event.line?_read joint line), List.map_cons, List.sum_cons]
          omega
      | token m =>
          have hp := potential_token hhead
          rw [List.filterMap_cons_some (Event.token?_token m),
            List.filterMap_cons_none (Event.line?_token m), List.length_cons]
          omega
      | table source table =>
          have hp := potential_table hhead hm
          exact Nat.le_trans hrest (Nat.add_le_add_right hp _)
      | badSpan _ | openDocument _ | write _ => exact hrest

/-- What stands on no line is a space or a hyphen. -/
def InsertsBlank (ledger : Ledger) : Prop :=
  ∀ g ∈ ledger.stream, g.given = false → g.char = ' ' ∨ g.char = '-'

theorem insertsBlank_enter (h : ledger.InsertsBlank) (event : Event) :
    (ledger.enter event).InsertsBlank := by
  cases event with
  | read joint line =>
      intro g hg hgiven
      rcases List.mem_append.1 hg with hg | hg
      · exact h g hg hgiven
      · obtain ⟨c, -, rfl⟩ := List.mem_map.1 hg
        cases hgiven
  | token m =>
      simp only [enter]
      split
      · rename_i depth _
        intro g hg hgiven
        rcases List.mem_append.1 hg with hg | hg
        · rcases List.mem_append.1 hg with hg | hg
          · exact h g (List.mem_of_mem_take hg) hgiven
          · obtain ⟨c, hc, rfl⟩ := List.mem_map.1 hg
            exact listMarker_chars depth c hc
        · exact h g (List.mem_of_mem_drop hg) hgiven
      · exact h
      · exact h
  | table source table =>
      simp only [enter]
      split <;> exact h
  | badSpan _ | openDocument _ | write _ => exact h

theorem insertsBlank_enterAll (h : ledger.InsertsBlank) (events : List Event) :
    (ledger.enterAll events).InsertsBlank := by
  induction events generalizing ledger with
  | nil => exact h
  | cons event events ih => exact ih (insertsBlank_enter h event)

theorem span_chars {m : Match} {rest : Text} (ht : ledger.text = ledger.spent ++ rest)
    (hf : find? rest = some m) : (ledger.span m).map Glyph.char = m.taken := by
  have hwhole := whole_of_find? hf
  rw [Match.whole] at hwhole
  have hdrop : (ledger.stream.map Glyph.char).drop (ledger.spent ++ m.before).length =
      m.taken ++ m.after := by
    change ledger.text.drop _ = _
    rw [ht, ← hwhole, List.append_assoc m.before, ← List.append_assoc, List.drop_left]
  rw [span, List.map_take, List.map_drop, hdrop, List.take_left]

/-- A token takes a character that was read. -/
theorem given_of_agrees {m : Match} (h : ledger.Agrees (.token m)) (hb : ledger.InsertsBlank) :
    ∃ g ∈ ledger.span m, g.given = true := by
  obtain ⟨-, rest, ht, hf⟩ := h
  obtain ⟨c, hc, hsub⟩ := List.countP_pos_iff.1 (taken_substance_pos hf)
  rw [← span_chars ht hf] at hc
  obtain ⟨g, hg, rfl⟩ := List.mem_map.1 hc
  refine ⟨g, hg, ?_⟩
  cases hgiven : g.given with
  | true => rfl
  | false =>
      have hmem : g ∈ ledger.stream := List.mem_of_mem_drop (List.mem_of_mem_take hg)
      rcases hb g hmem hgiven with hchar | hchar <;> simp [hchar] at hsub

/-- No table is open, and what is not spent begins with a list marker. -/
def Itemized (ledger : Ledger) : Prop :=
  ledger.opening = none ∧ ∃ depth rest, ledger.text = ledger.spent ++ (Rst.listMarker depth ++ rest)

theorem itemized_listItem {m : Match} (h : ledger.Agrees (.token m))
    (hm : m.token.kind = .listItem) : (ledger.enter (.token m)).Itemized := by
  obtain ⟨-, rest, ht, hf⟩ := h
  obtain ⟨hbefore, -⟩ := of_find?_atStart hf (by rw [hm]; rfl)
  cases htoken : m.token with
  | listItem depth =>
      refine ⟨?_, depth, m.after, ?_⟩
      · simp [enter, htoken, complete]
      · rw [← whole_of_find? hf] at ht
        rw [text_enter_listItem htoken ht, hbefore, List.nil_append]
  | pageBreak _ | literalBlock | tableStart | image _ _ _ | newline =>
      rw [htoken] at hm
      cases hm
  | heading level _ =>
      rw [htoken] at hm
      cases level <;> cases hm

theorem itemized_enterAll {events : List Event} (h : ledger.Itemized)
    (hn : events.filterMap Event.token? = []) : (ledger.enterAll events).Itemized := by
  induction events generalizing ledger with
  | nil => exact h
  | cons event events ih =>
      cases event with
      | read joint line =>
          obtain ⟨hopen, depth, rest, ht⟩ := h
          refine ih ⟨hopen, depth, rest ++ joint ++ line, ?_⟩ hn
          rw [text_read, ht]
          simp only [List.append_assoc]
          rfl
      | token m => cases hn
      | table source table =>
          have he : ledger.enter (.table source table) = ledger := by
            simp only [enter, h.1]
          rw [enterAll_cons, he]
          exact ih h hn
      | badSpan _ | openDocument _ | write _ => exact ih h hn

theorem not_atStart_of_itemized {m : Match} (h : ledger.Itemized) (ha : ledger.Agrees (.token m)) :
    m.token.kind.atStart = false := by
  obtain ⟨-, depth, rest, ht⟩ := h
  obtain ⟨-, rest', ht', hf⟩ := ha
  have hrest : Rst.listMarker depth ++ rest = rest' := List.append_cancel_left (ht.symm.trans ht')
  rw [← hrest] at hf
  exact not_atStart_of_listMarker hf

end Ledger

/-- There are at most as many turns as there are characters on the lines, three more for each
line, however the turns are taken. -/
theorem turns_le {imageDirectory : Text} {lines : List Text} {count : Nat} {events : List Event}
    {last : Course} (h : Turns imageDirectory ⟨{}, lines⟩ count events last) :
    count ≤ (lines.map (·.length + 3)).sum := by
  obtain ⟨hread, hcount⟩ := turns_reads h
  have hbalanced : Ledger.Balanced {} .nothing := ⟨rfl, rfl, rfl⟩
  have hr := Ledger.turns_reaches h hbalanced
  have hle := Ledger.tokens_add_potential_le hr.agrees (fun m hm => by cases hm)
  have hzero : Ledger.potential {} = 0 := rfl
  have hsum : ((events.filterMap Event.line?).map (·.length + 3)).sum =
      ((events.filterMap Event.line?).map (·.length + 2)).sum +
        (events.filterMap Event.line?).length := by
    generalize events.filterMap Event.line? = read
    induction read with
    | nil => rfl
    | cons line read ih =>
        simp only [List.map_cons, List.sum_cons, List.length_cons, ih]
        omega
  have hall : (lines.map (·.length + 3)).sum =
      ((events.filterMap Event.line?).map (·.length + 3)).sum +
        (last.unread.map (·.length + 3)).sum := by
    rw [← List.sum_append, ← List.map_append, hread]
  omega

variable {σ ω : Type} [Sink σ ω]

/-- The tally of a run that succeeds has one for each token, and each is paid for by the lines. -/
theorem total_le_of_convert_ok {sink : σ} {options : Options} {input : List UInt8}
    {summary : Summary} (h : (convert sink options input).answer = .ok summary) :
    summary.tally.total ≤
      (((runEvents sink options input).filterMap Event.line?).map (·.length + 2)).sum := by
  obtain ⟨registry, hstart, -, -, hall⟩ := started_of_convert_ok h
  obtain ⟨-, -, -, -, htally⟩ := convert_of_ok h hstart
  have hle := Ledger.tokens_add_potential_le (agreesAll_runEvents sink options input)
    (fun m hm => by cases hm)
  have hzero : Ledger.potential {} = 0 := rfl
  have htotal : summary.tally.total =
      ((runEvents sink options input).filterMap Event.token?).length := by
    rw [htally, Session.performAll_tally hall]
    exact (Tally.total_foldl {} _).trans (Nat.zero_add _)
  omega

/-- The token of a run that comes after an item is no item and no heading, whatever is read
between the two. -/
theorem not_atStart_of_listItem {before between after : List Event} {m m' : Match}
    (h : Ledger.AgreesAll {} (before ++ .token m :: (between ++ .token m' :: after)))
    (hbetween : between.filterMap Event.token? = []) (hm : m.token.kind = .listItem) :
    m'.token.kind.atStart = false := by
  obtain ⟨htoken, hlater⟩ := (Ledger.agreesAll_append.1 h).2
  have hitem := Ledger.itemized_listItem htoken hm
  exact Ledger.not_atStart_of_itemized (Ledger.itemized_enterAll hitem hbetween)
    (Ledger.agreesAll_append.1 hlater).2.1

/-- The loops of a conversion end: its turns are bounded by its lines, and after the last line none
is possible. A run that succeeds has found at most as many tokens as there are characters on its
lines, two more for each line. In every run each token takes a character that was read, and the
token after a list item is neither a list item nor a heading. -/
theorem tokens_bounded (sink : σ) (options : Options) (input : List UInt8) :
    (∀ lines : List Text,
      (∀ count events last, Turns options.imageDirectory.toList ⟨{}, lines⟩ count events last →
        count ≤ (lines.map (·.length + 3)).sum) ∧
      ∃ count state,
        Turns options.imageDirectory.toList ⟨{}, lines⟩ count
          (feedAll options.imageDirectory.toList {} lines).1 ⟨state, []⟩ ∧
        state = (feedAll options.imageDirectory.toList {} lines).2 ∧
        ∀ events last, ¬ Turn options.imageDirectory.toList ⟨state, []⟩ events last) ∧
    (∀ summary, (convert sink options input).answer = .ok summary →
      ∃ lines : List Text,
        (Line.pieces input).map (Line.ofPiece options.expandEscapes) = lines.map .ok ∧
        (summary.tally.tokens.map Prod.snd).sum ≤ (lines.map (·.length + 2)).sum) ∧
    (∀ before m after, runEvents sink options input = before ++ .token m :: after →
      ∃ g ∈ (ledgerOf before).span m, g.given = true) ∧
    ∀ before m between m' after,
      runEvents sink options input = before ++ .token m :: (between ++ .token m' :: after) →
      between.filterMap Event.token? = [] → m.token.kind = .listItem →
      m'.token.kind.atStart = false := by
  have hagrees := agreesAll_runEvents sink options input
  refine ⟨?_, ?_, ?_, ?_⟩
  · intro lines
    refine ⟨fun _ _ _ h => turns_le h, ?_⟩
    obtain ⟨count, turns, settled⟩ := feedAll_turns
      options.imageDirectory.toList State.settled_start lines
    exact ⟨count, _, turns, rfl, fun _ _ => not_turn_of_settled settled⟩
  · intro summary h
    obtain ⟨lines, hlines, hread⟩ := lines_of_convert_ok h
    have hle := total_le_of_convert_ok h
    rw [hread] at hle
    exact ⟨lines, hlines, hle⟩
  · intro before m after h
    rw [h] at hagrees
    have htoken := (Ledger.agreesAll_append.1 hagrees).2.1
    refine Ledger.given_of_agrees htoken (Ledger.insertsBlank_enterAll ?_ before)
    intro g hg
    cases hg
  · intro before m between m' after h hbetween hm
    rw [h] at hagrees
    exact not_atStart_of_listItem hagrees hbetween hm

end WikiDocs

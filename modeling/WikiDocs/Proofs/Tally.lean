import Mathlib.Algebra.GroupWithZero.Nat
import WikiDocs.Proofs.Run
import WikiDocs.Proofs.Scan

/-!
The tally of a session counts its events. The numbers of tokens are kept in
order of priority, so that the number of a kind is found where it belongs.
-/

namespace WikiDocs

open Token

theorem lookup_cons_of_ne {α β : Type} [BEq α] [LawfulBEq α] {key other : α} (h : other ≠ key)
    (value : β) (pairs : List (α × β)) :
    ((key, value) :: pairs).lookup other = pairs.lookup other := by
  simp only [List.lookup_cons, beq_eq_false_iff_ne.2 h]

namespace Tally

def enter (tally : Tally) : Event → Tally
  | .read _ _ => tally.addLine
  | .token m => tally.addToken m.token.kind
  | .table _ table => tally.addTable table.rowCount
  | .badSpan _ | .openDocument _ | .write _ => tally

/-- The number of tokens of all kinds. -/
def total (tally : Tally) : Nat := (tally.tokens.map Prod.snd).sum

theorem sum_increment (kind : Kind) (counts : List (Kind × Nat)) :
    ((increment kind counts).map Prod.snd).sum = (counts.map Prod.snd).sum + 1 := by
  induction counts with
  | nil => rfl
  | cons count counts ih =>
      obtain ⟨k, n⟩ := count
      simp only [increment]
      split
      · simp only [List.map_cons, List.sum_cons]
        omega
      · split
        · simp only [List.map_cons, List.sum_cons]
          omega
        · simp only [List.map_cons, List.sum_cons, ih]
          omega

theorem total_foldl (tally : Tally) (events : List Event) :
    (events.foldl enter tally).total =
      tally.total + (events.filterMap Event.token?).length := by
  induction events generalizing tally with
  | nil => rfl
  | cons event events ih =>
      rw [List.foldl_cons, ih]
      cases event with
      | token m =>
          have h : (tally.enter (.token m)).total = tally.total + 1 := sum_increment _ _
          rw [h, List.filterMap_cons_some (Event.token?_token m), List.length_cons]
          omega
      | read _ _ | badSpan _ | table _ _ | openDocument _ | write _ => rfl

theorem lines_foldl (tally : Tally) (events : List Event) :
    (events.foldl enter tally).lines = tally.lines + (events.filterMap Event.line?).length := by
  induction events generalizing tally with
  | nil => rfl
  | cons event events ih =>
      rw [List.foldl_cons, ih]
      cases event with
      | read joint line =>
          have h : (tally.enter (.read joint line)).lines = tally.lines + 1 := rfl
          rw [h, List.filterMap_cons_some (Event.line?_read joint line), List.length_cons]
          omega
      | token _ | badSpan _ | table _ _ | openDocument _ | write _ => rfl

/-- The kinds counted, in order of priority. -/
def Sorted (counts : List (Kind × Nat)) : Prop :=
  counts.Pairwise fun a b => a.1.priority < b.1.priority

theorem mem_increment {kind : Kind} {counts : List (Kind × Nat)} {count : Kind × Nat}
    (h : count ∈ increment kind counts) : count.1 = kind ∨ ∃ n, (count.1, n) ∈ counts := by
  induction counts with
  | nil => exact .inl (by rw [List.mem_singleton.1 h])
  | cons head counts ih =>
      obtain ⟨k, n⟩ := head
      simp only [increment] at h
      split at h
      · rcases List.mem_cons.1 h with rfl | h
        · exact .inr ⟨n, List.mem_cons_self⟩
        · exact .inr ⟨count.2, List.mem_cons_of_mem _ h⟩
      · split at h
        · rcases List.mem_cons.1 h with rfl | h
          · exact .inl rfl
          · exact .inr ⟨count.2, h⟩
        · rcases List.mem_cons.1 h with rfl | h
          · exact .inr ⟨n, List.mem_cons_self⟩
          · exact (ih h).imp_right fun ⟨n', hn⟩ => ⟨n', List.mem_cons_of_mem _ hn⟩

theorem sorted_increment (kind : Kind) {counts : List (Kind × Nat)} (h : Sorted counts) :
    Sorted (increment kind counts) := by
  induction counts with
  | nil => exact List.pairwise_singleton _ _
  | cons head counts ih =>
      obtain ⟨k, n⟩ := head
      obtain ⟨hhead, htail⟩ := List.pairwise_cons.1 h
      simp only [increment]
      split
      · exact List.pairwise_cons.2 ⟨hhead, htail⟩
      · rename_i hne
        split
        · rename_i hlt
          refine List.pairwise_cons.2 ⟨?_, h⟩
          intro count hcount
          rcases List.mem_cons.1 hcount with rfl | hcount
          · exact hlt
          · exact Nat.lt_trans hlt (hhead count hcount)
        · rename_i hle
          refine List.pairwise_cons.2 ⟨?_, ih htail⟩
          intro count hcount
          have hkind : k.priority ≠ kind.priority := fun he => hne (Kind.priority_injective he)
          rcases mem_increment hcount with hc | ⟨n', hc⟩
          · rw [hc]
            change k.priority < kind.priority
            omega
          · exact hhead (count.1, n') hc

theorem lookup_eq_none {kind : Kind} {counts : List (Kind × Nat)}
    (h : ∀ count ∈ counts, kind.priority < count.1.priority) : counts.lookup kind = none := by
  rw [List.lookup_eq_none_iff]
  intro count hcount
  have hlt := h count hcount
  rw [bne_iff_ne]
  intro he
  rw [he] at hlt
  exact Nat.lt_irrefl _ hlt

theorem getD_lookup_increment {counts : List (Kind × Nat)} (h : Sorted counts) (kind k : Kind) :
    ((increment kind counts).lookup k).getD 0 =
      (counts.lookup k).getD 0 + if k = kind then 1 else 0 := by
  induction counts with
  | nil =>
      by_cases hk : k = kind
      · simp [increment, hk]
      · simp [increment, hk, lookup_cons_of_ne hk]
  | cons head counts ih =>
      obtain ⟨k', n⟩ := head
      obtain ⟨hhead, htail⟩ := List.pairwise_cons.1 h
      simp only [increment]
      split
      · rename_i he
        subst he
        by_cases hk : k = k'
        · simp [hk]
        · simp [hk, lookup_cons_of_ne hk]
      · rename_i hne
        split
        · -- The kind comes before all that were counted, so it was not among them.
          rename_i hlt
          by_cases hk : k = kind
          · have hnone : ((k', n) :: counts).lookup kind = none := by
              refine lookup_eq_none (List.forall_mem_cons.2 ⟨hlt, ?_⟩)
              intro count hcount
              exact Nat.lt_trans hlt (hhead count hcount)
            rw [hk, hnone]
            simp
          · rw [lookup_cons_of_ne hk, if_neg hk, Nat.add_zero]
        · by_cases hk : k = k'
          · simp [hk, hne]
          · rw [lookup_cons_of_ne hk, lookup_cons_of_ne hk]
            exact ih htail

theorem tokenCount_foldl {tally : Tally} (h : Sorted tally.tokens) (events : List Event)
    (kind : Kind) :
    (events.foldl enter tally).tokenCount kind =
      tally.tokenCount kind +
        (events.filterMap Event.token?).countP fun m => m.token.kind == kind := by
  induction events generalizing tally with
  | nil => rfl
  | cons event events ih =>
      rw [List.foldl_cons]
      cases event with
      | token m =>
          have hs : Sorted (tally.enter (.token m)).tokens := sorted_increment _ h
          have hc : (tally.enter (.token m)).tokenCount kind =
              tally.tokenCount kind + if kind = m.token.kind then 1 else 0 :=
            getD_lookup_increment h _ _
          rw [ih hs, hc, List.filterMap_cons_some (Event.token?_token m), List.countP_cons]
          by_cases hk : m.token.kind = kind
          · simp only [hk, beq_self_eq_true, if_true]
            omega
          · simp [hk, Ne.symm hk]
      | read _ _ | badSpan _ | table _ _ | openDocument _ | write _ => exact ih h

/-- A kind is not counted before it occurs. -/
theorem pos_increment (kind : Kind) {counts : List (Kind × Nat)}
    (h : ∀ count ∈ counts, 0 < count.2) : ∀ count ∈ increment kind counts, 0 < count.2 := by
  induction counts with
  | nil => exact List.forall_mem_singleton.2 Nat.one_pos
  | cons head counts ih =>
      obtain ⟨k, n⟩ := head
      obtain ⟨hhead, htail⟩ := List.forall_mem_cons.1 h
      simp only [increment]
      split
      · exact List.forall_mem_cons.2 ⟨Nat.succ_pos n, htail⟩
      · split
        · exact List.forall_mem_cons.2 ⟨Nat.one_pos, h⟩
        · exact List.forall_mem_cons.2 ⟨hhead, ih htail⟩

theorem pos_foldl {tally : Tally} (h : ∀ count ∈ tally.tokens, 0 < count.2) (events : List Event) :
    ∀ count ∈ (events.foldl enter tally).tokens, 0 < count.2 := by
  induction events generalizing tally with
  | nil => exact h
  | cons event events ih =>
      rw [List.foldl_cons]
      cases event with
      | token m => exact ih (pos_increment m.token.kind h)
      | read _ _ | badSpan _ | table _ _ | openDocument _ | write _ => exact ih h

theorem tables_foldl (tally : Tally) (events : List Event) :
    (events.foldl enter tally).tables =
        tally.tables + (events.filterMap Event.table?).length ∧
      (events.foldl enter tally).tableRows =
        tally.tableRows + ((events.filterMap Event.table?).map Table.rowCount).sum := by
  induction events generalizing tally with
  | nil => exact ⟨rfl, rfl⟩
  | cons event events ih =>
      obtain ⟨htables, hrows⟩ := ih (tally.enter event)
      rw [List.foldl_cons, htables, hrows]
      cases event with
      | table source table =>
          have hsome : (Event.table source table).table? = some table := rfl
          rw [List.filterMap_cons_some hsome, List.length_cons, List.map_cons, List.sum_cons]
          simp only [enter, addTable]
          omega
      | read _ _ | token _ | badSpan _ | openDocument _ | write _ => exact ⟨rfl, rfl⟩

end Tally

namespace Session

variable {σ ω : Type} [Sink σ ω]

theorem perform_tally {session : Session σ ω} {event : Event}
    (h : (session.perform event).answer = .ok ()) :
    (session.perform event).state.tally = session.tally.enter event := by
  cases event with
  | read _ _ | token _ | badSpan _ | table _ _ | openDocument _ => rfl
  | write line =>
      rw [perform_write_ok h]
      rfl

/-- The tally of a session that carried out all events has counted each of them. -/
theorem performAll_tally {session : Session σ ω} {events : List Event}
    (h : (session.performAll events).answer = .ok ()) :
    (session.performAll events).state.tally = events.foldl Tally.enter session.tally := by
  induction events generalizing session with
  | nil => rfl
  | cons event events ih =>
      obtain ⟨_, hp, hs⟩ := Outcome.answer_andThen h
      rw [performAll, Outcome.andThen_ok hp, List.foldl_cons, ← perform_tally hp]
      exact ih hs

end Session
end WikiDocs

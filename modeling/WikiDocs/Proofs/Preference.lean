import WikiDocs.Proofs.Recognition

/-!
The readings that patterns prefer. A repetition prefers the longest or the
shortest run; the pattern behind it decides which run it settles for. What a
sequence prefers is put together from what its parts prefer, if the runs that
come sooner lead nowhere.
-/

namespace WikiDocs

open Text

namespace Repetition

/-- Whether more repetitions are preferred. -/
def greedy : Repetition → Bool
  | any | some | optional => true
  | fewest => false

/-- Which of two numbers of repetitions is tried sooner. -/
def sooner (m n : Nat) : Repetition → Prop
  | any | some | optional => n < m
  | fewest => m < n

theorem pairwise_counts (times : Repetition) (most : Nat) :
    (times.counts most).Pairwise fun m n => times.sooner m n := by
  cases times with
  | any =>
      rw [counts, List.pairwise_reverse]
      exact List.pairwise_lt_range
  | some =>
      rw [counts, List.pairwise_reverse, List.pairwise_map]
      exact List.pairwise_lt_range.imp Nat.succ_lt_succ
  | fewest =>
      rw [counts, List.pairwise_map]
      exact List.pairwise_lt_range.imp Nat.succ_lt_succ
  | optional =>
      rw [counts]
      split <;> simp [sooner]

theorem mem_counts_of_admits {times : Repetition} {n most : Nat} (hle : n ≤ most)
    (h : times.admits n) : n ∈ times.counts most := by
  cases times with
  | any =>
      rw [counts, List.mem_reverse, List.mem_range]
      exact Nat.lt_succ_of_le hle
  | some =>
      rw [counts, List.mem_reverse, List.mem_map]
      exact ⟨n - 1, List.mem_range.2 (Nat.sub_one_lt_of_le h hle), Nat.sub_add_cancel h⟩
  | fewest =>
      rw [counts, List.mem_map]
      exact ⟨n - 1, List.mem_range.2 (Nat.sub_one_lt_of_le h hle), Nat.sub_add_cancel h⟩
  | optional =>
      have h : n ≤ 1 := h
      rw [counts]
      split
      · rw [List.mem_singleton]
        omega
      · rw [List.mem_cons, List.mem_singleton]
        omega

end Repetition

namespace Pattern

theorem matchAt?_seq (p q : Pattern) (start : Bool) (s : Text) :
    (seq p q).matchAt? start s = (p.readings start s).findSome? fun r =>
      (q.matchAt? (start && r.taken.isEmpty) r.rest).map r.andThen := by
  rw [matchAt?, readings, List.head?_flatMap]
  simp only [List.head?_map, matchAt?]

/-- Whatever stands in front, a pattern takes `taken` off a text that goes on with `rest`, and its
groups take `groups`. -/
def Prefers (p : Pattern) (taken rest : Text) (groups : List (String × Text)) : Prop :=
  ∀ start, p.matchAt? start (taken ++ rest) = some ⟨taken, rest, groups⟩

/-- Whatever stands in front, a pattern does not match at a text. -/
def Fails (p : Pattern) (s : Text) : Prop := ∀ start, p.matchAt? start s = none

variable {p q : Pattern} {chars : CharClass} {times : Repetition} {taken taken' run rest s : Text}
  {groups groups' : List (String × Text)}

theorem Prefers.seq (hp : p.Prefers taken (taken' ++ rest) groups)
    (hq : q.Prefers taken' rest groups') :
    (Pattern.seq p q).Prefers (taken ++ taken') rest (groups ++ groups') := by
  intro start
  obtain ⟨later, hreadings⟩ := List.head?_eq_some_iff.1 (hp start)
  rw [List.append_assoc, matchAt?_seq, hreadings, List.findSome?_cons, hq]
  rfl

/-- A sequence settles for the first reading behind which it can go on. -/
theorem prefers_seq_of_split
    (hp : ∀ start, ∃ sooner later,
      p.readings start (taken ++ (taken' ++ rest)) =
        sooner ++ ⟨taken, taken' ++ rest, groups⟩ :: later ∧ ∀ r ∈ sooner, q.Fails r.rest)
    (hq : q.Prefers taken' rest groups') :
    (seq p q).Prefers (taken ++ taken') rest (groups ++ groups') := by
  intro start
  obtain ⟨sooner, later, hreadings, hfails⟩ := hp start
  have hnone : (sooner.findSome? fun r =>
      (q.matchAt? (start && r.taken.isEmpty) r.rest).map r.andThen) = none := by
    rw [List.findSome?_eq_none_iff]
    intro r hr
    rw [hfails r hr]
    rfl
  rw [List.append_assoc, matchAt?_seq, hreadings, List.findSome?_append, hnone,
    List.findSome?_cons, hq]
  rfl

theorem fails_seq (h : ∀ start, ∀ r ∈ p.readings start s, q.Fails r.rest) : (seq p q).Fails s := by
  intro start
  rw [matchAt?_seq, List.findSome?_eq_none_iff]
  intro r hr
  rw [h start r hr]
  rfl

theorem Fails.seq (h : p.Fails s) (q : Pattern) : (Pattern.seq p q).Fails s := by
  refine fails_seq fun start r hr => ?_
  rw [List.head?_eq_none_iff.1 (h start)] at hr
  cases hr

theorem Fails.group (h : p.Fails s) (name : String) : (Pattern.group name p).Fails s := by
  intro start
  rw [matchAt?, readings, List.head?_eq_none_iff.1 (h start)]
  rfl

theorem Prefers.group (h : p.Prefers taken rest groups) (name : String) :
    (Pattern.group name p).Prefers taken rest ((name, taken) :: groups) := by
  intro start
  rw [matchAt?, readings, List.head?_map, ← matchAt?, h]
  rfl

theorem prefers_one {c : Char} (h : chars.contains c = true) (rest : Text) :
    (one chars).Prefers [c] rest [] := by
  intro start
  rw [List.singleton_append, matchAt?, readings, if_pos h]
  rfl

theorem fails_one (h : ∀ c ∈ s.head?, chars.contains c = false) : (one chars).Fails s := by
  intro start
  cases s with
  | nil => rfl
  | cons c s =>
      have hc : ¬ chars.contains c = true := by simpa using h c rfl
      rw [matchAt?, readings, if_neg hc]
      rfl

/-- Where no character of a class stands, a repetition can take nothing. -/
theorem rest_of_mem_readings {start : Bool} {r : Reading}
    (hs : ∀ c ∈ s.head?, chars.contains c = false)
    (h : r ∈ (repeated chars times).readings start s) : r.rest = s := by
  obtain ⟨run, hrun, hinside, -⟩ := leadsTo_repeated ⟨r, h, rfl⟩
  cases run with
  | nil => exact hrun.symm
  | cons c run =>
      have hc := hs c (by rw [hrun]; rfl)
      rw [hinside c List.mem_cons_self] at hc
      cases hc

theorem fails_repeated (hs : ∀ c ∈ s.head?, chars.contains c = false) :
    (repeated chars .some).Fails s := by
  intro start
  rw [matchAt?, List.head?_eq_none_iff, List.eq_nil_iff_forall_not_mem]
  intro r hr
  obtain ⟨run, hrun, -, hpos⟩ := leadsTo_repeated ⟨r, hr, rfl⟩
  rw [rest_of_mem_readings hs hr] at hrun
  exact Nat.lt_irrefl _ (List.self_eq_append_left.1 hrun ▸ hpos)

theorem prefers_exact {word : Text} (hne : word ≠ []) (rest : Text) :
    (exact word).Prefers word rest [] := by
  induction word with
  | nil => exact absurd rfl hne
  | cons c word ih =>
      have hone : ∀ rest, (one (.just c)).Prefers [c] rest [] := prefers_one (beq_self_eq_true c)
      cases word with
      | nil => exact hone rest
      | cons d word => exact (hone (d :: word ++ rest)).seq (ih (List.cons_ne_nil d word))

theorem fails_exact {c : Char} {word : Text} (h : ∀ d ∈ s.head?, d ≠ c) :
    (exact (c :: word)).Fails s := by
  have hone : (one (.just c)).Fails s := fails_one fun d hd => beq_eq_false_iff_ne.2 (h d hd)
  cases word with
  | nil => exact hone
  | cons d word => exact hone.seq _

theorem prefers_either_left (h : p.Prefers taken rest groups) (q : Pattern) :
    (either p q).Prefers taken rest groups := by
  intro start
  have hleft := h start
  rw [matchAt?] at hleft
  rw [matchAt?, readings, List.head?_append, hleft, Option.some_or]

theorem prefers_either_right (hp : p.Fails (taken ++ rest)) (hq : q.Prefers taken rest groups) :
    (either p q).Prefers taken rest groups := by
  intro start
  rw [matchAt?, readings, List.head?_eq_none_iff.1 (hp start), List.nil_append]
  exact hq start

theorem fails_either (hp : p.Fails s) (hq : q.Fails s) : (either p q).Fails s := by
  intro start
  rw [matchAt?, readings, List.head?_eq_none_iff.1 (hp start), List.nil_append]
  exact hq start

section Runs

variable (hrun : ∀ c ∈ run, chars.contains c = true)
include hrun

/-- Sooner than a run, a repetition tries the runs of numbers of characters that it prefers. -/
theorem readings_run (hadmits : times.admits run.length) (rest : Text) (start : Bool) :
    ∃ sooner later, (repeated chars times).readings start (run ++ rest) =
        sooner ++ ⟨run, rest, []⟩ :: later ∧
      ∀ r ∈ sooner, ∃ n, times.sooner n run.length ∧ times.admits n ∧
        n ≤ ((run ++ rest).takeWhile chars.contains).length ∧ r.rest = (run ++ rest).drop n := by
  have hle : run.length ≤ ((run ++ rest).takeWhile chars.contains).length := by
    rw [List.takeWhile_append_of_pos hrun, List.length_append]
    exact Nat.le_add_right ..
  obtain ⟨front, back, hcounts⟩ :=
    List.append_of_mem (Repetition.mem_counts_of_admits hle hadmits)
  have hpairs := times.pairwise_counts ((run ++ rest).takeWhile chars.contains).length
  rw [hcounts, List.pairwise_append] at hpairs
  have hreadings := congrArg
    (List.map fun n => Reading.mk ((run ++ rest).take n) ((run ++ rest).drop n) []) hcounts
  rw [List.map_append, List.map_cons, List.take_left, List.drop_left] at hreadings
  refine ⟨_, _, hreadings, fun r hr => ?_⟩
  obtain ⟨n, hn, rfl⟩ := List.mem_map.1 hr
  have hmem : n ∈ times.counts ((run ++ rest).takeWhile chars.contains).length := by
    rw [hcounts]
    exact List.mem_append_left _ hn
  obtain ⟨hmost, hadmits⟩ := Repetition.admits_of_mem_counts hmem
  exact ⟨n, hpairs.2.2 n hn _ List.mem_cons_self, hadmits, hmost, rfl⟩

/-- A repetition that prefers more takes a whole run. -/
theorem prefers_run (hadmits : times.admits run.length) (hgreedy : times.greedy = true)
    (hrest : ∀ c ∈ rest.head?, chars.contains c = false) :
    (repeated chars times).Prefers run rest [] := by
  intro start
  obtain ⟨sooner, later, hreadings, hsooner⟩ := readings_run hrun hadmits _ start
  cases sooner with
  | nil =>
      rw [matchAt?, hreadings]
      rfl
  | cons r sooner =>
      obtain ⟨n, hn, -, hmost, -⟩ := hsooner r List.mem_cons_self
      rw [(cut_run hrun hrest).1] at hmost
      cases times with
      | any | some | optional => exact absurd hmost (Nat.not_le_of_lt hn)
      | fewest => cases hgreedy

/-- A repetition that could take more settles for a run if nothing goes on behind longer ones. -/
theorem prefers_shorter_run {spare back : Text} (hspare : ∀ c ∈ spare, chars.contains c = true)
    (hback : ∀ c ∈ back.head?, chars.contains c = false) (hs : taken ++ rest = spare ++ back)
    (hq : q.Prefers taken rest groups)
    (hfails : ∀ more left, spare = more ++ left → more ≠ [] → q.Fails (left ++ back)) :
    (seq (repeated chars .any) q).Prefers (run ++ taken) rest groups := by
  rw [← List.nil_append groups]
  refine prefers_seq_of_split (fun start => ?_) hq
  have hadmits : Repetition.any.admits run.length := trivial
  obtain ⟨sooner, later, hreadings, hsooner⟩ := readings_run hrun hadmits (taken ++ rest) start
  refine ⟨sooner, later, hreadings, fun r hr => ?_⟩
  obtain ⟨n, hn, -, hmost, hrest⟩ := hsooner r hr
  have hn : run.length < n := hn
  have hall : ∀ c ∈ run ++ spare, chars.contains c = true :=
    fun c hc => (List.mem_append.1 hc).elim (hrun c) (hspare c)
  rw [hs, ← List.append_assoc, (cut_run hall hback).1, List.length_append] at hmost
  have hdrop : r.rest = spare.drop (n - run.length) ++ back := by
    rw [hrest, hs, List.drop_append, List.drop_eq_nil_of_le (Nat.le_of_lt hn), List.nil_append,
      List.drop_append_of_le_length (by omega)]
  rw [hdrop]
  refine hfails (spare.take (n - run.length)) _ (List.take_append_drop ..).symm ?_
  refine List.ne_nil_of_length_pos ?_
  rw [List.length_take]
  omega

/-- A repetition gives back one character if it has to. -/
theorem prefers_run_but_last {c : Char} {back : Text} (hc : chars.contains c = true)
    (hback : ∀ d ∈ back.head?, chars.contains d = false) (hs : taken ++ rest = c :: back)
    (hq : q.Prefers taken rest groups) (hfails : q.Fails back) :
    (seq (repeated chars .any) q).Prefers (run ++ taken) rest groups := by
  have hspare : ∀ d ∈ [c], chars.contains d = true := List.forall_mem_singleton.2 hc
  refine prefers_shorter_run hrun hspare hback hs hq fun more left hsplit hne => ?_
  obtain ⟨d, more, rfl⟩ := List.exists_cons_of_ne_nil hne
  rw [(List.append_eq_nil_iff.1 (List.cons.inj hsplit).2.symm).2]
  exact hfails

end Runs

end Pattern
end WikiDocs

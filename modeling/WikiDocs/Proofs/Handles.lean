import Mathlib.Data.List.Basic
import Mathlib.Data.List.Induction
import WikiDocs.Proofs.Memory

/-!
Files in memory through handles. Whatever is created, written and flushed, and
through whichever of the handles obtained so far, a file holds what was written
under its name since it was last created, and the names stand in the order in
which they were first created.
-/

namespace WikiDocs.MemoryFiles

/-- An operation on files in memory. Handles are numbered in the order in which they are
obtained. -/
inductive Operation where
  | create (name : String)
  | write (handle : Nat) (bytes : ByteArray)
  | flush (handle : Nat)

/-- Files in memory, and the handles obtained so far. -/
structure Held where
  store : MemoryFiles := {}
  handles : List MemoryFile := []

namespace Held

/-- Carries out an operation, if its handle was obtained. -/
def operate? (held : Held) : Operation → Option Held
  | .create name =>
      match Sink.create held.store name with
      | .ok (store, file) => some { store, handles := held.handles ++ [file] }
      | .error _ => none
  | .write handle bytes =>
      held.handles[handle]?.map fun file =>
        { held with store := held.store.append file.name bytes }
  | .flush handle =>
      held.handles[handle]?.map fun file => { held with store := (Sink.flush held.store file).1 }

def operateAll? (held : Held) (history : List Operation) : Option Held :=
  history.foldlM operate? held

end Held

namespace Operation

def handle? : Operation → Option Nat
  | create _ => none
  | write handle _ => some handle
  | flush handle => some handle

def created? : Operation → Option String
  | create name => some name
  | write _ _ => none
  | flush _ => none

/-- The name concerned, where the handles were obtained for the names `owners`. -/
def name? (owners : List String) : Operation → Option String
  | create name => some name
  | write handle _ => owners[handle]?
  | flush handle => owners[handle]?

/-- The bytes written under `name`. -/
def written (owners : List String) (name : String) : Operation → ByteArray
  | create _ => .empty
  | write handle bytes => if owners[handle]? = some name then bytes else .empty
  | flush _ => .empty

end Operation

/-- The names created, one for each handle. -/
def owners (history : List Operation) : List String := history.filterMap Operation.created?

/-- The bytes written under `name`, one after the other. -/
def written (owners : List String) (name : String) (history : List Operation) : ByteArray :=
  (history.map (Operation.written owners name)).foldl (· ++ ·) .empty

/-- Each handle is used only after it was obtained. -/
def Obtained (history : List Operation) : Prop :=
  ∀ i : Fin history.length, history[i].handle?.all (· < (owners (history.take i)).length)

instance (history : List Operation) : Decidable (Obtained history) :=
  inferInstanceAs (Decidable (∀ _ : Fin history.length, _))

/-- What files in memory hold after a history: nothing under a name that was not created, else what
was written under it since it was last created; and the names in order of their first creation. -/
structure Recounts (store : MemoryFiles) (history : List Operation) : Prop where
  fresh : ∀ name, .create name ∉ history → store.bytes? name = none
  since : ∀ name before after, history = before ++ .create name :: after →
    .create name ∉ after → store.bytes? name = some (written (owners history) name after)
  mem_names_iff : ∀ name, name ∈ store.names ↔ .create name ∈ history
  ordered : store.names.Pairwise fun name later =>
    (owners history).idxOf name < (owners history).idxOf later

/-- Files that are the same but under one name. -/
def SameElsewhere (name : Option String) (store store' : MemoryFiles) : Prop :=
  ∀ other, name ≠ some other →
    store'.bytes? other = store.bytes? other ∧ (other ∈ store'.names ↔ other ∈ store.names)

section History

variable {history before after : List Operation} {operation other : Operation} {name : String}

theorem mem_owners_iff : name ∈ owners history ↔ .create name ∈ history := by
  rw [owners, List.mem_filterMap]
  constructor
  · rintro ⟨operation, hmem, hcreated⟩
    cases operation with
    | create _ => cases hcreated; exact hmem
    | write _ _ | flush _ => cases hcreated
  · exact fun h => ⟨.create name, h, rfl⟩

theorem owners_concat (history : List Operation) (operation : Operation) :
    owners (history ++ [operation]) = owners history ++ operation.created?.toList := by
  rw [owners, List.filterMap_append]
  cases operation <;> rfl

theorem owners_create (history : List Operation) (name : String) :
    owners (history ++ [.create name]) = owners history ++ [name] :=
  owners_concat history (.create name)

theorem create_notMem_concat {later : String} :
    .create name ∉ history ++ [.create later] ↔ .create name ∉ history ∧ name ≠ later := by
  simp

theorem written_concat (owners : List String) (name : String) (history : List Operation)
    (operation : Operation) :
    written owners name (history ++ [operation]) =
      written owners name history ++ operation.written owners name := by
  simp [written]

/-- A handle obtained for another name does not matter. -/
theorem written_append_owner {owners : List String} {owner : String} (h : name ≠ owner)
    (history : List Operation) :
    written (owners ++ [owner]) name history = written owners name history := by
  have hsame : ∀ operation : Operation,
      operation.written (owners ++ [owner]) name = operation.written owners name := by
    intro operation
    cases operation with
    | create _ | flush _ => rfl
    | write handle bytes =>
        have hiff : (owners ++ [owner])[handle]? = some name ↔ owners[handle]? = some name := by
          rw [List.getElem?_append]
          split
          · rfl
          · rename_i hge
            rw [List.getElem?_eq_none (Nat.le_of_not_lt hge), List.getElem?_singleton]
            split <;> simp [h.symm]
        simp only [Operation.written, hiff]
  simp only [written, funext hsame]

theorem idxOf_lt_concat {names : List String} {later : String} (hname : name ∈ names)
    (hlater : later ∉ names) : (names ++ [later]).idxOf name < (names ++ [later]).idxOf later := by
  have hlt := List.idxOf_lt_length_of_mem hname
  rw [List.idxOf_append_of_mem hname, List.idxOf_append_of_notMem hlater]
  exact Nat.lt_add_right _ hlt

/-- What follows an operation of a history ends with the last one, unless it is that one. -/
theorem split_concat (h : history ++ [operation] = before ++ other :: after) :
    (other = operation ∧ before = history ∧ after = []) ∨
      ∃ between, after = between ++ [operation] ∧ history = before ++ other :: between := by
  obtain rfl | ⟨between, last, rfl⟩ := List.eq_nil_or_concat' after
  · obtain ⟨rfl, hlast⟩ := List.append_inj' h rfl
    cases hlast
    exact .inl ⟨rfl, rfl, rfl⟩
  · rw [← List.cons_append, ← List.append_assoc] at h
    obtain ⟨rfl, hlast⟩ := List.append_inj' h rfl
    cases hlast
    exact .inr ⟨between, rfl, rfl⟩

end History

namespace Recounts

variable {store : MemoryFiles} {history : List Operation} (h : store.Recounts history)
include h

theorem nodup : store.names.Nodup :=
  h.ordered.imp fun hlt heq => absurd (heq ▸ hlt) (Nat.lt_irrefl _)

theorem create (name : String) : (store.create name).Recounts (history ++ [.create name]) where
  fresh other hother := by
    obtain ⟨hfresh, hne⟩ := create_notMem_concat.1 hother
    rw [bytes?_create, if_neg hne, h.fresh other hfresh]
  since other before after hsplit hlast := by
    rw [bytes?_create, owners_create]
    obtain ⟨hcreate, -, rfl⟩ | ⟨between, rfl, hbefore⟩ := split_concat hsplit
    · cases hcreate
      exact if_pos rfl
    · obtain ⟨hbetween, hne⟩ := create_notMem_concat.1 hlast
      rw [if_neg hne, h.since other before between hbefore hbetween, written_concat,
        written_append_owner hne, Operation.written, ByteArray.append_empty]
  mem_names_iff other := by
    rw [mem_names_create, h.mem_names_iff, List.mem_append, List.mem_singleton,
      Operation.create.injEq, or_comm]
  ordered := by
    have hearlier : ∀ other ∈ store.names, other ∈ owners history :=
      fun other hother => mem_owners_iff.2 ((h.mem_names_iff other).1 hother)
    have hkept : store.names.Pairwise fun other later =>
        (owners history ++ [name]).idxOf other < (owners history ++ [name]).idxOf later := by
      refine h.ordered.imp_of_mem fun hother hlater hlt => ?_
      rwa [List.idxOf_append_of_mem (hearlier _ hother),
        List.idxOf_append_of_mem (hearlier _ hlater)]
    rw [names_create, owners_create]
    split
    · exact hkept
    · rename_i hnew
      rw [h.mem_names_iff, ← mem_owners_iff] at hnew
      refine List.pairwise_append.2 ⟨hkept, List.pairwise_singleton _ _, fun other hother => ?_⟩
      simpa using idxOf_lt_concat (hearlier other hother) hnew

/-- An operation that creates nothing adds bytes and changes no name. -/
theorem add {operation : Operation} (hoperation : operation.created? = none)
    {store' : MemoryFiles} (hnames : store'.names = store.names)
    (hbytes : ∀ name, store'.bytes? name =
      (store.bytes? name).map (· ++ operation.written (owners history) name)) :
    store'.Recounts (history ++ [operation]) := by
  have howners : owners (history ++ [operation]) = owners history := by
    rw [owners_concat, hoperation, Option.toList_none, List.append_nil]
  have hcreate : ∀ name, .create name ≠ operation := by
    rintro name rfl
    cases hoperation
  have hmem : ∀ name, .create name ∈ history ++ [operation] ↔ .create name ∈ history := by
    intro name
    rw [List.mem_append, List.mem_singleton, or_iff_left (hcreate name)]
  refine ⟨fun name hname => ?_, fun name before after hsplit hlast => ?_, fun name => ?_, ?_⟩
  · rw [hbytes, h.fresh name fun hcreated => hname ((hmem name).2 hcreated), Option.map_none]
  · obtain ⟨heq, -, -⟩ | ⟨between, rfl, hbefore⟩ := split_concat hsplit
    · exact absurd heq (hcreate name)
    · have hbetween : .create name ∉ between := fun hcreated =>
        hlast (List.mem_append_left [operation] hcreated)
      rw [hbytes, h.since name before between hbefore hbetween, howners, written_concat,
        Option.map_some]
  · rw [hnames, h.mem_names_iff, hmem]
  · rw [hnames, howners]
    exact h.ordered

end Recounts

/-- Files in memory that hold what a history left, with the handles obtained in it. -/
structure Held.Follows (held : Held) (history : List Operation) : Prop where
  recounts : held.store.Recounts history
  handles_eq : held.handles = (owners history).map MemoryFile.mk

namespace Held

theorem follows_start : ({} : Held).Follows [] where
  recounts :=
    { fresh := fun _ _ => rfl
      since := by simp
      mem_names_iff := by simp [names]
      ordered := .nil }
  handles_eq := rfl

variable {held : Held} {history : List Operation} (h : held.Follows history)
include h

theorem Follows.handle {handle : Nat} (hobtained : handle < (owners history).length) :
    ∃ owner, (owners history)[handle]? = some owner ∧
      held.handles[handle]? = some ⟨owner⟩ := by
  have howner := List.getElem?_eq_getElem hobtained
  exact ⟨_, howner, by rw [h.handles_eq, List.getElem?_map, howner, Option.map_some]⟩

/-- An operation whose handle was obtained is carried out, and concerns no other name. -/
theorem Follows.operate {operation : Operation}
    (hobtained : operation.handle?.all (· < (owners history).length)) :
    ∃ held', held.operate? operation = some held' ∧ held'.Follows (history ++ [operation]) ∧
      SameElsewhere (operation.name? (owners history)) held.store held'.store := by
  cases operation with
  | create name =>
      refine ⟨_, rfl, ⟨h.recounts.create name, ?_⟩, fun other hother => ?_⟩
      · rw [owners_create, List.map_append, h.handles_eq]
        rfl
      · have hne : other ≠ name := fun heq => hother (heq ▸ rfl)
        exact ⟨by rw [bytes?_create, if_neg hne], by rw [mem_names_create, or_iff_right hne]⟩
  | write handle bytes =>
      obtain ⟨owner, howner, hhandle⟩ := h.handle (of_decide_eq_true hobtained)
      refine ⟨{ held with store := held.store.append owner bytes }, ?_, ⟨?_, ?_⟩, ?_⟩
      · rw [operate?, hhandle, Option.map_some]
      · refine h.recounts.add rfl (names_append held.store owner bytes) fun name => ?_
        rw [bytes?_append, Operation.written, howner]
        by_cases hname : name = owner
        · rw [hname, if_pos rfl, if_pos rfl]
        · rw [if_neg hname, if_neg fun heq => hname (Option.some.inj heq).symm]
          simp
      · rw [owners_concat, h.handles_eq]
        exact congrArg _ (List.append_nil _).symm
      · intro other hother
        have hne : other ≠ owner := fun heq => hother (heq ▸ howner)
        exact ⟨by rw [bytes?_append, if_neg hne], by rw [names_append]⟩
  | flush handle =>
      obtain ⟨owner, -, hhandle⟩ := h.handle (of_decide_eq_true hobtained)
      refine ⟨held, ?_, ⟨?_, ?_⟩, fun other _ => ⟨rfl, Iff.rfl⟩⟩
      · rw [operate?, hhandle, Option.map_some]
        rfl
      · exact h.recounts.add rfl rfl fun name => by simp [Operation.written]
      · rw [owners_concat, h.handles_eq]
        exact congrArg _ (List.append_nil _).symm

end Held

theorem Obtained.handle {done rest : List Operation} {operation : Operation}
    (h : Obtained (done ++ operation :: rest)) :
    operation.handle?.all (· < (owners done).length) := by
  have hlt : done.length < (done ++ operation :: rest).length := by simp
  have hhandle := h ⟨done.length, hlt⟩
  simpa using hhandle

/-- A history can be carried out if its handles are obtained before they are used. -/
theorem Obtained.exists_follows {done rest : List Operation} (h : Obtained (done ++ rest)) :
    ∃ held, ({} : Held).operateAll? done = some held ∧ held.Follows done := by
  induction done using List.reverseRecOn generalizing rest with
  | nil => exact ⟨{}, rfl, Held.follows_start⟩
  | append_singleton done operation ih =>
      rw [List.append_assoc, List.singleton_append] at h
      obtain ⟨held, hheld, hfollows⟩ := ih h
      obtain ⟨held', hoperation, hfollows', -⟩ := hfollows.operate h.handle
      refine ⟨held', ?_, hfollows'⟩
      rw [Held.operateAll?, List.foldlM_append, ← Held.operateAll?, hheld, Option.bind_eq_bind,
        Option.bind_some, List.foldlM_cons, hoperation]
      rfl

/-- After each part of a history, the files hold what was written under each name since it was last
created, through whatever handles, and the names stand once each in the order of their first
creation; and the operation that comes next changes nothing under another name. -/
theorem stored_since_created {history : List Operation} (h : Obtained history)
    {done rest : List Operation} (hsplit : history = done ++ rest) :
    ∃ held, ({} : Held).operateAll? done = some held ∧ held.store.Recounts done ∧
      held.store.names.Nodup ∧
      ∀ operation ∈ rest.head?, ∃ held', held.operate? operation = some held' ∧
        SameElsewhere (operation.name? (owners done)) held.store held'.store := by
  rw [hsplit] at h
  obtain ⟨held, hheld, hfollows⟩ := h.exists_follows
  refine ⟨held, hheld, hfollows.recounts, hfollows.recounts.nodup, fun operation hnext => ?_⟩
  obtain ⟨more, rfl⟩ := List.head?_eq_some_iff.1 hnext
  obtain ⟨held', hoperation, -, hothers⟩ := hfollows.operate h.handle
  exact ⟨held', hoperation, hothers⟩

theorem stored_since_created_again :
    let y := "y".toUTF8
    let z := "z".toUTF8
    let later : List Operation := [.write 0 y, .flush 1, .write 1 y, .write 2 z]
    let history : List Operation :=
      [.create "a", .create "b", .write 0 z] ++ .create "a" :: later
    Obtained history ∧ ∃ held, ({} : Held).operateAll? history = some held ∧
      held.store.Recounts history ∧ held.store.bytes? "a" = some (y ++ z) := by
  intro y z later history
  have hobtained : Obtained history := by decide
  obtain ⟨held, hheld, hrecounts, -, -⟩ :=
    stored_since_created hobtained (List.append_nil history).symm
  have howners : owners history = ["a", "b", "a"] := rfl
  have hwritten : written (owners history) "a" later = y ++ z := by
    simp [howners, written, Operation.written, later]
  exact ⟨hobtained, held, hheld, hrecounts,
    hwritten ▸ hrecounts.since "a" _ later rfl (by simp [later])⟩

end WikiDocs.MemoryFiles

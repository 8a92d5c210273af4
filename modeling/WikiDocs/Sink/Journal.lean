import WikiDocs.Sink

/-!
A sink that only notes what is asked of it. The steps can be carried out later
on real files, or compared with those of another run.
-/

namespace WikiDocs

/-- One thing asked of a sink. Files are numbered in the order of their creation. -/
inductive Journal.Step where
  | create (name : String)
  | writeLine (file : Nat) (line : Text)
  | finishScript (name : String)
  deriving DecidableEq

/-- The steps noted so far, the last one first, and the number of files created. -/
structure Journal where
  latest : List Journal.Step := []
  created : Nat := 0

namespace Journal

/-- The steps in the order in which they were asked for. -/
def steps (journal : Journal) : List Step := journal.latest.reverse

end Journal

instance : Sink Journal Nat where
  create journal name :=
    .ok (⟨.create name :: journal.latest, journal.created + 1⟩, journal.created)
  writeLine journal file line :=
    ({ journal with latest := .writeLine file line :: journal.latest }, file)
  flush journal file := (journal, file)
  finishScript journal name :=
    ({ journal with latest := .finishScript name :: journal.latest }, .ok ())

end WikiDocs

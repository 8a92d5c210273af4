import WikiDocs.Error
import WikiDocs.Notice

/-!
Outcomes of operations that change a state, give notices, and may fail. What
was done before a failure stays done.
-/

namespace WikiDocs

/-- What an operation leaves behind: the state, the notices given, and its answer. -/
structure Outcome (σ α : Type) where
  state : σ
  notices : List Notice := []
  answer : Except Error α

namespace Outcome

variable {σ τ α β : Type}

/-- Goes on after an operation that succeeded; after a failure the state is given up by
`abandon`. -/
def andThen (o : Outcome σ α) (abandon : σ → τ) (next : σ → α → Outcome τ β) : Outcome τ β :=
  match o.answer with
  | .error e => { state := abandon o.state, notices := o.notices, answer := .error e }
  | .ok a =>
    let o' := next o.state a
    { o' with notices := o.notices ++ o'.notices }

end Outcome
end WikiDocs

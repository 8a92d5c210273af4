import WikiDocs.Sink.Memory

/-!
Files in memory under a sink that refuses to create some names, and may refuse
to finish the build script.
-/

namespace WikiDocs

structure RefusingFiles where
  store : MemoryFiles := {}
  refused : List String := []
  refusesFinish : Bool := false
  /-- The build scripts that were to be finished, in order. -/
  finished : List String := []

namespace RefusingFiles

/-- Makes the file of that name empty, unless the name is refused. -/
def create (sink : RefusingFiles) (name : String) : Except Cause (RefusingFiles × MemoryFile) :=
  if name ∈ sink.refused then .error (.refusedCreate name)
  else .ok ({ sink with store := sink.store.create name }, ⟨name⟩)

/-- Notes that a build script was to be finished, whether or not that is refused. -/
def finishScript (sink : RefusingFiles) (name : String) : RefusingFiles × Except Cause Unit :=
  ({ sink with finished := sink.finished ++ [name] },
    if sink.refusesFinish then .error (.refusedFinish name) else .ok ())

end RefusingFiles

instance : Sink RefusingFiles MemoryFile where
  create := RefusingFiles.create
  writeLine sink file line :=
    ({ sink with store := sink.store.append file.name (Text.Utf8.encode (line ++ ['\n'])) }, file)
  flush sink file := (sink, file)
  finishScript := RefusingFiles.finishScript

end WikiDocs

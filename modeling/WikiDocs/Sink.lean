import WikiDocs.Error
import WikiDocs.Text

/-!
Sinks: places in which named files are made and written line by line. Of what
is asked of them, creating a file and completing the build script can fail;
writing to a file that is open and flushing it always succeed.
-/

namespace WikiDocs

/-- A sink with states in `σ`, of which an open file is held as a value of `ω`. -/
class Sink (σ : Type) (ω : outParam Type) where
  /-- Makes an empty file, or empties the file of that name. A refusal changes nothing. -/
  create : σ → String → Except Cause (σ × ω)
  /-- Writes a line and a line feed. An open file takes every line. -/
  writeLine : σ → ω → Text → σ × ω
  /-- Brings all that was written to its place, without fail. -/
  flush : σ → ω → σ × ω
  /-- Takes notice that the build script is complete. -/
  finishScript : σ → String → σ × Except Cause Unit

end WikiDocs

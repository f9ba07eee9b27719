import WordMachine.Execution
import WordMachine.Sample.Reader
import WordMachine.Sample.Resolution

/-!
# Solving a sample file

The samples give the opcode of each number, and the rows are then run as a program, on registers of
zeros and with no register wired to the counter.
-/

namespace WordMachine

/-- The answer to a sample file: how many samples at least three opcodes explain, the opcode of
each number, and the registers after the program. -/
structure Solution where
  ambiguous : Nat
  numbering : Numbering
  registers : List Int

namespace SampleFile

def defaultWidth : Int := 4

/-- Runs the rows of a file on registers of zeros. A file without rows leaves them alone. -/
def runRows (file : SampleFile) (numbering : Numbering) (width : Int) :
    Except Interrupt (List Int) :=
  match zeroValues width with
  | .error fault => .error (.fault fault)
  | .ok zeros =>
    if file.rows.isEmpty then .ok zeros
    else
      match numbering.decode file.rows with
      | .error fault => .error (.fault fault)
      | .ok program => finalValues {} program zeros

/-- What the samples alone tell: how many are ambiguous, and the opcode of each number. -/
def examine (file : SampleFile) : Except Fault (Nat × Numbering) := do
  return (← Sample.countAmbiguous 3 file.samples, ← Numbering.ofSamples file.samples)

def solve (file : SampleFile) (width : Int) : Except Interrupt Solution := do
  let (ambiguous, numbering) ← file.examine.mapError .fault
  return ⟨ambiguous, numbering, ← file.runRows numbering width⟩

end SampleFile

end WordMachine

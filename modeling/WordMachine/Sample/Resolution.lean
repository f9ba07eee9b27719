import WordMachine.Program
import WordMachine.Sample

/-!
# Finding the opcode behind each number

Every number starts with the opcodes that explain all its samples. A number with a single opcode
left is solved, and its opcode is struck from the others; this goes on in rounds until all numbers
are solved, or none is.
-/

namespace WordMachine

/-- The opcodes still possible for each number. -/
abbrev Possibilities := List (Int × List Opcode)

/-- Opcodes by number. -/
abbrev Numbering := List (Int × Opcode)

namespace Possibilities

/-- The numbers that occur, in ascending order. -/
def numbers (observations : List (Int × List Opcode)) : List Int :=
  (observations.map (·.1)).eraseDups.mergeSort (fun m n => decide (m ≤ n))

/-- The base opcodes that are candidates in every observation of a number. -/
def surviving (observations : List (Int × List Opcode)) (number : Int) : List Opcode :=
  Opcode.base.filter fun op => observations.all fun (m, ops) => m != number || ops.contains op

def ofSamples (samples : List Sample) : Except Fault Possibilities := do
  let observations ← samples.mapM fun s => s.candidates.map fun ops => (s.row.number, ops)
  return (numbers observations).map fun number => (number, surviving observations number)

/-- The numbers with a single opcode left. -/
def solved (possible : Possibilities) : Numbering :=
  possible.filterMap fun
    | (number, [op]) => some (number, op)
    | _ => none

/-- What is left for the others once the solved numbers took their opcodes. -/
def strike (possible : Possibilities) : Possibilities :=
  let taken := possible.solved.map (·.2)
  (possible.filter fun (_, ops) => ops.length != 1).map fun (number, ops) =>
    (number, ops.filter fun op => !taken.contains op)

theorem strike_length_lt {possible : Possibilities} (h : possible.solved.isEmpty = false) :
    possible.strike.length < possible.length := by
  obtain ⟨⟨number, op⟩, hmem⟩ := List.exists_mem_of_ne_nil possible.solved (by
    intro h'; simp [h'] at h)
  obtain ⟨⟨m, ops⟩, hin, heq⟩ := List.mem_filterMap.1 hmem
  have hops : ops.length = 1 := by
    match ops, heq with
    | [_], _ => rfl
  rw [strike, List.length_map]
  exact List.length_filter_lt_length_iff_exists.2 ⟨(m, ops), hin, by simp [hops]⟩

/-- Strikes solved opcodes until every number is solved. -/
def eliminate (possible : Possibilities) : Except Fault Numbering :=
  if possible.isEmpty then .ok []
  else if _h : possible.solved.isEmpty then
    if possible.any fun (_, ops) => ops.isEmpty then .error .noCandidates
    else .error (Fault.unresolved (possible.map (·.1))).raised
  else if (possible.solved.map (·.2)).eraseDups.length < possible.solved.length then
    .error .sharedOpcode
  else
    match eliminate possible.strike with
    | .ok numbering => .ok (possible.solved ++ numbering)
    | .error fault => .error fault
termination_by possible.length
decreasing_by exact strike_length_lt (by simpa using _h)

end Possibilities

namespace Numbering

/-- The opcode of every number that occurs in the samples, in ascending order of the numbers. -/
def ofSamples (samples : List Sample) : Except Fault Numbering := do
  let numbering ← (← Possibilities.ofSamples samples).eliminate
  return numbering.mergeSort fun x y => decide (x.1 ≤ y.1)

def decodeRow (numbering : Numbering) (row : Row) : Except Fault Instruction :=
  match numbering.lookup row.number with
  | some op => .ok (row.instruction op)
  | none => .error (Fault.unknownNumber row.number).raised

/-- The program that rows stand for. -/
def decode (numbering : Numbering) (rows : List Row) : Except Fault Program :=
  (rows.mapM numbering.decodeRow).map List.toArray

end Numbering

end WordMachine

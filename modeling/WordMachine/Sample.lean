import WordMachine.Alu

/-!
# Samples

A sample shows the registers before and after one instruction whose opcode is known by number only.
The candidates of a sample are the base opcodes that explain it. An opcode for which a register is
out of range or the result fits no word explains nothing; any other fault is one of the sample.
-/

namespace WordMachine

/-- An instruction with a number in place of its opcode. -/
structure Row where
  number : Int
  a : Int
  b : Int
  c : Int
  deriving DecidableEq, Repr

structure Sample where
  before : List Int
  row : Row
  after : List Int
  deriving DecidableEq, Repr

/-- No integer of the row has more digits than a numeral may have. -/
def Row.Writable (row : Row) : Prop :=
  ∀ x ∈ [row.number, row.a, row.b, row.c], Text.digitCount x ≤ Text.maxDigits

instance (row : Row) : Decidable row.Writable :=
  List.decidableBAll (fun x => Text.digitCount x ≤ Text.maxDigits)
    [row.number, row.a, row.b, row.c]

def Row.instruction (row : Row) (op : Opcode) : Instruction := ⟨op, row.a, row.b, row.c⟩

namespace Sample

/-- Whether an opcode turns `before` into `after`. -/
def explains {n : Nat} (before : Registers n) (row : Row) (after : List Int) (op : Opcode) :
    Except Fault Bool :=
  match before.apply (row.instruction op) with
  | .ok registers => .ok (registers.values == after)
  | .error fault =>
    if fault.kind = .outOfRange ∨ fault.kind = .overflow then .ok false else .error fault

/-- The base opcodes that explain a sample. -/
def candidates (s : Sample) : Except Fault (List Opcode) := do
  let before ← Registers.ofList s.before
  Opcode.base.filterM (explains before s.row s.after)

/-- How many samples at least `threshold` opcodes explain. -/
def countAmbiguous (threshold : Int) (samples : List Sample) : Except Fault Nat :=
  (samples.mapM candidates).map (·.countP fun ops => threshold ≤ ops.length)

end Sample

end WordMachine

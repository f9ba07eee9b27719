import WordMachine.Opcode
import WordMachine.Text.Numeral

/-!
# Instructions

An opcode with three integer operands, of any size. Which of them name registers is the opcode's
business, not the instruction's. Only an instruction whose operands are not too long has a text.
-/

namespace WordMachine

structure Instruction where
  op : Opcode
  a : Int := 0
  b : Int := 0
  c : Int := 0
  deriving DecidableEq, Repr, Hashable

namespace Instruction

/-- The instruction as a line of a listing, e.g. `addi 0 1 0`. -/
def print (ins : Instruction) : List Char :=
  ins.op.mnemonic.toList ++ ' ' :: Text.printInt ins.a ++ ' ' :: Text.printInt ins.b ++
    ' ' :: Text.printInt ins.c

/-- No operand has more digits than a numeral may have. -/
def Writable (ins : Instruction) : Prop :=
  ∀ x ∈ [ins.a, ins.b, ins.c], Text.digitCount x ≤ Text.maxDigits

instance (ins : Instruction) : Decidable ins.Writable :=
  List.decidableBAll (fun x => Text.digitCount x ≤ Text.maxDigits) [ins.a, ins.b, ins.c]

/-- The source operands that are read as register indices. -/
def sources (ins : Instruction) : List Int :=
  (if ins.op.signature.a = .register then [ins.a] else []) ++
    (if ins.op.signature.b = .register then [ins.b] else [])

/-- Every register index the instruction uses, the destination last. -/
def references (ins : Instruction) : List Int :=
  ins.sources ++ (if ins.op.isAlu then [ins.c] else [])

def writes (ins : Instruction) (reg : Int) : Bool := ins.op.isAlu && ins.c == reg

end Instruction

end WordMachine

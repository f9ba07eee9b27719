import WordMachine.Fault

/-!
# Reading an instruction

A mnemonic followed by up to three integers; operands left out are 0. When several things are
wrong, the number of words is reported before the mnemonic, and the mnemonic before the operands.
-/

namespace WordMachine

/-- The opcode a word names. -/
def Opcode.read (word : List Char) : Except Fault Opcode :=
  match Opcode.ofMnemonic? word with
  | some op => .ok op
  | none => .error (.unknownOpcode word)

namespace Instruction

/-- The operands of an instruction line, in order. -/
def readOperands (line : List Char) (words : List (List Char)) : Except Fault (List Int) :=
  match words.mapM Text.readInt with
  | .ok operands => .ok operands
  | .error _ => .error (.badOperand (Text.trim line))

def read (line : List Char) : Except Fault Instruction :=
  match Text.words line with
  | [] => .error .emptyInstruction
  | word :: rest =>
    if 3 < rest.length then .error (.tooManyOperands (Text.trim line))
    else do
      let op ← Opcode.read word
      let operands ← readOperands line rest
      if operands.isEmpty && op.signature.a != .unused then .error (.missingOperand op)
      else .ok ⟨op, operands.getD 0 0, operands.getD 1 0, operands.getD 2 0⟩

end Instruction

end WordMachine

import WordMachine.Instruction
import WordMachine.Text.ByteSize
import WordMachine.Text.Quoted

/-!
# Faults

Everything that can go wrong, by cause, from reading a text to running a machine. `Fault.message`
is the wording, `Fault.kind` the rough class of a cause: input that makes no sense, an index that
is out of range, a value that does not fit a word, a division by zero, a lack of memory.

The message of a fault is written when the fault is raised. Where it would show an integer that has
too many digits to be written, the fault raised is `unwritable` instead, whatever the cause.
-/

namespace WordMachine

inductive Fault where
  /- Reading -/
  | emptyInstruction
  | tooManyOperands (line : List Char)
  | unknownOpcode (word : List Char)
  | badOperand (line : List Char)
  | missingOperand (op : Opcode)
  | badNumber (text : List Char)
  | longNumber (digits : Nat)
  | badDirective (line : List Char)
  | boundTwice
  | truncatedSample
  | malformedSample
  | unexpectedText (line : List Char)
  | atLine (number : Nat) (cause : Fault)
  /- Setting up -/
  | noRegisters (count : Int)
  | tooManyRegisters
  | registersTooBig
  | noRoomForRegisters (count : Nat)
  | tooManyZeros
  | noRoomForZeros
  | tooManyValues (given : Nat) (width : Int)
  | pointerOutside (ip : Int) (width : Nat)
  | badReference (address : Nat) (ins : Instruction) (reg width : Int)
  | notInvolution (op partner back : Opcode)
  | pairedTwice (x y : Opcode)
  /- Finding opcodes -/
  | noCandidates
  | sharedOpcode
  | unresolved (numbers : List Int)
  | unknownNumber (number : Int)
  /- Running -/
  | notAlu (op : Opcode)
  | registerOutside (reg : Int) (width : Nat)
  | addressOutside (address : Int) (length : Nat)
  | noInstruction
  | indexTooLarge
  | overflow
  | divisionByZero
  /- Writing -/
  | unwritable
  deriving DecidableEq, Repr

inductive Fault.Kind where
  | malformed
  | outOfRange
  | overflow
  | divisionByZero
  | exhausted
  deriving DecidableEq, Repr

namespace Fault

def kind : Fault → Kind
  | .registerOutside .. | .addressOutside .. | .noInstruction | .indexTooLarge => .outOfRange
  | .overflow | .tooManyZeros => .overflow
  | .divisionByZero => .divisionByZero
  | .noRoomForRegisters _ | .noRoomForZeros => .exhausted
  | _ => .malformed

/-- A text that is no number is shown up to this many characters. -/
def shownNumber : Nat := 200

open Text in
def message : Fault → String
  | .emptyInstruction => "Empty instruction"
  | .tooManyOperands line => "Too many operands in " ++ quoted line
  | .unknownOpcode word => "Unknown opcode: " ++ quoted word
  | .badOperand line => "Non-integer operand in " ++ quoted line
  | .missingOperand op => op.mnemonic ++ " requires an A operand"
  | .badNumber text =>
    "invalid literal for int() with base 10: " ++
      String.ofList ((quotedChars text).take shownNumber)
  | .longNumber digits =>
    s!"Exceeds the limit ({maxDigits} digits) for integer string conversion: value has {digits} " ++
      "digits; use sys.set_int_max_str_digits() to increase the limit"
  | .badDirective line => "bad directive " ++ quoted line
  | .boundTwice => "instruction pointer bound twice"
  | .truncatedSample => "truncated sample"
  | .malformedSample => "malformed sample"
  | .unexpectedText line => "unexpected " ++ quoted line
  | .atLine number cause => s!"line {number}: " ++ cause.message
  | .noRegisters count => s!"Register file needs at least one register, got {count}"
  | .tooManyRegisters => "Maximum allowed dimension exceeded"
  | .registersTooBig =>
    "array is too big; `arr.size * arr.dtype.itemsize` is larger than the maximum possible size."
  | .noRoomForRegisters count =>
    "Unable to allocate " ++ byteSize (8 * count) ++
      s!" for an array with shape ({count},) and data type int64"
  | .tooManyZeros | .indexTooLarge => "cannot fit 'int' into an index-sized integer"
  | .noRoomForZeros => ""
  | .tooManyValues given width => s!"{given} initial values for a {width}-register file"
  | .pointerOutside ip width =>
    s!"Instruction pointer register {ip} outside {width}-register file"
  | .badReference address ins reg width =>
    s!"Instruction {address} (" ++ String.ofList ins.print ++
      s!") references register {reg}, register file has {width}"
  | .notInvolution op partner back =>
    s!"Toggle table is not an involution: {op.mnemonic} -> {partner.mnemonic} -> {back.mnemonic}"
  | .pairedTwice x y => s!"Opcode paired twice: {x.mnemonic}/{y.mnemonic}"
  | .noCandidates => "Samples are inconsistent: an opcode number has no candidates"
  | .sharedOpcode => "Samples are inconsistent: two numbers resolve to one opcode"
  | .unresolved numbers => "Cannot resolve opcode numbers " ++ bracketed numbers
  | .unknownNumber number => s!"Opcode number {number} not resolved"
  | .notAlu op => op.name ++ " is not an ALU operation"
  | .registerOutside reg width => s!"Register {reg} out of range for {width}-register file"
  | .addressOutside address length => s!"Address {address} outside program of length {length}"
  | .noInstruction => "list index out of range"
  | .overflow => "Python int too large to convert to C long"
  | .divisionByZero => "integer division or modulo by zero"
  | .unwritable =>
    s!"Exceeds the limit ({maxDigits} digits) for integer string conversion; " ++
      "use sys.set_int_max_str_digits() to increase the limit"

/-- The integers of any size that the message shows. -/
def numbers : Fault → List Int
  | .noRegisters count => [count]
  | .tooManyValues _ width => [width]
  | .pointerOutside ip _ => [ip]
  | .badReference _ ins reg width => [ins.a, ins.b, ins.c, reg, width]
  | .unresolved numbers => numbers
  | .unknownNumber number => [number]
  | .registerOutside reg _ => [reg]
  | .addressOutside address _ => [address]
  | _ => []

/-- Every integer of the message can be written. -/
def Writable (fault : Fault) : Prop :=
  ∀ x ∈ fault.numbers, Text.digitCount x ≤ Text.maxDigits

instance (fault : Fault) : Decidable fault.Writable :=
  List.decidableBAll (fun x => Text.digitCount x ≤ Text.maxDigits) fault.numbers

/-- The fault that raising a fault comes to. -/
def raised (fault : Fault) : Fault := if fault.Writable then fault else .unwritable

theorem raised_of_writable {fault : Fault} (h : fault.Writable) : fault.raised = fault :=
  if_pos h

theorem raised_of_not_writable {fault : Fault} (h : ¬ fault.Writable) :
    fault.raised = .unwritable :=
  if_neg h

theorem kind_raised {fault : Fault} (h : fault.kind = .malformed) :
    fault.raised.kind = .malformed := by
  unfold raised
  split
  · exact h
  · rfl

end Fault

/-- The text of an instruction: its line of a listing. -/
def Instruction.text (ins : Instruction) : Except Fault String :=
  if ins.Writable then .ok (String.ofList ins.print) else .error .unwritable

/-- Reads a numeral, a misreading as a fault. -/
def readNumber (text : List Char) : Except Fault Int :=
  match Text.readInt text with
  | .ok n => .ok n
  | .error .notANumber => .error (.badNumber text)
  | .error (.tooLong digits) => .error (.longNumber digits)

end WordMachine

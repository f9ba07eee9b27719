/-!
# Opcodes

The instruction set, and for each opcode how it reads its operands. The opcode alone fixes the
addressing: a source operand is a register index, a literal, or ignored.

- `addr` to `bori`, `divr`, `divi`: C becomes A op B
- `setr`, `seti`: C becomes A
- `gtir` to `eqrr`: C becomes 1 if the comparison holds, else 0
- `tgl`: change the opcode of the instruction A places ahead
- `out`: emit A
-/

namespace WordMachine

inductive Opcode where
  | addr | addi | mulr | muli | banr | bani | borr | bori | setr | seti
  | gtir | gtri | gtrr | eqir | eqri | eqrr | divr | divi | tgl | out
  deriving DecidableEq, Repr, Hashable

/-- How a source operand is read. -/
inductive Addressing where
  | register
  | immediate
  | unused
  deriving DecidableEq, Repr

/-- The addressing of A and B, and whether C is a destination register. -/
structure Signature where
  a : Addressing
  b : Addressing
  writes : Bool
  deriving DecidableEq, Repr

namespace Opcode

/-- Every opcode, in the order listings of the instruction set use. -/
def all : List Opcode :=
  [.addr, .addi, .mulr, .muli, .banr, .bani, .borr, .bori, .setr, .seti,
   .gtir, .gtri, .gtrr, .eqir, .eqri, .eqrr, .divr, .divi, .tgl, .out]

theorem mem_all (op : Opcode) : op ∈ all := by cases op <;> decide

def mnemonic : Opcode → String
  | .addr => "addr" | .addi => "addi" | .mulr => "mulr" | .muli => "muli"
  | .banr => "banr" | .bani => "bani" | .borr => "borr" | .bori => "bori"
  | .setr => "setr" | .seti => "seti" | .gtir => "gtir" | .gtri => "gtri"
  | .gtrr => "gtrr" | .eqir => "eqir" | .eqri => "eqri" | .eqrr => "eqrr"
  | .divr => "divr" | .divi => "divi" | .tgl => "tgl" | .out => "out"

/-- The mnemonic in capitals. -/
def name (op : Opcode) : String := op.mnemonic.map Char.toUpper

/-- The opcode a word names, whatever the case of its ASCII letters. -/
def ofMnemonic? (word : List Char) : Option Opcode :=
  all.find? fun op => op.mnemonic.toList == word.map Char.toLower

def signature : Opcode → Signature
  | .addr | .mulr | .banr | .borr | .gtrr | .eqrr | .divr => ⟨.register, .register, true⟩
  | .addi | .muli | .bani | .bori | .gtri | .eqri | .divi => ⟨.register, .immediate, true⟩
  | .gtir | .eqir => ⟨.immediate, .register, true⟩
  | .setr => ⟨.register, .unused, true⟩
  | .seti => ⟨.immediate, .unused, true⟩
  | .tgl | .out => ⟨.register, .unused, false⟩

/-- Computed by the arithmetic unit; the others are control operations. -/
def isAlu (op : Opcode) : Bool := op.signature.writes

/-- The sixteen opcodes every machine has: all but division and control. -/
def base : List Opcode :=
  [.addr, .addi, .mulr, .muli, .banr, .bani, .borr, .bori, .setr, .seti,
   .gtir, .gtri, .gtrr, .eqir, .eqri, .eqrr]

end Opcode

end WordMachine

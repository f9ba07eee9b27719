import WordMachine.Registers

/-!
# Arithmetic unit

Operands are combined as unbounded integers; only the result has to fit a register. `effect` reads
A, then B, then combines them and looks at C, so the first of these that fails is the fault
reported. `apply` carries the effect out; a failing operation changes nothing.
-/

namespace WordMachine

/-! ## Bitwise operations on two's complement integers -/

namespace Bits

/-- The bits of `m` that are not in `n`. -/
def without (m n : Nat) : Nat := m ^^^ (m &&& n)

def and : Int → Int → Int
  | .ofNat m, .ofNat n => .ofNat (m &&& n)
  | .ofNat m, .negSucc n => .ofNat (without m n)
  | .negSucc m, .ofNat n => .ofNat (without n m)
  | .negSucc m, .negSucc n => .negSucc (m ||| n)

def or : Int → Int → Int
  | .ofNat m, .ofNat n => .ofNat (m ||| n)
  | .ofNat m, .negSucc n => .negSucc (without n m)
  | .negSucc m, .ofNat n => .negSucc (without m n)
  | .negSucc m, .negSucc n => .negSucc (m &&& n)

end Bits

/-! ## Operations -/

/-- What an ALU opcode does with the values of its source operands. -/
inductive Operation where
  | add | mul | and | or | div | first | greater | equal
  deriving DecidableEq, Repr

/-- Division rounds toward zero. -/
def Operation.eval : Operation → Int → Int → Except Fault Int
  | .add, x, y => .ok (x + y)
  | .mul, x, y => .ok (x * y)
  | .and, x, y => .ok (Bits.and x y)
  | .or, x, y => .ok (Bits.or x y)
  | .div, x, y => if y = 0 then .error .divisionByZero else .ok (x.tdiv y)
  | .first, x, _ => .ok x
  | .greater, x, y => .ok (if x > y then 1 else 0)
  | .equal, x, y => .ok (if x = y then 1 else 0)

/-- Control opcodes have no operation. -/
def Opcode.operation? : Opcode → Option Operation
  | .addr | .addi => some .add
  | .mulr | .muli => some .mul
  | .banr | .bani => some .and
  | .borr | .bori => some .or
  | .divr | .divi => some .div
  | .setr | .seti => some .first
  | .gtir | .gtri | .gtrr => some .greater
  | .eqir | .eqri | .eqrr => some .equal
  | .tgl | .out => none

namespace Registers

variable {n : Nat}

/-- The value of a source operand: a register, the literal itself, or 0 when unused. -/
def operand (r : Registers n) : Addressing → Int → Except Fault Int
  | .register, x => r.read x
  | .immediate, x => .ok x
  | .unused, _ => .ok 0

/-- The register that an instruction writes, and the word it gets. -/
def effect (r : Registers n) (ins : Instruction) : Except Fault (Fin n × Word) :=
  match ins.op.operation? with
  | none => .error (.notAlu ins.op)
  | some operation => do
    let x ← r.operand ins.op.signature.a ins.a
    let y ← r.operand ins.op.signature.b ins.b
    let v ← operation.eval x y
    return (← index n ins.c, ← word v)

def apply (r : Registers n) (ins : Instruction) : Except Fault (Registers n) :=
  (r.effect ins).map fun (i, v) => r.assign i v

end Registers

end WordMachine

import WordMachine.Alu
import WordMachine.Toggle

/-!
# Machine states

A state is the program, which `tgl` may change, the registers and the program counter; with the
wiring of the machine it determines the whole future. A step publishes the counter to the register
wired to it, if there is one, fetches and executes an instruction, and reads the register back:
any write to that register is a jump, to one past the value written.

A step that fails has still published the counter, so a `Failure` carries the state it leaves. An
instruction that fails is found to fail before it changes anything.
-/

namespace WordMachine

/-- The fixed part of a machine: the register wired to the program counter, the toggle table, and
the register whose writes are emitted. The last is never looked up, so it may be any integer. -/
structure Wiring (n : Nat) where
  ip : Option (Fin n)
  toggles : ToggleTable
  watched : Option Int

structure State (n : Nat) where
  program : Program
  registers : Registers n
  pc : Int
  deriving DecidableEq, Hashable

/-- A fault together with what it leaves behind. -/
structure Failure (σ : Type) where
  fault : Fault
  left : σ

/-- What executing an instruction shows to the outside. -/
inductive Event where
  | quiet
  | output (value : Int)
  | toggled (target : Int) (ins : Instruction)
  | missed (target : Int)
  deriving DecidableEq, Repr

/-- A completed step: what was executed, what it showed, and where it led. -/
structure Step (n : Nat) where
  instruction : Instruction
  event : Event
  next : State n

def Event.output? : Event → Option Int
  | .output value => some value
  | _ => none

namespace State

variable {n : Nat}

/-- The counter has left the program. -/
def halted (s : State n) : Bool := !s.program.hasAddress s.pc

/-- Writes the counter to the register wired to it. -/
@[inline]
def publish (w : Wiring n) (s : State n) : Except Fault (State n) :=
  match w.ip with
  | none => .ok s
  | some ip =>
    (Registers.word s.pc).map fun v => { s with registers := s.registers.assign ip v }

/-- The state with the counter published, and the instruction it points at. -/
def fetch (w : Wiring n) (s : State n) : Except (Failure (State n)) (State n × Instruction) :=
  match s.publish w with
  | .error fault => .error ⟨fault, s⟩
  | .ok t =>
    match t.program.get t.pc with
    | .error fault => .error ⟨fault, t⟩
    | .ok ins => .ok (t, ins)

/-- Toggles the instruction `distance` places ahead. -/
def toggle (w : Wiring n) (s : State n) (distance : Int) : State n × Event :=
  let target := s.pc + distance
  let t := { s with program := s.program.toggle w.toggles target }
  match t.program.hasAddress target, t.program.at? target with
  | true, some ins => (t, .toggled target ins)
  | _, _ => (t, .missed target)

/-- Executes an instruction at the current counter, without moving on. -/
@[inline]
def execute (w : Wiring n) (s : State n) (ins : Instruction) :
    Except (Failure (State n)) (State n × Event) :=
  match ins.op with
  | .tgl =>
    match s.registers.read ins.a with
    | .error fault => .error ⟨fault, s⟩
    | .ok distance => .ok (s.toggle w distance)
  | .out =>
    match s.registers.read ins.a with
    | .error fault => .error ⟨fault, s⟩
    | .ok v => .ok (s, .output v)
  | _ =>
    match s.registers.effect ins with
    | .error fault => .error ⟨fault, s⟩
    | .ok (i, v) =>
      .ok ({ s with registers := s.registers.assign i v },
        if w.watched = some ins.c then .output v.toInt else .quiet)

/-- Reads the wired register back and moves to the next instruction. -/
def advance (w : Wiring n) (s : State n) : State n :=
  match w.ip with
  | none => { s with pc := s.pc + 1 }
  | some ip => { s with pc := (s.registers.get ip).toInt + 1 }

/-- Executes an instruction and moves on. -/
def perform (w : Wiring n) (s : State n) (ins : Instruction) :
    Except (Failure (State n)) (Step n) :=
  match s.execute w ins with
  | .error failure => .error failure
  | .ok (t, event) => .ok ⟨ins, event, t.advance w⟩

def step (w : Wiring n) (s : State n) : Except (Failure (State n)) (Step n) :=
  match s.fetch w with
  | .error failure => .error failure
  | .ok (t, ins) => t.perform w ins

/-- How many states with the counter inside the program can follow this one: an address, an opcode
for each instruction, and a word for each register. -/
def count (s : State n) : Nat :=
  let opcodes := s.program.toList.foldl (fun k _ => k * Opcode.all.length) 1
  s.program.size * opcodes * (1 <<< (64 * n))

end State

end WordMachine

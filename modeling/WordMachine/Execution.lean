import WordMachine.Machine

/-!
# Running a program to its end

`execute` runs a program on a register file, `executeOn` on a plain list of values. Both change
the program; on a fault a register file keeps what the steps before did to it, while a list stays
as it was given. Starting outside the program does nothing, and checks nothing.
-/

namespace WordMachine

/-- What a run leaves: the program and the registers, and the fault that stopped it, if any. -/
structure Execution (ρ : Type) where
  program : Program
  registers : ρ
  fault : Option Fault

/-- Why a computation gives no answer: a fault, or it never ends. -/
inductive Interrupt where
  | fault (cause : Fault)
  | endless
  deriving DecidableEq, Repr

/-- Runs to the end; `none` if there is none. -/
def execute {n : Nat} (setup : Setup) (program : Program) (registers : Registers n) :
    Option (Execution (Registers n)) :=
  if !program.hasAddress setup.pc then some ⟨program, registers, none⟩
  else
    match Machine.load setup program registers with
    | .error fault => some ⟨program, registers, some fault⟩
    | .ok m =>
      match m.complete with
      | .halted last => some ⟨last.state.program, last.state.registers, none⟩
      | .crashed ⟨fault, left⟩ => some ⟨left.state.program, left.state.registers, some fault⟩
      | .endless => none

def executeOn (setup : Setup) (program : Program) (values : List Int) :
    Option (Execution (List Int)) :=
  if !program.hasAddress setup.pc then some ⟨program, values, none⟩
  else
    match Registers.ofList values with
    | .error fault => some ⟨program, values, some fault⟩
    | .ok registers =>
      (execute setup program registers).map fun run =>
        match run.fault with
        | none => ⟨run.program, run.registers.values, none⟩
        | some fault => ⟨run.program, values, some fault⟩

/-- The registers a run leaves, if it stops without a fault. -/
def finalValues (setup : Setup) (program : Program) (values : List Int) :
    Except Interrupt (List Int) :=
  match executeOn setup program values with
  | none => .error .endless
  | some ⟨_, _, some fault⟩ => .error (.fault fault)
  | some ⟨_, registers, none⟩ => .ok registers

end WordMachine

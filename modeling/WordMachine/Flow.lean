import WordMachine.Flow.Loop
import WordMachine.Program

/-!
# Static control flow

Jumps are writes to the wired register, so where an instruction leads is read off the idioms that
listings use:

- `seti k _ ip`: to `k + 1`
- `setr ip _ ip`: to the next instruction
- `addi ip k ip`: `k + 1` ahead
- `addr ip ip ip`: to `2 pc + 1`
- `addr ip r ip`, `addr r ip ip`: to the next instruction or past it, `r` being a comparison result
- `mulr ip ip ip`: to `pc² + 1`
- `muli ip k ip`: to `k pc + 1`

Any other write to the wired register is an indirect jump. A program with `tgl` may change itself,
and then the graph is only an approximation.
-/

namespace WordMachine

/-- The addresses that may follow an instruction at `address`, `none` for an indirect jump. -/
def successors (ip : Option Int) (address : Int) (ins : Instruction) : Option (List Int) :=
  match ip with
  | none => some [address + 1]
  | some ip =>
    if !ins.writes ip then some [address + 1]
    else
      match ins.op with
      | .seti => some [ins.a + 1]
      | .setr => if ins.a = ip then some [address + 1] else none
      | .addi => if ins.a = ip then some [address + ins.b + 1] else none
      | .addr =>
        if ins.a = ip ∧ ins.b = ip then some [2 * address + 1]
        else if ins.a = ip ∨ ins.b = ip then some [address + 1, address + 2]
        else none
      | .mulr => if ins.a = ip ∧ ins.b = ip then some [address * address + 1] else none
      | .muli => if ins.a = ip then some [address * ins.b + 1] else none
      | _ => none

/-- A control flow graph: its nodes are the addresses of a program and a sink for halting. -/
structure FlowGraph where
  program : Program
  ip : Option Int

namespace FlowGraph

/-- The graph of a program. Its nodes are labelled by the texts of the instructions, so each of them
has to have one. -/
def ofProgram (program : Program) (ip : Option Int) : Except Fault FlowGraph :=
  (program.toList.mapM Instruction.text).map fun _ => ⟨program, ip⟩

def targets? (g : FlowGraph) (address : Nat) : Option (List Int) :=
  match g.program[address]? with
  | some ins => successors g.ip address ins
  | none => some []

def indirect (g : FlowGraph) (address : Nat) : Bool := (g.targets? address).isNone

def targets (g : FlowGraph) (address : Nat) : List Int := (g.targets? address).getD []

def addresses (g : FlowGraph) : List Nat := List.range g.program.size

/-- The addresses that an edge leads to, in ascending order. -/
def next (g : FlowGraph) (address : Nat) : List Nat :=
  ((g.targets address).filter g.program.hasAddress).map Int.toNat

/-- Whether an edge leads out of the program. -/
def leaves (g : FlowGraph) (address : Nat) : Bool :=
  (g.targets address).any fun target => !g.program.hasAddress target

/-- The number of nodes, the sink included. -/
def size (g : FlowGraph) : Nat := g.program.size + 1

def edgeCount (g : FlowGraph) : Nat :=
  g.addresses.foldl (fun k a => k + (g.next a).length + (if g.leaves a then 1 else 0)) 0

def selfModifying (g : FlowGraph) : Bool := g.program.any fun ins => ins.op == .tgl

def indirectJumps (g : FlowGraph) : List Nat := g.addresses.filter g.indirect

/-- The elementary cycles, each from its lowest address on, in lexicographic order. -/
def loops (g : FlowGraph) : List (List Nat) := Flow.cycles g.program.size g.next

/-- Whether the program may halt from `start`. Reaching an indirect jump counts as possibly halting,
and so does a start outside the program. -/
def mayHalt (g : FlowGraph) (start : Int) : Bool :=
  !g.program.hasAddress start ||
    Flow.reaches g.program.size g.next (fun a => g.leaves a || g.indirect a) start.toNat

end FlowGraph

end WordMachine

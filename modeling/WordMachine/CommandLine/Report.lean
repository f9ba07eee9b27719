import WordMachine.Flow
import WordMachine.Sample.Solution
import WordMachine.Session

/-!
# Reports

The lines a command prints about its result.
-/

namespace WordMachine.CommandLine

def yesNo (b : Bool) : String := if b then "True" else "False"

def orNone {α : Type} [ToString α] : Option α → String
  | some v => toString v
  | none => "None"

/-- Right-aligned in at least the given number of columns. -/
def padLeft (width : Nat) (s : String) : String :=
  String.ofList (List.replicate (width - s.length) ' ') ++ s

def padRight (width : Nat) (s : String) : String :=
  s ++ String.ofList (List.replicate (width - s.length) ' ')

def runLines (values : List Int) : List String := ["Registers: " ++ Text.bracketed values]

/-- At most this many outputs are shown. -/
def shownOutputs : Nat := 20

def analysisLines {n : Nat} (r : Report n) : List String :=
  let cycle := match r.verdict with
    | .cycle start length outputs =>
      [s!"  Cycle: starts at step {start}, length {length}",
       "  Outputs in cycle: " ++ yesNo (!outputs.isEmpty)]
    | _ => []
  let outputs :=
    if r.outputs.isEmpty then []
    else
      let shown := " ".intercalate ((r.outputs.take shownOutputs).map toString)
      let more := if shownOutputs < r.outputs.length then " ..." else ""
      [s!"  Outputs ({r.outputs.length}): " ++ shown ++ more,
       "  Last output: " ++ orNone r.lastOutput?]
  ["Outcome: " ++ r.verdict.name,
   s!"  Steps: {r.machine.steps}",
   s!"  pc: {r.machine.state.pc}",
   "  Registers: " ++ Text.bracketed r.machine.state.registers.values] ++ cycle ++ outputs

def haltingLines (firstOnly : Bool) (h : HaltingValues) : List String :=
  [s!"Halting values collected: {h.values.size}",
   "  Fewest instructions: " ++ orNone h.first?] ++
    if firstOnly then []
    else
      ["  Most instructions: " ++ orNone h.last?,
       "  Sequence repeated: " ++ yesNo h.repeated]

def flowLines (g : FlowGraph) : List String :=
  let loops := g.loops
  [s!"Instructions: {g.program.size}",
   "  ip register: " ++ orNone g.ip,
   "  Self-modifying: " ++ yesNo g.selfModifying,
   "  Indirect jumps: " ++ Text.bracketed (g.indirectJumps.map Int.ofNat),
   "  Halt reachable: " ++ yesNo (g.mayHalt 0),
   s!"  Loops: {loops.length}"] ++
    loops.map fun loop => "    " ++ " -> ".intercalate (loop.map toString)

def solutionLines (s : Solution) : List String :=
  [s!"Samples matching three or more opcodes: {s.ambiguous}", "Opcode numbers:"] ++
    (s.numbering.map fun (number, op) =>
      "  " ++ padLeft 2 (toString number) ++ ": " ++ op.mnemonic) ++
    ["Registers after program: " ++ Text.bracketed s.registers]

def infoLines : List String :=
  ["regmachine v1.0.0",
   "Register-machine interpreter with self-modification and cycle analysis",
   "",
   "Instruction set:",
   "  addr addi mulr muli banr bani borr bori divr divi",
   "  setr seti gtir gtri gtrr eqir eqri eqrr",
   "  tgl  - toggle the opcode at pc + rA",
   "  out  - emit rA",
   ""]

def helpLines : List String :=
  ["usage: regmachine [-h] [--version] [--log-level \x7bDEBUG,INFO,WARNING,ERROR\x7d]",
   "                  \x7brun,analyze,halting,clock,flow,opcodes,demo,test,info\x7d ...",
   "",
   "regmachine: register-machine interpreter",
   "",
   "positional arguments:",
   "  \x7brun,analyze,halting,clock,flow,opcodes,demo,test,info\x7d",
   "                        Available commands",
   "    run                 Run a listing to halt",
   "    analyze             Run with cycle detection",
   "    halting             Collect halting values of a gated program",
   "    clock               Find the lowest clock-signal seed",
   "    flow                Show static control flow",
   "    opcodes             Resolve opcode numbers from samples",
   "    demo                Run demonstration examples",
   "    test                Run test suite",
   "    info                Show system information",
   "",
   "options:",
   "  -h, --help            show this help message and exit",
   "  --version, -V         show program's version number and exit",
   "  --log-level \x7bDEBUG,INFO,WARNING,ERROR\x7d",
   "                        Logging level (default: WARNING)",
   "",
   "Examples:",
   "  regmachine run program.txt --registers 1",
   "  regmachine analyze program.txt --output-register 1 --max-steps 100000",
   "  regmachine halting program.txt --gate-register 0",
   "  regmachine clock program.txt --register-count 4 --limit 1000",
   "  regmachine flow program.txt",
   "  regmachine opcodes samples.txt",
   "  regmachine demo --example all"]

end WordMachine.CommandLine

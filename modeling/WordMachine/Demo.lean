import WordMachine.CommandLine.Report
import WordMachine.Journal

/-!
# Demonstrations

Four small programs that show what the machine can do, each with the result it should have, and
three walks through the same programs step by step.
-/

namespace WordMachine

namespace Demo

/-- Jumps as writes to register 0. -/
def jumps : String :=
  "#ip 0\nseti 5 0 1\nseti 6 0 2\naddi 0 1 0\naddr 1 2 3\nsetr 1 0 0\nseti 8 0 4\nseti 9 0 5\n"

/-- Changes its last instruction. -/
def toggling : String := "#ip 3\nseti 2 0 0\ntgl 0 0 0\nseti 3 0 1\naddr 1 1 2\n"

/-- Halts once register 1 equals register 0. -/
def gated : String :=
  "#ip 5\nseti 0 0 1\nmuli 1 5 1\naddi 1 3 1\nbani 1 15 1\neqrr 1 0 3\naddr 3 5 5\nseti 0 0 5\n"

/-- Emits 0, 1, 0, 1, … when register 0 starts at 2. -/
def ticking : String := "#ip 3\naddi 0 -2 1\nout 1 0 0\neqri 1 0 1\nseti 0 0 3\n"

open CommandLine (yesNo orNone padRight)

/-! ## Demonstrations -/

/-- What a demonstration prints after its title, whether it came out as it should, and its
journal. -/
structure Showing where
  lines : List String
  passed : Bool
  journal : Journal

structure Demonstration where
  name : String
  title : String
  showing : Except Interrupt Showing

def showJumps : Except Interrupt Showing := do
  let s ← (Session.read jumps.toList defaultWidth []).mapError .fault
  let values ← s.run
  let passed := values[0]? == some 6
  return ⟨["", "Final registers: " ++ Text.bracketed values, "Register 0 == 6: " ++ yesNo passed],
    passed, .ofRun s⟩

def showToggling : Except Interrupt Showing := do
  let s ← (Session.read toggling.toList 4 []).mapError .fault
  let values ← s.run
  let passed := values[2]? == some 4
  return ⟨["", "Final registers: " ++ Text.bracketed values,
    "addr toggled to addi (register 2 == 4): " ++ yesNo passed], passed, .ofRun s⟩

def showGated : Except Interrupt Showing := do
  let s ← (Session.read gated.toList defaultWidth []).mapError .fault
  let h ← (s.haltingValues {}).mapError .fault
  let passed := h.first? == some 3 && h.last? == some 0 && h.values.size == 16
  return ⟨["", "Values: " ++ Text.bracketed h.values.toList,
    "Fewest instructions: " ++ orNone h.first?, "Most instructions:   " ++ orNone h.last?,
    "Match: " ++ yesNo passed], passed, .ofSessionCollection s {} h⟩

def showTicking : Except Interrupt Showing := do
  let listing ← (Listing.read ticking.toList).mapError .fault
  let search := { listing.seedSearch 4 {} with limit := some 10 }
  let seed ← search.find.mapError .fault
  let s ← (Session.read ticking.toList 4 seed.toList).mapError .fault
  let r ← (s.analyze {} none).mapError .fault
  let passed := seed == some 2 && !r.lapOutputs.isEmpty
  return ⟨["", "Lowest seed: " ++ orNone seed,
    "Outcome: " ++ r.verdict.name ++ ", outputs " ++ Text.bracketed r.outputs,
    "Match: " ++ yesNo passed], passed, .ofSearch search ++ .ofSessionAnalysis s {} none⟩

def demonstrations : List Demonstration :=
  [⟨"worked", "Demo: Instruction pointer bound to register 0", showJumps⟩,
   ⟨"toggle", "Demo: Toggling an instruction ahead of the pc", showToggling⟩,
   ⟨"halting", "Demo: Halting values", showGated⟩,
   ⟨"clock", "Demo: Clock signal", showTicking⟩]

def rule : String := String.ofList (List.replicate 60 '=')

def banner (title : String) : List String := [rule, title, rule]

/-- A demonstration among others: a fault does not stop the next one. -/
def Demonstration.guarded (d : Demonstration) : Except Interrupt Showing :=
  match d.showing with
  | .ok s => .ok { s with lines := banner d.title ++ s.lines ++ [""] }
  | .error (.fault f) =>
    if f.kind = .malformed ∨ f.kind = .outOfRange then
      .ok ⟨banner d.title ++ [s!"Error in {d.name}: " ++ f.message, ""], false, []⟩
    else .error (.fault f)
  | .error .endless => .error .endless

/-- All demonstrations, with a summary. -/
def showAll : Except Interrupt Showing := do
  let showings ← demonstrations.mapM Demonstration.guarded
  let summary := (demonstrations.zip showings).map fun (d, s) =>
    s!"  {d.name}: " ++ if s.passed then "PASS" else "FAIL"
  return ⟨showings.flatMap (·.lines) ++ banner "Summary" ++ summary,
    showings.all (·.passed), showings.flatMap (·.journal)⟩

/-- The demonstrations of a name: one of them, or all. -/
def present (name : String) : Except Interrupt Showing :=
  if name == "all" then showAll
  else
    match demonstrations.find? fun d => d.name == name with
    | some d => d.showing.map fun s => { s with lines := banner d.title ++ s.lines }
    | none =>
      .ok ⟨["Unknown example: " ++ name,
        "Available: " ++ ", ".intercalate (demonstrations.map (·.name)) ++ ", all"], false, []⟩

/-! ## Walks -/

def walkJumps : Except Interrupt (List String) := do
  let listing ← (Listing.read jumps.toList).mapError .fault
  let registers ← (Registers.zeros 6).mapError .fault
  let m ← (Machine.load { ip := listing.ip } listing.program registers).mapError .fault
  match m.complete with
  | .crashed failure => .error (.fault failure.fault)
  | .endless => .error .endless
  | .halted last =>
    let (steps, _) ← (m.trace last.steps).mapError fun failure => .fault failure.fault
    let lines ← steps.mapM fun (pc, step) => do
      let text ← step.instruction.text.mapError Interrupt.fault
      return s!"  pc={pc} " ++ padRight 14 text ++ " -> " ++
        Text.bracketed step.next.registers.values
    let first ← (last.state.registers.read 0).mapError .fault
    return ["Tracing the worked example..."] ++ lines ++
      ["", s!"Halted after {last.steps} steps", s!"Register 0 = {first}"]

def walkGated : Except Interrupt (List String) := do
  let s ← (Session.read gated.toList 6 []).mapError .fault
  let g ← (FlowGraph.ofProgram s.listing.program s.listing.ip).mapError .fault
  let loops := g.loops.map fun loop => Text.bracketed (loop.map Int.ofNat)
  let h ← (s.haltingValues {}).mapError .fault
  return ["Loops: [" ++ ", ".intercalate loops ++ "]",
    "Values in order reached: " ++ Text.bracketed h.values.toList,
    "Halts soonest with r0 = " ++ orNone h.first?,
    "Halts latest with r0 = " ++ orNone h.last?]

def walkTicking : Except Interrupt (List String) := do
  let seeds ← [0, 1, 2, 3].mapM fun (seed : Int) => do
    let s ← (Session.read ticking.toList 4 [seed]).mapError Interrupt.fault
    let r ← (s.analyze {} none).mapError Interrupt.fault
    return s!"seed {seed}: {r.verdict.name}, first outputs " ++
      Text.bracketed (r.outputs.take 4)
  let listing ← (Listing.read ticking.toList).mapError .fault
  let seed ← SeedSearch.find { listing.seedSearch 4 {} with limit := some 100 } |>.mapError .fault
  return seeds ++ ["", "Lowest clock seed: " ++ orNone seed]

end Demo

end WordMachine

import WordMachine.State

/-!
# Machines

A machine is a state with its wiring and the history of a run: how many steps were completed and
which values were emitted. Loading checks that the wired register exists and that the program
refers to no register outside the file.
-/

namespace WordMachine

/-- How to set a machine up. -/
structure Setup where
  ip : Option Int := none
  toggles : ToggleTable := .standard
  watched : Option Int := none
  pc : Int := 0

structure Machine (n : Nat) where
  wiring : Wiring n
  state : State n
  steps : Nat := 0
  outputs : Array Int := #[]

namespace Machine

variable {n : Nat}

/-- The wired register as an index of the file. -/
def pointer (n : Nat) : Option Int → Except Fault (Option (Fin n))
  | none => .ok none
  | some ip =>
    match Registers.index? n ip with
    | some i => .ok (some i)
    | none => .error (Fault.pointerOutside ip n).raised

def load (setup : Setup) (program : Program) (registers : Registers n) :
    Except Fault (Machine n) := do
  let ip ← pointer n setup.ip
  program.validate n
  return { wiring := ⟨ip, setup.toggles, setup.watched⟩, state := ⟨program, registers, setup.pc⟩ }

def halted (m : Machine n) : Bool := m.state.halted

/-! ## One instruction -/

/-- A failure of the state as one of the machine. -/
def failing (m : Machine n) (failure : Failure (State n)) : Failure (Machine n) :=
  ⟨failure.fault, { m with state := failure.left }⟩

def record (m : Machine n) (event : Event) : Machine n :=
  match event.output? with
  | some value => { m with outputs := m.outputs.push value }
  | none => m

def fetch (m : Machine n) : Except (Failure (Machine n)) (Machine n × Instruction) :=
  match m.state.fetch m.wiring with
  | .error failure => .error (m.failing failure)
  | .ok (s, ins) => .ok ({ m with state := s }, ins)

def execute (m : Machine n) (ins : Instruction) : Except (Failure (Machine n)) (Machine n) :=
  match m.state.execute m.wiring ins with
  | .error failure => .error (m.failing failure)
  | .ok (s, event) => .ok ({ m with state := s }.record event)

def advance (m : Machine n) : Machine n :=
  { m with state := m.state.advance m.wiring, steps := m.steps + 1 }

/-- The machine after a completed step. -/
def after (m : Machine n) (step : Step n) : Machine n :=
  { m with state := step.next, steps := m.steps + 1 }.record step.event

/-- The step the machine takes next. -/
def attempt (m : Machine n) : Except (Failure (Machine n)) (Step n) :=
  (m.state.step m.wiring).mapError m.failing

/-- The machine after the step it takes next. Its old state is not kept. -/
def step : Machine n → Except (Failure (Machine n)) (Machine n)
  | ⟨wiring, state, steps, outputs⟩ =>
    match state.step wiring with
    | .error ⟨fault, left⟩ => .error ⟨fault, ⟨wiring, left, steps, outputs⟩⟩
    | .ok step => .ok (record ⟨wiring, step.next, steps + 1, outputs⟩ step.event)

theorem step_eq_map_attempt (m : Machine n) : m.step = m.attempt.map m.after := by
  obtain ⟨wiring, state, steps, outputs⟩ := m
  simp only [step, attempt]
  cases state.step wiring <;> rfl

/-! ## Runs -/

/-- Runs until the counter leaves the program, for at most `k` steps. -/
def runFor : Nat → Machine n → Except (Failure (Machine n)) (Machine n)
  | 0, m => .ok m
  | k + 1, m =>
    if m.halted then .ok m
    else
      match m.step with
      | .error failure => .error failure
      | .ok m => runFor k m

/-- The steps of such a run after those in `past`, each with the counter it started from, and the
machine it ends in. -/
def traceFrom (past : Array (Int × Step n)) :
    Nat → Machine n → Except (Failure (Machine n)) (Array (Int × Step n) × Machine n)
  | 0, m => .ok (past, m)
  | k + 1, m =>
    if m.halted then .ok (past, m)
    else
      match m.attempt with
      | .error failure => .error failure
      | .ok step => traceFrom (past.push (m.state.pc, step)) k (m.after step)

def trace (k : Nat) (m : Machine n) :
    Except (Failure (Machine n)) (List (Int × Step n) × Machine n) :=
  (traceFrom #[] k m).map fun (steps, last) => (steps.toList, last)

/-- How a run without a budget ends, if it does. -/
inductive Completion (n : Nat) where
  | halted (m : Machine n)
  | crashed (failure : Failure (Machine n))
  | endless

/-- The steps in a round. A run without a budget goes on in rounds, so that the steps left in one
stay a small number, however large the number of states. -/
def roundLength : Nat := 0x100000000

/-- The rounds that make up at least so many steps. -/
def roundsFor (steps : Nat) : Nat := steps / roundLength + 1

theorem lt_rounds (steps : Nat) : steps < roundsFor steps * roundLength :=
  (Nat.div_lt_iff_lt_mul (by decide)).1 (Nat.lt_succ_self _)

/-- Runs to the end, for at most `k` rounds. -/
def completeIn : Nat → Machine n → Completion n
  | 0, _ => .endless
  | k + 1, m =>
    match m.runFor roundLength with
    | .error failure => .crashed failure
    | .ok last => if last.halted then .halted last else completeIn k last

/-- Runs to the end. A run that outlasts the number of states repeats one, and so never ends. -/
def complete (m : Machine n) : Completion n := m.completeIn (roundsFor m.state.count)

end Machine

end WordMachine

import Std.Data.HashSet
import WordMachine.Machine

/-!
# Halting values

Programs of one family halt only when a gate, an `eqrr` that compares some register with the gate
register, succeeds. Collecting their halting values means to run the program with every gate forced
to fail and to write down what each gate compares, until a value comes a second time. The first
value halts the program after the fewest instructions.

Without a budget the run may go on forever without meeting a gate again. It does so if it outlasts
the number of states twice: in the first half a state repeats, and in the second every gate of that
lap has been met again.
-/

namespace WordMachine

/-- The register that an instruction compares with the gate register, if it is a gate. Without a
gate register there are no gates. -/
def gateOperand? (gate : Option Int) (ins : Instruction) : Option Int :=
  if ins.op = .eqrr then
    if gate = some ins.b then some ins.a
    else if gate = some ins.a then some ins.b
    else none
  else none

/-- The addresses of the gates of a program. -/
def Program.gates (gate : Option Int) (p : Program) : List Nat :=
  p.toList.zipIdx.filterMap fun (ins, address) => (gateOperand? gate ins).map fun _ => address

/-- The instruction that takes the place of a gate: its comparison fails. -/
def failedGate (ins : Instruction) : Instruction := ⟨.seti, 0, 0, ins.c⟩

/-- An instruction as a collection executes it: every gate fails. -/
def forced (gate : Option Int) (ins : Instruction) : Instruction :=
  if (gateOperand? gate ins).isSome then failedGate ins else ins

/-- The value that an instruction compares with the gate register, if it is a gate. -/
def State.gateValue {n : Nat} (gate : Option Int) (s : State n) (ins : Instruction) :
    Except Fault (Option Int) :=
  match gateOperand? gate ins with
  | none => .ok none
  | some reg => (s.registers.read reg).map some

/-- Why the collection stopped. -/
inductive Stop where
  | halted
  | repeated
  | firstFound
  | budget
  | endless
  deriving DecidableEq, Repr

structure HaltingValues where
  values : Array Int
  stop : Stop
  steps : Nat

namespace HaltingValues

def repeated (h : HaltingValues) : Bool := h.stop == .repeated

/-- The value that halts the program after the fewest instructions. -/
def first? (h : HaltingValues) : Option Int := h.values[0]?

/-- The last value before the first repetition. -/
def last? (h : HaltingValues) : Option Int := h.values.back?

end HaltingValues

/-- A collection under way: the values met so far, also in the order they were met, the steps made
and the state reached. -/
structure Pursuit (n : Nat) where
  seen : Std.HashSet Int := ∅
  values : Array Int := #[]
  steps : Nat := 0
  state : State n

/-- What a bounded part of a collection leads to. -/
inductive Progress (n : Nat) where
  | done (values : HaltingValues)
  | underWay (pursuit : Pursuit n)

/-- What to collect: the gate register, whether the first value is enough, and a step budget. -/
structure Collection where
  gate : Option Int := some 0
  firstOnly : Bool := false
  budget : Option Int := none

namespace Collection

variable {n : Nat}

/-- Collects along a run for at most `k` steps. -/
def follow (c : Collection) (w : Wiring n) : Nat → Pursuit n → Except Fault (Progress n)
  | 0, p =>
    .ok (if p.state.halted then .done ⟨p.values, .halted, p.steps⟩ else .underWay p)
  | k + 1, ⟨seen, values, steps, s⟩ =>
    if s.halted then .ok (.done ⟨values, .halted, steps⟩)
    else
      match s.fetch w with
      | .error failure => .error failure.fault
      | .ok (t, ins) =>
        match t.gateValue c.gate ins with
        | .error fault => .error fault
        | .ok none =>
          match t.perform w (forced c.gate ins) with
          | .error failure => .error failure.fault
          | .ok step => c.follow w k ⟨seen, values, steps + 1, step.next⟩
        | .ok (some value) =>
          if seen.contains value then .ok (.done ⟨values, .repeated, steps⟩)
          else if c.firstOnly then .ok (.done ⟨values.push value, .firstFound, steps⟩)
          else
            match t.perform w (forced c.gate ins) with
            | .error failure => .error failure.fault
            | .ok step =>
              c.follow w k ⟨seen.insert value, values.push value, steps + 1, step.next⟩

/-- Collects along a run for at most `k` rounds. -/
def followIn (c : Collection) (w : Wiring n) : Nat → Pursuit n → Except Fault HaltingValues
  | 0, p => .ok ⟨p.values, .endless, p.steps⟩
  | k + 1, p =>
    match c.follow w Machine.roundLength p with
    | .error fault => .error fault
    | .ok (.done values) => .ok values
    | .ok (.underWay p) => c.followIn w k p

/-- Collects from the state a machine is in. -/
def collect (c : Collection) (m : Machine n) : Except Fault HaltingValues :=
  match c.budget with
  | none => c.followIn m.wiring (Machine.roundsFor (2 * (m.state.count + 1))) { state := m.state }
  | some budget =>
    match c.follow m.wiring budget.toNat { state := m.state } with
    | .error fault => .error fault
    | .ok (.done values) => .ok values
    | .ok (.underWay p) => .ok ⟨p.values, .budget, p.steps⟩

end Collection

/-- The halting values of a program on a register file. -/
def haltingValues {n : Nat} (setup : Setup) (c : Collection) (program : Program)
    (registers : Registers n) : Except Fault HaltingValues := do
  c.collect (← Machine.load setup program registers)

end WordMachine

import Std.Data.HashMap
import WordMachine.Machine

/-!
# Cycle detection

Runs a machine and remembers every state it was in. A state met again proves that the run never
ends, and the steps since the first meeting are the lap it repeats. A step budget and a check of
the emitted values may end the run sooner.

Without a budget the number of states is one: a run that long has met a state twice.
-/

namespace WordMachine

/-- A check of emitted values, one after the other; `accept` refuses a value by `none`. -/
structure Check (σ : Type) where
  init : σ
  accept : σ → Int → Option σ

namespace Check

/-- Accepts everything. -/
def any : Check Unit := ⟨(), fun _ _ => some ()⟩

/-- Accepts values that are at least `least`. -/
def atLeast (least : Int) : Check Unit := ⟨(), fun _ v => if least ≤ v then some () else none⟩

/-- Accepts the first `count` values. -/
def atMost (count : Int) : Check Int := ⟨0, fun k _ => if k < count then some (k + 1) else none⟩

end Check

/-- How an analysed run ended. A cycle starts at the step where its state was first met. -/
inductive Verdict where
  | halted
  | cycle (start length : Nat) (outputs : List Int)
  | stepLimit
  | rejected
  deriving DecidableEq, Repr

def Verdict.name : Verdict → String
  | .halted => "HALTED"
  | .cycle .. => "CYCLE"
  | .stepLimit => "STEP_LIMIT"
  | .rejected => "REJECTED"

structure Report (n : Nat) where
  verdict : Verdict
  machine : Machine n

namespace Report

variable {n : Nat}

def outputs (r : Report n) : List Int := r.machine.outputs.toList

/-- The values emitted in each lap of the cycle. -/
def lapOutputs (r : Report n) : List Int :=
  match r.verdict with
  | .cycle _ _ outputs => outputs
  | _ => []

/-- The last value emitted; of a run that cycles, the last one of a lap. -/
def lastOutput? (r : Report n) : Option Int :=
  match r.verdict with
  | .cycle _ _ outputs => outputs.getLast?
  | _ => r.outputs.getLast?

end Report

/-- The point of a run where a state was met: the steps completed and the values emitted so far. -/
structure Mark where
  steps : Nat
  emitted : Nat

namespace Machine

variable {n : Nat} {σ : Type}

/-- Follows a run for at most the given number of steps. -/
def watch (check : Check σ) :
    Nat → Std.HashMap (State n) Mark → σ → Machine n → Except (Failure (Machine n)) (Report n)
  | 0, _, _, m => .ok ⟨if m.halted then .halted else .stepLimit, m⟩
  | k + 1, seen, c, m =>
    if m.halted then .ok ⟨.halted, m⟩
    else
      match seen[m.state]? with
      | some mark =>
        let lap := m.outputs.toList.drop mark.emitted
        .ok ⟨.cycle mark.steps (m.steps - mark.steps) lap, m⟩
      | none =>
        match m.attempt with
        | .error failure => .error failure
        | .ok step =>
          let seen := seen.insert m.state ⟨m.steps, m.outputs.size⟩
          match step.event.output? with
          | none => watch check k seen c (m.after step)
          | some value =>
            match check.accept c value with
            | some c => watch check k seen c (m.after step)
            | none => .ok ⟨.rejected, m.after step⟩

/-- The steps an analysis may take: those of the budget, or else enough to meet a state twice. -/
def allowance (m : Machine n) : Option Int → Nat
  | some budget => budget.toNat
  | none => m.state.count + 1

/-- Runs until the machine halts, meets a state again, or is stopped. -/
def analyze (check : Check σ) (budget : Option Int) (m : Machine n) :
    Except (Failure (Machine n)) (Report n) :=
  m.watch check (m.allowance budget) ∅ check.init

end Machine

/-- The analysis of a program on a register file. -/
def analyze {n : Nat} {σ : Type} (setup : Setup) (check : Check σ) (budget : Option Int)
    (program : Program) (registers : Registers n) : Except Fault (Report n) := do
  let m ← Machine.load setup program registers
  (m.analyze check budget).mapError (·.fault)

end WordMachine

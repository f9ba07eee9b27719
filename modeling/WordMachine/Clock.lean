import WordMachine.Cycle

/-!
# Clock signals

A machine is a clock if it runs forever and emits 0, 1, 0, 1, … without end. The outputs must
alternate from the first one on, and the machine must enter a cycle whose lap emits an even number
of values, at least two: after an odd lap the next one would start on the value the last ended
with.
-/

namespace WordMachine

namespace Clock

/-- Expects 0 and 1 in turn. -/
def check : Check Int := ⟨0, fun expected v => if v = expected then some (1 - expected) else none⟩

/-- For each value in turn, whether it is accepted and the value expected after it. A refused value
changes nothing. -/
def observe (expected : Int) : List Int → List (Bool × Int)
  | [] => []
  | v :: vs =>
    match check.accept expected v with
    | some next => (true, next) :: observe next vs
    | none => (false, expected) :: observe expected vs

/-- Whether a report is that of a clock. -/
def ticks {n : Nat} (r : Report n) : Bool :=
  match r.verdict with
  | .cycle _ _ outputs => 0 < outputs.length && outputs.length % 2 == 0
  | _ => false

end Clock

def isClock {n : Nat} (setup : Setup) (budget : Option Int) (program : Program)
    (registers : Registers n) : Except Fault Bool :=
  (analyze setup Clock.check budget program registers).map Clock.ticks

/-- A search for the least seed that makes a program a clock: the seed goes into one register of a
file of zeros, and seeds are tried upwards from `start`. -/
structure SeedSearch where
  setup : Setup := {}
  program : Program
  width : Int
  register : Int := 0
  start : Int := 0
  limit : Option Int := none
  budget : Option Int := none

namespace SeedSearch

def test (search : SeedSearch) (seed : Int) : Except Fault Bool := do
  let registers ← Registers.seeded search.width search.register seed
  isClock search.setup search.budget search.program registers

/-- Tries `k` seeds from the given one on. -/
def search (s : SeedSearch) : Nat → Int → Except Fault (Option Int)
  | 0, _ => .ok none
  | k + 1, seed =>
    match s.test seed with
    | .error fault => .error fault
    | .ok true => .ok (some seed)
    | .ok false => s.search k (seed + 1)

/-- How many seeds are tried. Without a limit the search reaches a clock or a fault at the latest
with the first seed that fits no word. -/
def attempts (s : SeedSearch) : Nat :=
  match s.limit with
  | some limit => limit.toNat
  | none => (0x8000000000000000 - s.start).toNat + 1

def find (s : SeedSearch) : Except Fault (Option Int) := s.search s.attempts s.start

end SeedSearch

end WordMachine

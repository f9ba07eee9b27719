/-!
# Sets of nodes

A set of natural numbers as one number, a bit for each member. Membership is a bit test, and each
operation says what it does to membership.
-/

namespace WordMachine.Flow

structure NodeSet where
  bits : Nat
  deriving DecidableEq, Repr

namespace NodeSet

def contains (s : NodeSet) (v : Nat) : Bool := s.bits.testBit v

def empty : NodeSet := ⟨0⟩

def insert (s : NodeSet) (v : Nat) : NodeSet := ⟨s.bits ||| 1 <<< v⟩

def erase (s : NodeSet) (v : Nat) : NodeSet := ⟨s.bits ^^^ (s.bits &&& 1 <<< v)⟩

/-- The numbers from `low` on that are below `high`. -/
def between (low high : Nat) : NodeSet := ⟨(1 <<< (high - low) - 1) <<< low⟩

theorem testBit_one_shiftLeft (v u : Nat) : (1 <<< v).testBit u = decide (u = v) := by
  rw [Nat.one_shiftLeft, Nat.testBit_two_pow]
  simp only [eq_comm]

@[simp]
theorem contains_empty (u : Nat) : empty.contains u = false := Nat.zero_testBit u

@[simp]
theorem contains_insert (s : NodeSet) (v u : Nat) :
    (s.insert v).contains u = (s.contains u || decide (u = v)) := by
  simp only [contains, insert, Nat.testBit_or, testBit_one_shiftLeft]

@[simp]
theorem contains_erase (s : NodeSet) (v u : Nat) :
    (s.erase v).contains u = (s.contains u && !decide (u = v)) := by
  simp only [contains, erase, Nat.testBit_xor, Nat.testBit_and, testBit_one_shiftLeft]
  cases s.bits.testBit u <;> cases decide (u = v) <;> rfl

@[simp]
theorem contains_between (low high u : Nat) :
    (between low high).contains u = (decide (low ≤ u) && decide (u < high)) := by
  simp only [contains, between, Nat.testBit_shiftLeft, Nat.one_shiftLeft,
    Nat.testBit_two_pow_sub_one, ge_iff_le]
  by_cases h : low ≤ u
  · simp only [h, decide_true, Bool.true_and, decide_eq_decide]
    omega
  · simp [h]

end NodeSet

end WordMachine.Flow

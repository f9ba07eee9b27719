import Mathlib.Data.Int.Bitwise
import WordMachine.Proofs.Effect
import WordMachine.Proofs.Step

/-!
# Where the arithmetic overflows

Operands are integers of any size, and only the result has to fit a word. An integer fits just if
its bits from the 63rd on all say its sign (`Word.fits_iff_testBit`), and the bits of `and` and `or`
are those of the operands combined one by one. So whether a long literal overflows depends on the
sign of the register it meets: a negative register has ones there, which `and` lets through and `or`
covers, and any other register has zeros.

A quotient is no longer than the dividend, so of all divisions only that of the least word by -1
overflows.
-/

namespace WordMachine

/-! ## Integers that fit a word -/

namespace Word

def Fits (v : Int) : Prop := -2 ^ 63 ≤ v ∧ v < 2 ^ 63

instance (v : Int) : Decidable (Fits v) := inferInstanceAs (Decidable (_ ∧ _))

theorem fits_toInt (w : Word) : Fits w.toInt := ⟨Int64.le_toInt w, Int64.toInt_lt w⟩

theorem lt_two_pow_iff_testBit {m k : Nat} :
    m < 2 ^ k ↔ ∀ i, k ≤ i → m.testBit i = false := by
  constructor
  · intro h i hi
    exact Nat.testBit_lt_two_pow (Nat.lt_of_lt_of_le h (Nat.pow_le_pow_right (by decide) hi))
  · exact Nat.lt_pow_two_of_testBit m

/-- An integer fits a word if all its bits but the lowest 63 are its sign. -/
theorem fits_iff_testBit {v : Int} :
    Fits v ↔ ∀ i, 63 ≤ i → v.testBit i = decide (v < 0) := by
  cases v with
  | ofNat m =>
    have hfits : Fits (Int.ofNat m) ↔ m < 2 ^ 63 := by
      rw [Fits, Int.ofNat_eq_natCast]
      omega
    have hsign : ¬ Int.ofNat m < 0 := by simp
    simp only [hfits, lt_two_pow_iff_testBit, Int.testBit, hsign, decide_false]
  | negSucc m =>
    have hfits : Fits (Int.negSucc m) ↔ m < 2 ^ 63 := by
      rw [Fits]
      omega
    have hsign : Int.negSucc m < 0 := Int.negSucc_lt_zero m
    simp only [hfits, lt_two_pow_iff_testBit, Int.testBit, hsign, decide_true, Bool.not_eq_true']

end Word

/-! ## Bitwise operations -/

namespace Bits

variable {x y : Int}

theorem without_eq_ldiff (m n : Nat) : without m n = m.ldiff n := by
  apply Nat.eq_of_testBit_eq
  intro i
  rw [without, Nat.testBit_xor, Nat.testBit_and, Nat.testBit_ldiff]
  cases m.testBit i <;> cases n.testBit i <;> rfl

theorem testBit_and (x y : Int) (i : Nat) :
    (and x y).testBit i = (x.testBit i && y.testBit i) := by
  rw [← Int.testBit_land]
  cases x <;> cases y <;> simp only [and, Int.land, without_eq_ldiff, Int.ofNat_eq_natCast]

theorem testBit_or (x y : Int) (i : Nat) :
    (or x y).testBit i = (x.testBit i || y.testBit i) := by
  rw [← Int.testBit_lor]
  cases x <;> cases y <;> simp only [or, Int.lor, without_eq_ldiff, Int.ofNat_eq_natCast]

theorem and_neg_iff (x y : Int) : and x y < 0 ↔ x < 0 ∧ y < 0 := by
  cases x <;> cases y <;> simp only [and, Int.ofNat_eq_natCast] <;> omega

theorem or_neg_iff (x y : Int) : or x y < 0 ↔ x < 0 ∨ y < 0 := by
  cases x <;> cases y <;> simp only [or, Int.ofNat_eq_natCast] <;> omega

open Word

/-- A negative register lets the high bits of the other operand through, any other clears them. -/
theorem fits_and_iff (hx : Fits x) : Fits (and x y) ↔ 0 ≤ x ∨ Fits y := by
  rw [fits_iff_testBit] at hx
  by_cases hneg : x < 0
  · rw [or_iff_right (Int.not_le.2 hneg), fits_iff_testBit, fits_iff_testBit]
    refine forall₂_congr fun i hi => ?_
    simp [testBit_and, and_neg_iff, hx i hi, hneg]
  · refine iff_of_true (fits_iff_testBit.2 fun i hi => ?_) (.inl (Int.not_lt.1 hneg))
    simp [testBit_and, and_neg_iff, hx i hi, hneg]

/-- A negative register sets the high bits of the other operand, any other leaves them. -/
theorem fits_or_iff (hx : Fits x) : Fits (or x y) ↔ x < 0 ∨ Fits y := by
  rw [fits_iff_testBit] at hx
  by_cases hneg : x < 0
  · refine iff_of_true (fits_iff_testBit.2 fun i hi => ?_) (.inl hneg)
    simp [testBit_or, or_neg_iff, hx i hi, hneg]
  · rw [or_iff_right hneg, fits_iff_testBit, fits_iff_testBit]
    refine forall₂_congr fun i hi => ?_
    simp [testBit_or, or_neg_iff, hx i hi, hneg]

end Bits

/-! ## Results -/

theorem Word.fits_tdiv_iff {x y : Int} (hx : Fits x) (hy : y ≠ 0) :
    Fits (x.tdiv y) ↔ ¬ (x = -2 ^ 63 ∧ y = -1) := by
  have hquotient : (x.tdiv y).natAbs = x.natAbs / y.natAbs := Int.natAbs_tdiv x y
  unfold Fits at hx ⊢
  constructor
  · rintro ⟨-, hlt⟩ ⟨rfl, rfl⟩
    exact absurd hlt (by decide)
  · intro hne
    by_cases hone : y.natAbs = 1
    · rcases Int.natAbs_eq_iff.1 hone with rfl | rfl
      · rw [Int.natCast_one, Int.tdiv_one]
        omega
      · rw [Int.natCast_one, Int.tdiv_neg, Int.tdiv_one]
        omega
    · -- Any other divisor halves the dividend, or does more.
      have hhalf : x.natAbs / y.natAbs ≤ x.natAbs / 2 := Nat.div_le_div_left (by omega) (by decide)
      omega

namespace Operation

/-- What a result is. That of a division leaves a remainder that is smaller than the divisor and on
the same side of zero as the dividend: the quotient is rounded toward zero. -/
def Yields : Operation → Int → Int → Int → Prop
  | .add, x, y, z => z = x + y
  | .mul, x, y, z => z = x * y
  | .and, x, y, z => ∀ i, z.testBit i = (x.testBit i && y.testBit i)
  | .or, x, y, z => ∀ i, z.testBit i = (x.testBit i || y.testBit i)
  | .div, x, y, z => (x - z * y).natAbs < y.natAbs ∧ 0 ≤ x * (x - z * y)
  | .first, x, _, z => z = x
  | .greater, x, y, z => z = if y < x then 1 else 0
  | .equal, x, y, z => z = if x = y then 1 else 0

theorem yields_of_eval {operation : Operation} {x y z : Int} (h : operation.eval x y = .ok z) :
    operation.Yields x y z := by
  cases operation with
  | and =>
    cases h
    exact Bits.testBit_and x y
  | or =>
    cases h
    exact Bits.testBit_or x y
  | div =>
    simp only [eval] at h
    split at h
    · cases h
    · next hy =>
      cases h
      have hremainder : x - x.tdiv y * y = x.tmod y := by rw [Int.tmod_def, Int.mul_comm]
      simp only [Yields, hremainder]
      refine ⟨?_, ?_⟩
      · rw [Int.natAbs_tmod]
        exact Nat.mod_lt _ (by omega)
      · rcases Int.le_total 0 x with hx | hx
        · exact Int.mul_nonneg hx (Int.tmod_nonneg y hx)
        · have hneg : 0 ≤ (-x).tmod y := Int.tmod_nonneg y (by omega)
          rw [Int.neg_tmod] at hneg
          exact Int.mul_nonneg_of_nonpos_of_nonpos hx (by omega)
  | _ => cases h; rfl

theorem exists_eval {operation : Operation} {x y : Int} (h : operation = .div → y ≠ 0) :
    ∃ z, operation.eval x y = .ok z := by
  cases operation with
  | div => exact ⟨_, if_neg (h rfl)⟩
  | _ => exact ⟨_, rfl⟩

end Operation

/-- The opcodes whose result always fits a word: they compare, or they copy or combine the bits of
registers. -/
def Opcode.bounded : List Opcode :=
  [.banr, .borr, .setr, .gtir, .gtri, .gtrr, .eqir, .eqri, .eqrr]

theorem Opcode.exists_fits_of_mem_bounded {op : Opcode} {operation : Operation} {x y : Int}
    (hmem : op ∈ bounded) (hop : op.operation? = some operation)
    (hx : op.signature.a = .register → Word.Fits x)
    (hy : op.signature.b = .register → Word.Fits y) :
    ∃ z, operation.eval x y = .ok z ∧ Word.Fits z := by
  have hbit : ∀ {p : Prop} [Decidable p], Word.Fits (if p then 1 else 0) := by
    intro p _
    split <;> decide
  cases op with
  | banr =>
    cases hop
    exact ⟨_, rfl, (Bits.fits_and_iff (hx rfl)).2 (.inr (hy rfl))⟩
  | borr =>
    cases hop
    exact ⟨_, rfl, (Bits.fits_or_iff (hx rfl)).2 (.inr (hy rfl))⟩
  | setr =>
    cases hop
    exact ⟨_, rfl, hx rfl⟩
  | gtir | gtri | gtrr | eqir | eqri | eqrr =>
    cases hop
    exact ⟨_, rfl, hbit⟩
  | _ => simp [bounded] at hmem

/-! ## Instructions -/

namespace Registers

variable {n : Nat} {r : Registers n}

theorem exists_word {v : Int} (h : Word.Fits v) : ∃ w, word v = .ok w ∧ w.toInt = v := by
  obtain ⟨w, hw⟩ := Option.isSome_iff_exists.1 (Word.ofInt?_isSome_iff.2 h)
  exact ⟨w, by simp only [word, hw], Word.toInt_of_ofInt? hw⟩

theorem word_of_not_fits {v : Int} (h : ¬ Word.Fits v) : word v = .error .overflow := by
  have hnone : Word.ofInt? v = none := by
    rw [← Option.not_isSome_iff_eq_none, Word.ofInt?_isSome_iff]
    exact h
  simp only [word, hnone]

theorem fits_of_operand {kind : Addressing} {reg v : Int} (h : r.operand kind reg = .ok v)
    (hkind : kind = .register) : Word.Fits v := by
  subst hkind
  obtain ⟨i, -, rfl⟩ := read_eq_ok_iff.1 h
  exact Word.fits_toInt _

section

variable {ins : Instruction} {operation : Operation} {x y z : Int} {i : Fin n}
  (hop : ins.op.operation? = some operation) (hx : r.operand ins.op.signature.a ins.a = .ok x)
  (hy : r.operand ins.op.signature.b ins.b = .ok y) (hc : ins.c = i)
  (hz : operation.eval x y = .ok z)

include hop hx hy hc

/-- An instruction with operands combines them, and the destination gets the result. -/
theorem apply_eq : r.apply ins = (operation.eval x y >>= word).map (r.assign i) := by
  have hindex : index n ins.c = .ok i := index_eq_ok_iff.2 hc
  simp only [apply, effect, hop, hx, hy, hindex, bind, Except.bind]
  cases operation.eval x y with
  | error fault => rfl
  | ok z => cases hword : word z <;> simp only [hword] <;> rfl

include hz

theorem apply_of_fits (hfits : Word.Fits z) : ∃ r', r.apply ins = .ok r' ∧
    r'.read ins.c = .ok z ∧ ∀ reg, reg ≠ ins.c → r'.read reg = r.read reg := by
  obtain ⟨w, hw, rfl⟩ := exists_word hfits
  refine ⟨r.assign i w, ?_, ?_, fun reg hreg => read_assign_of_ne r w (hc ▸ hreg)⟩
  · rw [apply_eq hop hx hy hc, hz]
    exact Except.map_eq_ok_iff.2 ⟨w, hw, rfl⟩
  · rw [hc, read_assign_self]

theorem apply_eq_overflow_iff : r.apply ins = .error .overflow ↔ ¬ Word.Fits z := by
  constructor
  · intro hover hfits
    obtain ⟨r', hok, -⟩ := apply_of_fits hop hx hy hc hz hfits
    rw [hover] at hok
    cases hok
  · intro hfits
    rw [apply_eq hop hx hy hc, hz]
    exact Except.map_eq_error_iff.2 (word_of_not_fits hfits)

end

end Registers

/-- An instruction that cannot be applied leaves the machine that executes it as it is. -/
theorem Machine.execute_of_apply_error {n : Nat} {m : Machine n} {ins : Instruction} {fault : Fault}
    (halu : ins.op.isAlu = true) (h : m.state.registers.apply ins = .error fault) :
    m.execute ins = .error ⟨fault, m⟩ := by
  have heffect := Except.map_eq_error_iff.1 h
  simp only [execute, State.execute_of_isAlu m.state halu, heffect]
  rfl

/-- Where an ALU instruction within the file overflows. Its operands have values, and but for a
division by zero it has an exact result of them. If the result fits a word, the destination gets it
and nothing else changes; otherwise the instruction overflows, and changes nothing. Bounded opcodes
never overflow, a division only if the least word is divided by -1, and a literal that fits no word
makes `bani` overflow on a negative register, `bori` on any other. -/
theorem apply_overflows_exactly {n : Nat} {r : Registers n} {ins : Instruction}
    {operation : Operation} (hop : ins.op.operation? = some operation) (hwithin : ins.Within n) :
    ∃ x y, r.operand ins.op.signature.a ins.a = .ok x ∧
      r.operand ins.op.signature.b ins.b = .ok y ∧
      (operation = .div → y = 0 → r.apply ins = .error .divisionByZero) ∧
      ((operation = .div → y ≠ 0) → ∃ z, operation.Yields x y z ∧
        (Word.Fits z → ∃ r', r.apply ins = .ok r' ∧ r'.read ins.c = .ok z ∧
          ∀ reg, reg ≠ ins.c → r'.read reg = r.read reg) ∧
        (r.apply ins = .error .overflow ↔ ¬ Word.Fits z)) ∧
      (ins.op ∈ Opcode.bounded → ∃ r', r.apply ins = .ok r') ∧
      (ins.op = .divr ∨ ins.op = .divi → y ≠ 0 →
        (r.apply ins = .error .overflow ↔ x = -2 ^ 63 ∧ y = -1)) ∧
      (ins.op = .bani → (r.apply ins = .error .overflow ↔ x < 0 ∧ ¬ Word.Fits ins.b)) ∧
      (ins.op = .bori → (r.apply ins = .error .overflow ↔ 0 ≤ x ∧ ¬ Word.Fits ins.b)) ∧
      ∀ m : Machine n, m.state.registers = r → r.apply ins = .error .overflow →
        m.execute ins = .error ⟨.overflow, m⟩ := by
  obtain ⟨op, a, b, c⟩ := ins
  have halu := Opcode.isAlu_of_operation? hop
  obtain ⟨x, hx⟩ := Registers.exists_operand (r := r)
    fun ha => hwithin.source (Instruction.mem_sources_a ha)
  obtain ⟨y, hy⟩ := Registers.exists_operand (r := r)
    fun hb => hwithin.source (Instruction.mem_sources_b hb)
  obtain ⟨i, hi⟩ := Registers.exists_index (hwithin.destination halu)
  have hc := Registers.index_eq_ok_iff.1 hi
  have hover : ∀ {z}, operation.eval x y = .ok z →
      (r.apply ⟨op, a, b, c⟩ = .error .overflow ↔ ¬ Word.Fits z) :=
    fun hz => Registers.apply_eq_overflow_iff hop hx hy hc hz
  refine ⟨x, y, hx, hy, ?_, ?_, ?_, ?_, ?_, ?_, ?_⟩
  · rintro rfl rfl
    rw [Registers.apply_eq hop hx hy hc]
    rfl
  · intro hdiv
    obtain ⟨z, hz⟩ := Operation.exists_eval (x := x) hdiv
    exact ⟨z, Operation.yields_of_eval hz, Registers.apply_of_fits hop hx hy hc hz, hover hz⟩
  · intro hmem
    obtain ⟨z, hz, hfits⟩ := Opcode.exists_fits_of_mem_bounded hmem hop
      (Registers.fits_of_operand hx) (Registers.fits_of_operand hy)
    obtain ⟨r', hr', -⟩ := Registers.apply_of_fits hop hx hy hc hz hfits
    exact ⟨r', hr'⟩
  · intro hdiv hy0
    have hx' : Word.Fits x := Registers.fits_of_operand hx (by rcases hdiv with rfl | rfl <;> rfl)
    obtain rfl : operation = .div := by rcases hdiv with rfl | rfl <;> cases hop <;> rfl
    rw [hover (if_neg hy0), Word.fits_tdiv_iff hx' hy0, not_not]
  · rintro rfl
    cases hop
    cases hy
    rw [hover rfl, Bits.fits_and_iff (Registers.fits_of_operand hx rfl), not_or, Int.not_le]
  · rintro rfl
    cases hop
    cases hy
    rw [hover rfl, Bits.fits_or_iff (Registers.fits_of_operand hx rfl), not_or, Int.not_lt]
  · rintro m rfl herror
    exact Machine.execute_of_apply_error halu herror

/-- A literal of 65 bits overflows against the negative register 0, and not against register 1. -/
theorem apply_overflows_exactly_long_literal :
    let r : Registers 2 := #v[-1, 7]
    let against (reg : Int) : Instruction := ⟨.bani, reg, 2 ^ 64 + 5, 0⟩
    (against 0).Within 2 ∧ r.apply (against 0) = .error .overflow ∧
      (against 1).Within 2 ∧ r.apply (against 1) ≠ .error .overflow := by
  intro r against
  have h0 : (against 0).Within 2 := by unfold Instruction.Within; decide
  have h1 : (against 1).Within 2 := by unfold Instruction.Within; decide
  obtain ⟨x, y, hx, -, -, -, -, -, hbani, -⟩ := apply_overflows_exactly (r := r) rfl h0
  obtain ⟨x', y', hx', -, -, -, -, -, hbani', -⟩ := apply_overflows_exactly (r := r) rfl h1
  cases hx
  cases hx'
  refine ⟨h0, (hbani rfl).2 (by decide), h1, ?_⟩
  rw [Ne, hbani' rfl]
  decide

end WordMachine

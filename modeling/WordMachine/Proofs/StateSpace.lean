import Mathlib.Data.Fintype.BigOperators
import WordMachine.Proofs.Run
import WordMachine.Proofs.Step

/-!
# The states a machine can be in

Along a run the operands at each address, and with them the length of the program, stay what they
were. A state that is not halted is then an address, an opcode for each instruction and a word for
each register: `State.count` of them. A run through different states takes no more steps than that.
-/

namespace WordMachine

instance : Fintype Opcode := ⟨⟨Opcode.all, by decide⟩, Opcode.mem_all⟩

theorem Opcode.card_eq : Fintype.card Opcode = Opcode.all.length := rfl

namespace State

variable {n : Nat} {w : Wiring n}

theorem Run.operands {k : Nat} {s t : State n} {o : List Int} (h : Run w k s o t) :
    t.program.operands = s.program.operands := by
  induction h with
  | refl => rfl
  | step _ hs _ ih => rw [ih, step_operands hs]

/-! ## Counting states -/

/-- What tells states apart that run programs with the same operands: the address, the opcodes and
the registers. -/
abbrev Key (n size : Nat) := Fin size × (Fin size → Opcode) × (Fin n → Fin (2 ^ 64))

theorem card_key (n size : Nat) :
    Fintype.card (Key n size) = size * Opcode.all.length ^ size * 2 ^ (64 * n) := by
  simp only [Key, Fintype.card_prod, Fintype.card_fun, Fintype.card_fin, Opcode.card_eq]
  rw [← Nat.pow_mul, Nat.mul_assoc]

/-- A state like `s`: its program has the same operands, and it is not halted. -/
def Like (s t : State n) : Prop :=
  t.program.operands = s.program.operands ∧ t.halted = false

theorem Like.size_eq {s t : State n} (h : Like s t) : t.program.size = s.program.size :=
  Program.size_of_operands h.1

theorem Like.pc_bounds {s t : State n} (h : Like s t) : 0 ≤ t.pc ∧ t.pc < s.program.size := by
  have := h.2
  rw [halted, Bool.not_eq_false', Program.hasAddress_iff, h.size_eq] at this
  exact this

def Like.opcode {s t : State n} (h : Like s t) (i : Fin s.program.size) : Opcode :=
  have hi : i.val < t.program.size := by have := h.size_eq; omega
  t.program[i.val].op

def Like.key {s t : State n} (h : Like s t) : Key n s.program.size :=
  (⟨t.pc.toNat, by have := h.pc_bounds; omega⟩, h.opcode,
    fun i => (t.registers.get i).toBitVec.toFin)

theorem Like.eq_of_key {s t u : State n} (ht : Like s t) (hu : Like s u) (h : ht.key = hu.key) :
    t = u := by
  simp only [key, Prod.mk.injEq, Fin.mk.injEq] at h
  obtain ⟨hpc, hop, hreg⟩ := h
  have hpc' : t.pc = u.pc := by
    have := ht.pc_bounds
    have := hu.pc_bounds
    omega
  have hprogram : t.program = u.program := by
    apply Program.ext_of_operands (ht.1.trans hu.1.symm)
    intro i hi _
    exact congrFun hop ⟨i, by rw [← ht.size_eq]; exact hi⟩
  have hregisters : t.registers = u.registers := by
    apply Vector.ext
    intro i hi
    have := congrFun hreg ⟨i, hi⟩
    exact Int64.toBitVec_inj.1 (BitVec.toFin_inj.1 this)
  cases t
  cases u
  simp_all

/-- The number of states as a product: addresses, opcodes, words. -/
theorem count_eq (s : State n) :
    s.count = s.program.size * Opcode.all.length ^ s.program.size * 2 ^ (64 * n) := by
  have hopcodes : ∀ (code : List Instruction) (k : Nat),
      code.foldl (fun k _ => k * Opcode.all.length) k = k * Opcode.all.length ^ code.length := by
    intro code
    induction code with
    | nil => simp
    | cons ins code ih =>
      intro k
      rw [List.foldl_cons, ih, List.length_cons, Nat.pow_succ', Nat.mul_assoc]
  simp only [count, hopcodes, Nat.one_mul, Array.length_toList, Nat.one_shiftLeft]

/-- Pigeonhole: there are no more than `s.count` different states like `s`. -/
theorem le_count_of_injective {s : State n} {k : Nat} (f : Fin k → State n)
    (hlike : ∀ i, Like s (f i)) (hinj : Function.Injective f) : k ≤ s.count := by
  have hkey : Function.Injective fun i => (hlike i).key :=
    fun i j h => hinj ((hlike i).eq_of_key (hlike j) h)
  have hcard := Fintype.card_le_of_injective _ hkey
  rwa [Fintype.card_fin, card_key, ← count_eq] at hcard

/-- The states before the last of the first `k` steps from `s` are all different. -/
def Distinct (w : Wiring n) (s : State n) (k : Nat) : Prop :=
  ∀ ⦃i j : Nat⦄ ⦃p q : List Int⦄ ⦃t u : State n⦄, i < j → j < k → Run w i s p t → Run w j s q u →
    t ≠ u

/-- A run whose states are different until its last takes at most `count` steps. -/
theorem Run.le_count {k : Nat} {s t : State n} {o : List Int} (h : Run w k s o t)
    (hd : Distinct w s k) : k ≤ s.count := by
  have hpass : ∀ i : Fin k, ∃ p u, Run w i.val s p u := fun i => by
    obtain ⟨d, hd⟩ := Nat.exists_eq_add_of_le (Nat.le_of_lt i.isLt)
    rw [hd] at h
    obtain ⟨p, _, u, -, hp, -⟩ := h.split
    exact ⟨p, u, hp⟩
  choose p f hf using hpass
  refine le_count_of_injective f (fun i => ⟨(hf i).operands, (hf i).halted_eq_false i.isLt h⟩) ?_
  intro i j hij
  rcases Nat.lt_trichotomy i.val j.val with hlt | heq | hlt
  · exact absurd hij (hd hlt j.isLt (hf i) (hf j))
  · exact Fin.ext heq
  · exact absurd hij.symm (hd hlt i.isLt (hf j) (hf i))

/-- A run of more steps than there are states meets one twice. -/
theorem Run.exists_repeat {k : Nat} {s t : State n} {o : List Int} (h : Run w k s o t)
    (hk : s.count < k) : ∃ i j p q u, i < j ∧ Run w i s p u ∧ Run w j s q u := by
  by_contra hnone
  refine Nat.not_le_of_lt hk (h.le_count ?_)
  rintro i j p q t u hij - hi hj rfl
  exact hnone ⟨i, j, p, q, t, hij, hi, hj⟩

end State

end WordMachine

import Mathlib.Algebra.Group.Int.Defs
import WordMachine.Alu
import WordMachine.Proofs.Fallible

/-!
# What an ALU instruction does

`Registers.effect` taken apart: which register is written, with which word, and what can go wrong.
An instruction all of whose register references lie in the file fails only in its arithmetic, and
its effect depends on no register it does not read.
-/

namespace WordMachine

/-- A fault of the arithmetic, not of the addressing: a value that fits no word, or a division by
zero. -/
def Fault.Arithmetic (fault : Fault) : Prop := fault = .overflow ∨ fault = .divisionByZero

/-- Every register that the instruction refers to is one of a file of `n`. -/
def Instruction.Within (n : Nat) (ins : Instruction) : Prop :=
  ∀ reg ∈ ins.references, 0 ≤ reg ∧ reg < n

namespace Instruction

variable {n : Nat} {ins : Instruction}

theorem mem_sources_a (h : ins.op.signature.a = .register) : ins.a ∈ ins.sources := by
  simp [sources, h]

theorem mem_sources_b (h : ins.op.signature.b = .register) : ins.b ∈ ins.sources := by
  simp [sources, h]

theorem Within.source (h : ins.Within n) {reg : Int} (hreg : reg ∈ ins.sources) :
    0 ≤ reg ∧ reg < n :=
  h reg (List.mem_append_left _ hreg)

theorem Within.destination (h : ins.Within n) (halu : ins.op.isAlu = true) :
    0 ≤ ins.c ∧ ins.c < n :=
  h ins.c (List.mem_append_right _ (by simp [halu]))

end Instruction

theorem Opcode.isAlu_of_operation? {op : Opcode} {operation : Operation}
    (h : op.operation? = some operation) : op.isAlu = true := by
  cases op with
  | tgl => cases h
  | out => cases h
  | _ => rfl

theorem Opcode.exists_operation? {op : Opcode} (htgl : op ≠ .tgl) (hout : op ≠ .out) :
    ∃ operation, op.operation? = some operation := by
  cases op with
  | tgl => exact absurd rfl htgl
  | out => exact absurd rfl hout
  | _ => exact ⟨_, rfl⟩

theorem Operation.eval_error {operation : Operation} {x y : Int} {fault : Fault}
    (h : operation.eval x y = .error fault) : operation = .div ∧ fault = .divisionByZero := by
  cases operation with
  | div =>
    simp only [eval] at h
    split at h <;> cases h
    exact ⟨rfl, rfl⟩
  | _ => cases h

namespace Registers

variable {n : Nat} {r : Registers n}

/-! ## Indices, words and operands -/

theorem index_eq_ok_iff {reg : Int} {i : Fin n} : index n reg = .ok i ↔ reg = i := by
  rw [← index?_eq_some_iff, index]
  cases index? n reg <;> simp

theorem index_eq_error_iff {reg : Int} {fault : Fault} : index n reg = .error fault ↔
    ¬ (0 ≤ reg ∧ reg < n) ∧ fault = (Fault.registerOutside reg n).raised := by
  unfold index index?
  by_cases h : 0 ≤ reg ∧ reg < n
  · simp [h]
  · simp [h, eq_comm]

theorem exists_index {reg : Int} (h : 0 ≤ reg ∧ reg < n) : ∃ i, index n reg = .ok i :=
  ⟨⟨reg.toNat, by omega⟩, index_eq_ok_iff.2 (by simp; omega)⟩

theorem toInt_of_word {v : Int} {x : Word} (h : word v = .ok x) : x.toInt = v := by
  unfold word at h
  split at h
  · next hx =>
    cases h
    exact Word.toInt_of_ofInt? hx
  · cases h

theorem word_error {v : Int} {fault : Fault} (h : word v = .error fault) : fault = .overflow := by
  unfold word at h
  split at h <;> cases h
  rfl

theorem read_eq_ok_iff {reg v : Int} :
    r.read reg = .ok v ↔ ∃ i : Fin n, reg = i ∧ (r.get i).toInt = v := by
  simp only [read, Except.map_eq_ok_iff, index_eq_ok_iff]

theorem exists_read {reg : Int} (h : 0 ≤ reg ∧ reg < n) : ∃ v, r.read reg = .ok v := by
  obtain ⟨i, hi⟩ := exists_index h
  exact ⟨_, Except.map_eq_ok_iff.2 ⟨i, hi, rfl⟩⟩

theorem exists_operand {kind : Addressing} {x : Int}
    (h : kind = .register → 0 ≤ x ∧ x < n) : ∃ v, r.operand kind x = .ok v := by
  cases kind with
  | register => exact exists_read (h rfl)
  | immediate => exact ⟨x, rfl⟩
  | unused => exact ⟨0, rfl⟩

/-- Only an operand that names a register can fail. -/
theorem operand_error {kind : Addressing} {x : Int} {fault : Fault}
    (h : r.operand kind x = .error fault) : kind = .register ∧ index n x = .error fault := by
  cases kind with
  | register => exact ⟨rfl, Except.map_eq_error_iff.1 h⟩
  | immediate => cases h
  | unused => cases h

/-! ## Files from values -/

theorem exists_ofList {values : List Int} (hne : values ≠ [])
    (hfit : ∀ v ∈ values, -2 ^ 63 ≤ v ∧ v < 2 ^ 63) :
    ∃ r : Registers values.length, ofList values = .ok r ∧ r.values = values := by
  have hempty : ¬ values.isEmpty = true := by simpa using hne
  have hall : (values.all fun v => (Word.ofInt? v).isSome) = true :=
    List.all_eq_true.2 fun v hv => Word.ofInt?_isSome_iff.2 (hfit v hv)
  refine ⟨_, by rw [ofList, if_neg hempty, if_pos hall], ?_⟩
  have hmap : ∀ v ∈ values, ((Int64.toInt ·) ∘ Int64.ofInt) v = v := fun v hv =>
    Int64.toInt_ofInt_of_le (hfit v hv).1 (hfit v hv).2
  simpa [Registers.values] using (List.map_congr_left hmap).trans (List.map_id' values)

theorem fits_of_ofList {values : List Int} {r : Registers values.length}
    (h : ofList values = .ok r) : values ≠ [] ∧ ∀ v ∈ values, -2 ^ 63 ≤ v ∧ v < 2 ^ 63 := by
  unfold ofList at h
  split at h
  · cases h
  · next hempty =>
    split at h
    · next hfits =>
      refine ⟨by simpa using hempty, fun v hv => ?_⟩
      exact Word.ofInt?_isSome_iff.1 (List.all_eq_true.1 hfits v hv)
    · cases h

/-! ## Effects -/

/-- An instruction takes effect just if its operands have values, the operation has a result of
them, and the destination can hold it. -/
theorem effect_eq_ok_iff {ins : Instruction} {i : Fin n} {v : Word} :
    r.effect ins = .ok (i, v) ↔ ∃ operation x y z, ins.op.operation? = some operation ∧
      r.operand ins.op.signature.a ins.a = .ok x ∧ r.operand ins.op.signature.b ins.b = .ok y ∧
      operation.eval x y = .ok z ∧ ins.c = i ∧ word z = .ok v := by
  unfold effect
  split
  · next h => simp [h]
  · next operation h =>
    simp only [Except.bind_eq_ok_iff, h, Option.some.injEq, ← index_eq_ok_iff (n := n)]
    constructor
    · rintro ⟨x, hx, y, hy, z, hz, j, hj, u, hu, hpair⟩
      cases hpair
      exact ⟨operation, x, y, z, rfl, hx, hy, hz, hj, hu⟩
    · rintro ⟨_, x, y, z, rfl, hx, hy, hz, hi, hv⟩
      exact ⟨x, hx, y, hy, z, hz, i, hi, v, hv, rfl⟩

/-- The destination of an effect, as the instruction names it. -/
theorem effect_destination {ins : Instruction} {i : Fin n} {v : Word}
    (h : r.effect ins = .ok (i, v)) : ins.c = i ∧ ins.op.isAlu = true := by
  obtain ⟨_, _, _, _, hop, -, -, -, hc, -⟩ := effect_eq_ok_iff.1 h
  exact ⟨hc, Opcode.isAlu_of_operation? hop⟩

/-- What an instruction with an operation can fail with: a register it refers to that the file does
not have, a division by zero, or a result that fits no word. -/
theorem effect_error_cases {ins : Instruction} {operation : Operation} {fault : Fault}
    (hop : ins.op.operation? = some operation) (h : r.effect ins = .error fault) :
    (∃ reg ∈ ins.references, index n reg = .error fault) ∨
      operation = .div ∧ fault = .divisionByZero ∨ fault = .overflow := by
  have halu := Opcode.isAlu_of_operation? hop
  have hc : ins.c ∈ ins.references := List.mem_append_right _ (by simp [halu])
  simp only [effect, hop, Except.bind_eq_error_iff] at h
  rcases h with h | ⟨x, -, h | ⟨y, -, h | ⟨z, -, h | ⟨i, -, h | ⟨v, -, h⟩⟩⟩⟩⟩
  · obtain ⟨hkind, hindex⟩ := operand_error h
    exact .inl ⟨ins.a, List.mem_append_left _ (Instruction.mem_sources_a hkind), hindex⟩
  · obtain ⟨hkind, hindex⟩ := operand_error h
    exact .inl ⟨ins.b, List.mem_append_left _ (Instruction.mem_sources_b hkind), hindex⟩
  · exact .inr (.inl (Operation.eval_error h))
  · exact .inl ⟨ins.c, hc, h⟩
  · exact .inr (.inr (word_error h))
  · cases h

/-- An instruction within the file fails only in its arithmetic. -/
theorem effect_error {ins : Instruction} {fault : Fault} (hwithin : ins.Within n)
    (htgl : ins.op ≠ .tgl) (hout : ins.op ≠ .out) (h : r.effect ins = .error fault) :
    fault.Arithmetic := by
  obtain ⟨operation, hop⟩ := Opcode.exists_operation? htgl hout
  rcases effect_error_cases hop h with ⟨reg, hreg, hindex⟩ | ⟨-, rfl⟩ | rfl
  · exact absurd (hwithin reg hreg) (index_eq_error_iff.1 hindex).1
  · exact .inr rfl
  · exact .inl rfl

/-! ## Registers that are not read -/

theorem assign_self (r : Registers n) (g : Fin n) (v : Word) : (r.assign g v).get g = v :=
  Vector.getElem_set_self g.isLt

theorem assign_of_ne (r : Registers n) {g i : Fin n} (v : Word) (h : i ≠ g) :
    (r.assign g v).get i = r.get i :=
  Vector.getElem_set_ne g.isLt i.isLt fun heq => h (Fin.ext heq.symm)

theorem assign_assign_of_ne (r : Registers n) {g i : Fin n} (v x : Word) (h : i ≠ g) :
    (r.assign g v).assign i x = (r.assign i x).assign g v :=
  Vector.set_comm v x fun heq => h (Fin.ext heq.symm)

theorem read_assign_self (r : Registers n) (g : Fin n) (v : Word) :
    (r.assign g v).read g = .ok v.toInt :=
  read_eq_ok_iff.2 ⟨g, rfl, by rw [assign_self]⟩

theorem read_assign_of_ne (r : Registers n) {g : Fin n} (v : Word) {reg : Int} (h : reg ≠ g) :
    (r.assign g v).read reg = r.read reg := by
  unfold read
  cases hi : index n reg with
  | error fault => simp only [Except.map]
  | ok i =>
    have hne : i ≠ g := fun heq => h (by rw [index_eq_ok_iff.1 hi, heq])
    simp only [Except.map, assign_of_ne r v hne]

theorem operand_assign_of_ne (r : Registers n) {g : Fin n} (v : Word) {kind : Addressing} {x : Int}
    (h : kind = .register → x ≠ g) : (r.assign g v).operand kind x = r.operand kind x := by
  cases kind with
  | register => exact read_assign_of_ne r v (h rfl)
  | immediate => rfl
  | unused => rfl

theorem effect_assign_of_not_mem (r : Registers n) {g : Fin n} (v : Word) {ins : Instruction}
    (h : (g : Int) ∉ ins.sources) : (r.assign g v).effect ins = r.effect ins := by
  have ha : (r.assign g v).operand ins.op.signature.a ins.a = r.operand ins.op.signature.a ins.a :=
    operand_assign_of_ne r v fun hkind heq => h (heq ▸ Instruction.mem_sources_a hkind)
  have hb : (r.assign g v).operand ins.op.signature.b ins.b = r.operand ins.op.signature.b ins.b :=
    operand_assign_of_ne r v fun hkind heq => h (heq ▸ Instruction.mem_sources_b hkind)
  simp only [effect, ha, hb]

end Registers

end WordMachine

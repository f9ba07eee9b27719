import WordMachine.Proofs.Effect
import WordMachine.Sample

/-!
# The candidates of a sample

An opcode that is tested on a sample fails for a register out of range or for a result that fits no
word, and then explains nothing. The one fault that is not about the opcode is that of an operand
which names no register of the sample and is too long to be written. Every operand is a register
index to some base opcode, so the candidates of such a sample cannot be told, whatever opcode was
meant; those of any other sample can.
-/

namespace WordMachine

/-- The registers before the instruction make a register file. -/
structure Sample.WellFormed (s : Sample) : Prop where
  ne_nil : s.before ≠ []
  fits : ∀ v ∈ s.before, -2 ^ 63 ≤ v ∧ v < 2 ^ 63

/-- Every operand that names no register of the sample can be written. -/
def Sample.Legible (s : Sample) : Prop :=
  ∀ x ∈ [s.row.a, s.row.b, s.row.c],
    (0 ≤ x ∧ x < s.before.length) ∨ Text.digitCount x ≤ Text.maxDigits

theorem Row.Writable.legible {s : Sample} (h : s.row.Writable) : s.Legible :=
  fun x hx => .inr (h x (List.mem_cons_of_mem _ hx))

/-! ## Base opcodes -/

theorem Opcode.exists_operation_of_mem_base {op : Opcode} (h : op ∈ base) :
    ∃ operation, op.operation? = some operation ∧ operation ≠ .div := by
  revert h
  cases op <;> decide

theorem Instruction.mem_operands_of_references {ins : Instruction} {reg : Int}
    (h : reg ∈ ins.references) : reg ∈ [ins.a, ins.b, ins.c] := by
  unfold references sources at h
  grind

namespace Registers

variable {n : Nat}

theorem index_eq_unwritable {reg : Int} (hout : ¬ (0 ≤ reg ∧ reg < n))
    (hlong : ¬ Text.digitCount reg ≤ Text.maxDigits) : index n reg = .error .unwritable := by
  refine index_eq_error_iff.2 ⟨hout, (Fault.raised_of_not_writable fun h => hlong ?_).symm⟩
  exact h reg List.mem_cons_self

end Registers

namespace Sample

variable {n : Nat} {before : Registers n} {row : Row} {after : List Int} {op : Opcode}

/-! ## One opcode -/

theorem explains_eq_true_iff : explains before row after op = .ok true ↔
    ∃ r, before.apply (row.instruction op) = .ok r ∧ r.values = after := by
  unfold explains
  cases before.apply (row.instruction op) with
  | ok r => simp
  | error fault =>
    dsimp only
    split <;> simp

/-- What escapes the test of a base opcode. -/
theorem explains_error {fault : Fault} (hop : op ∈ Opcode.base)
    (h : explains before row after op = .error fault) : fault = .unwritable ∧
      ∃ x ∈ [row.a, row.b, row.c], ¬ (0 ≤ x ∧ x < n) ∧
        ¬ Text.digitCount x ≤ Text.maxDigits := by
  unfold explains at h
  cases happly : before.apply (row.instruction op) with
  | ok r => simp [happly] at h
  | error cause =>
    obtain ⟨operation, hoperation, hdiv⟩ := Opcode.exists_operation_of_mem_base hop
    rw [happly] at h
    obtain ⟨reg, hreg, hindex⟩ | ⟨hdiv', -⟩ | rfl :=
      Registers.effect_error_cases hoperation (Except.map_eq_error_iff.1 happly)
    · obtain ⟨hout, rfl⟩ := Registers.index_eq_error_iff.1 hindex
      by_cases hwritable : (Fault.registerOutside reg n).Writable
      · rw [Fault.raised_of_writable hwritable] at h
        cases h
      · rw [Fault.raised_of_not_writable hwritable] at h
        refine ⟨(Except.error.inj h).symm, reg, Instruction.mem_operands_of_references hreg, hout,
          fun hcount => hwritable ?_⟩
        exact List.forall_mem_singleton.2 hcount
    · exact absurd hdiv' hdiv
    · cases h

theorem explains_of_unwritable (h : before.effect (row.instruction op) = .error .unwritable) :
    explains before row after op = .error .unwritable := by
  simp only [explains, Registers.apply, h]
  rfl

/-- An operand that can be neither looked up nor written is found by one of the base opcodes: `setr`
looks up A, `gtir` looks up B, and `seti` looks up C. -/
theorem exists_explains_error {x : Int} (hx : x ∈ [row.a, row.b, row.c])
    (hout : ¬ (0 ≤ x ∧ x < n)) (hlong : ¬ Text.digitCount x ≤ Text.maxDigits) :
    ∃ op ∈ Opcode.base, explains before row after op = .error .unwritable := by
  have hindex := Registers.index_eq_unwritable hout hlong
  simp only [List.mem_cons, List.not_mem_nil, or_false] at hx
  rcases hx with rfl | rfl | rfl
  · refine ⟨.setr, by decide, explains_of_unwritable ?_⟩
    show (before.read row.a >>= _) = _
    rw [Registers.read, hindex]
    rfl
  · refine ⟨.gtir, by decide, explains_of_unwritable ?_⟩
    show (before.read row.b >>= _) = _
    rw [Registers.read, hindex]
    rfl
  · refine ⟨.seti, by decide, explains_of_unwritable ?_⟩
    show (Registers.index n row.c >>= _) = _
    rw [hindex]
    rfl

/-! ## All opcodes -/

variable {s : Sample}

theorem candidates_eq {before : Registers s.before.length}
    (h : Registers.ofList s.before = .ok before) :
    s.candidates = Opcode.base.filterM (explains before s.row s.after) := by
  rw [candidates, h]
  rfl

theorem exists_candidates (h : s.WellFormed) (hlegible : s.Legible) :
    ∃ ops, s.candidates = .ok ops := by
  obtain ⟨before, hbefore, -⟩ := Registers.exists_ofList h.ne_nil h.fits
  rw [candidates_eq hbefore]
  refine Except.exists_filterM_eq_ok fun op hop => ?_
  cases htest : explains before s.row s.after op with
  | ok keep => exact ⟨keep, rfl⟩
  | error fault =>
    obtain ⟨-, x, hx, hout, hlong⟩ := explains_error hop htest
    exact absurd (hlegible x hx) (not_or.2 ⟨hout, hlong⟩)

theorem candidates_of_not_legible (h : s.WellFormed) (hlegible : ¬ s.Legible) :
    s.candidates = .error .unwritable := by
  obtain ⟨before, hbefore, -⟩ := Registers.exists_ofList h.ne_nil h.fits
  simp only [Legible, Classical.not_forall, not_or, exists_prop] at hlegible
  obtain ⟨x, hx, hout, hlong⟩ := hlegible
  rw [candidates_eq hbefore]
  exact Except.filterM_eq_error (fun op hop fault htest => (explains_error hop htest).1)
    (exists_explains_error hx hout hlong)

theorem mem_candidates_iff {before : Registers s.before.length} {ops : List Opcode}
    (hbefore : Registers.ofList s.before = .ok before) (h : s.candidates = .ok ops) :
    op ∈ ops ↔ op ∈ Opcode.base ∧
      ∃ r, before.apply (s.row.instruction op) = .ok r ∧ r.values = s.after := by
  rw [candidates_eq hbefore] at h
  rw [Except.mem_iff_of_filterM_eq_ok h, explains_eq_true_iff]

end Sample

end WordMachine

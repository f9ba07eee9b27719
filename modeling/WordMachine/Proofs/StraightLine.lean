import WordMachine.Execution
import WordMachine.Proofs.Addressing
import WordMachine.Proofs.Decision

/-!
# Straight-line programs

With no register wired to the counter, a step moves it on by one, whatever it executes. So a run
goes from where it starts to the end of the program, or up to the first instruction that fails.

If the program has no `tgl`, such a run applies its ALU instructions to the registers, one after the
other. The invariant is what applying those that are still to come gives: a step does not change it,
and at the end of the program it is the registers.
-/

namespace WordMachine

variable {n : Nat} {w : Wiring n}

/-- Applies instructions in order, up to the first that fails. -/
def Registers.applyAll (r : Registers n) (code : List Instruction) : Except Fault (Registers n) :=
  code.foldlM apply r

theorem Registers.applyAll_cons (r : Registers n) (ins : Instruction) (code : List Instruction) :
    r.applyAll (ins :: code) = (r.apply ins).bind (applyAll · code) := rfl

/-- The rest of a program from an instruction on. -/
theorem Program.drop_of_get {p : Program} {address : Int} {ins : Instruction}
    (hin : p.hasAddress address = true) (hget : p.get address = .ok ins) :
    p.toList.drop address.toNat = ins :: p.toList.drop (address.toNat + 1) := by
  rw [get_eq_ok_iff, at?_of_hasAddress hin] at hget
  obtain ⟨hlt, rfl⟩ := Array.getElem?_eq_some_iff.1 hget
  rw [List.drop_eq_getElem_cons (by simpa using hlt), Array.getElem_toList]

namespace State

/-! ## The counter -/

theorem halted_eq_false_iff {s : State n} :
    s.halted = false ↔ 0 ≤ s.pc ∧ s.pc < s.program.size := by
  rw [halted, Bool.not_eq_false', Program.hasAddress_iff]

theorem size_le_of_halted {s : State n} (hpc : 0 ≤ s.pc) (h : s.halted = true) :
    s.program.size ≤ s.pc := by
  by_contra hlt
  rw [halted_eq_false_iff.2 (by omega)] at h
  cases h

/-- The instruction that is fetched is the one at the counter. -/
theorem exists_fetch_of_unwired {s : State n} (hip : w.ip = none) (hh : s.halted = false) :
    ∃ ins, s.program.get s.pc = .ok ins ∧ s.fetch w = .ok (s, ins) := by
  obtain ⟨ins, hget⟩ := Program.exists_get (Program.hasAddress_iff.2 (halted_eq_false_iff.1 hh))
  exact ⟨ins, hget, fetch_eq_ok_iff.2 ⟨by simp only [publish, hip], hget⟩⟩

/-- A step that fails after its fetch fails to execute what it fetched. -/
theorem execute_of_step_error {s t : State n} {ins : Instruction} {failure : Failure (State n)}
    (hfetch : s.fetch w = .ok (t, ins)) (h : s.step w = .error failure) :
    t.execute w ins = .error failure := by
  simp only [step, hfetch] at h
  exact perform_eq_error_iff.1 h

theorem step_pc_of_unwired {s : State n} {next : Step n} (hip : w.ip = none)
    (h : s.step w = .ok next) : next.next.pc = s.pc + 1 := by
  obtain ⟨t, ins, u, event, hfetch, hexecute, rfl⟩ := step_eq_ok_iff.1 h
  obtain ⟨hpublish, -⟩ := fetch_eq_ok_iff.1 hfetch
  simp only [advance, hip]
  rw [execute_pc hexecute, publish_pc hpublish]

theorem Run.pc_of_unwired {k : Nat} {s t : State n} {o : List Int} (hip : w.ip = none)
    (h : Run w k s o t) : t.pc = s.pc + k := by
  induction h with
  | refl => simp
  | step _ hs _ ih =>
    rw [ih, step_pc_of_unwired hip hs]
    omega

/-- A run does not jump over the end of the program. -/
theorem Run.pc_le_of_unwired {k : Nat} {s t : State n} {o : List Int} (hip : w.ip = none)
    (hs : s.pc ≤ s.program.size) (h : Run w k s o t) : t.pc ≤ t.program.size := by
  induction h with
  | refl => exact hs
  | @step k s t next o hh hstep _ ih =>
    have hlt := (halted_eq_false_iff.1 hh).2
    have hsize := Program.size_of_operands (step_operands hstep)
    have hpc := step_pc_of_unwired hip hstep
    exact ih (by omega)

/-! ## The instructions to come -/

/-- What applying the ALU instructions from the counter on to the registers gives. -/
def applyRest (s : State n) : Except Fault (Registers n) :=
  s.registers.applyAll ((s.program.toList.drop s.pc.toNat).filter (·.op.isAlu))

theorem applyRest_of_get {s : State n} {ins : Instruction} (hh : s.halted = false)
    (hget : s.program.get s.pc = .ok ins) :
    s.applyRest =
      if ins.op.isAlu = true then
        (s.registers.apply ins).bind fun r => applyRest ⟨s.program, r, s.pc + 1⟩
      else applyRest ⟨s.program, s.registers, s.pc + 1⟩ := by
  have hpc := halted_eq_false_iff.1 hh
  have hsucc : (s.pc + 1).toNat = s.pc.toNat + 1 := by omega
  simp only [applyRest, Program.drop_of_get (Program.hasAddress_iff.2 hpc) hget, hsucc,
    List.filter_cons]
  split
  · rw [Registers.applyAll_cons]
  · rfl

/-- At the end of the program nothing is left to apply. -/
theorem applyRest_of_halted {s : State n} (hpc : 0 ≤ s.pc) (h : s.halted = true) :
    s.applyRest = .ok s.registers := by
  have hdrop : s.program.toList.drop s.pc.toNat = [] := by
    have hend := size_le_of_halted hpc h
    exact List.drop_eq_nil_of_le (by rw [Array.length_toList]; omega)
  rw [applyRest, hdrop]
  rfl

theorem applyRest_step {s : State n} {next : Step n} (hip : w.ip = none)
    (hno : ∀ ins ∈ s.program, ins.op ≠ .tgl) (hh : s.halted = false)
    (h : s.step w = .ok next) : next.next.applyRest = s.applyRest := by
  obtain ⟨ins, hget, hfetch⟩ := exists_fetch_of_unwired hip hh
  obtain ⟨t, _, u, event, hfetch', hexecute, rfl⟩ := step_eq_ok_iff.1 h
  rw [hfetch] at hfetch'
  cases hfetch'
  simp only [advance, hip]
  rcases execute_cases hexecute with
    ⟨htgl, -⟩ | ⟨hout, v, -, rfl, -⟩ | ⟨htgl, hout, i, v, heffect, rfl, -⟩
  · exact absurd htgl (hno ins (Program.mem_of_get hget))
  · rw [applyRest_of_get hh hget, if_neg (by rw [hout]; decide)]
  · obtain ⟨-, halu⟩ := Registers.effect_destination heffect
    rw [applyRest_of_get hh hget, if_pos halu, Registers.apply, heffect]
    rfl

theorem Run.program_eq {k : Nat} {s t : State n} {o : List Int}
    (hno : ∀ ins ∈ s.program, ins.op ≠ .tgl) (h : Run w k s o t) : t.program = s.program := by
  induction h with
  | refl => rfl
  | step _ hs _ ih =>
    have hprogram := step_program hno hs
    rw [ih (by rwa [hprogram]), hprogram]

theorem Run.applyRest_eq {k : Nat} {s t : State n} {o : List Int} (hip : w.ip = none)
    (hno : ∀ ins ∈ s.program, ins.op ≠ .tgl) (h : Run w k s o t) : t.applyRest = s.applyRest := by
  induction h with
  | refl => rfl
  | step hh hs _ ih =>
    rw [ih (by rwa [step_program hno hs]), applyRest_step hip hno hh hs]

/-- A step that fails does so in applying the next instruction. -/
theorem applyRest_of_step_error {s : State n} {failure : Failure (State n)} (hip : w.ip = none)
    (hno : ∀ ins ∈ s.program, ins.op ≠ .tgl)
    (hout : ∀ ins ∈ s.program, ins.op = .out → ins.Within n) (hh : s.halted = false)
    (h : s.step w = .error failure) : s.applyRest = .error failure.fault := by
  obtain ⟨ins, hget, hfetch⟩ := exists_fetch_of_unwired hip hh
  have hmem := Program.mem_of_get hget
  obtain ⟨-, ⟨hop, hread⟩ | ⟨htgl, hne, heffect⟩⟩ :=
    execute_error_cases (execute_of_step_error hfetch h)
  · -- `out` emits a register of the file, which cannot fail.
    have hop := hop.resolve_left (hno ins hmem)
    have hsource := (hout ins hmem hop).source (Instruction.mem_sources_a (by rw [hop]; rfl))
    obtain ⟨v, hv⟩ := Registers.exists_read (r := s.registers) hsource
    rw [hv] at hread
    cases hread
  · obtain ⟨_, hoperation⟩ := Opcode.exists_operation? htgl hne
    rw [applyRest_of_get hh hget, if_pos (Opcode.isAlu_of_operation? hoperation), Registers.apply,
      heffect]
    rfl

end State

/-! ## Whole programs -/

namespace Machine

variable {m : Machine n}

/-- A run either reaches the end of the program or fails before. -/
theorem complete_cases_of_unwired (hip : m.wiring.ip = none)
    (hpc : 0 ≤ m.state.pc ∧ m.state.pc ≤ m.state.program.size) :
    (∃ k o t, m.state.Run m.wiring k o t ∧ t.pc = m.state.program.size ∧
      k = m.state.program.size - m.state.pc ∧ m.complete = .halted (m.moved k o t)) ∨
    ∃ k o t f, m.state.Run m.wiring k o t ∧ t.halted = false ∧ t.step m.wiring = .error f ∧
      k < m.state.program.size - m.state.pc ∧
      m.complete = .crashed ((m.moved k o t).failing f) := by
  have hends := ends_complete m
  cases hcomplete : m.complete with
  | halted last =>
    rw [hcomplete] at hends
    obtain ⟨k, o, t, hrun, ht, rfl⟩ := ends_halted_iff.1 hends
    have hk := hrun.pc_of_unwired hip
    have hle := hrun.pc_le_of_unwired hip hpc.2
    have hge := State.size_le_of_halted (by omega) ht
    have hsize := Program.size_of_operands hrun.operands
    exact .inl ⟨k, o, t, hrun, by omega, by omega, rfl⟩
  | crashed failure =>
    rw [hcomplete] at hends
    obtain ⟨k, o, t, hrun, ht, hstep⟩ := ends_crashed_iff.1 hends
    obtain ⟨f, hf, rfl⟩ := step_eq_error_iff.1 hstep
    have hk := hrun.pc_of_unwired hip
    have hlt := (State.halted_eq_false_iff.1 ht).2
    have hsize := Program.size_of_operands hrun.operands
    exact .inr ⟨k, o, t, f, hrun, ht, hf, by omega, rfl⟩
  | endless =>
    rw [hcomplete] at hends
    obtain ⟨o, t, hrun⟩ := ends_endless_iff.1 hends (m.state.program.size + 1)
    have hk := hrun.pc_of_unwired hip
    have hle := hrun.pc_le_of_unwired hip hpc.2
    have hsize := Program.size_of_operands hrun.operands
    omega

/-- Without `tgl`, a run that halts has applied the ALU instructions from its start on. -/
theorem applyRest_of_halted {last : Machine n} (hip : m.wiring.ip = none)
    (hpc : 0 ≤ m.state.pc) (hno : ∀ ins ∈ m.state.program, ins.op ≠ .tgl)
    (h : m.complete = .halted last) : m.state.applyRest = .ok last.state.registers := by
  obtain ⟨k, o, t, hrun, ht, rfl⟩ := ends_halted_iff.1 (complete_eq_iff.1 h)
  have hk := hrun.pc_of_unwired hip
  rw [← hrun.applyRest_eq hip hno, State.applyRest_of_halted (by omega) ht]
  rfl

theorem applyRest_of_crashed {failure : Failure (Machine n)} (hip : m.wiring.ip = none)
    (hno : ∀ ins ∈ m.state.program, ins.op ≠ .tgl)
    (hout : ∀ ins ∈ m.state.program, ins.op = .out → ins.Within n)
    (h : m.complete = .crashed failure) : m.state.applyRest = .error failure.fault := by
  obtain ⟨k, o, t, hrun, ht, hstep⟩ := ends_crashed_iff.1 (complete_eq_iff.1 h)
  obtain ⟨f, hf, rfl⟩ := step_eq_error_iff.1 hstep
  have hprogram := hrun.program_eq hno
  rw [← hrun.applyRest_eq hip hno,
    State.applyRest_of_step_error hip (by rwa [hprogram]) (by rwa [hprogram]) ht hf]
  rfl

end Machine

namespace Registers

end Registers

end WordMachine

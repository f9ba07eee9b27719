import WordMachine.Proofs.SelfModification
import WordMachine.Proofs.StraightLine

/-!
# One pass over the program

With no register wired to the counter, a run executes each address from its start on once and in
order, until the program ends or an instruction fails. A `tgl` may rewrite any instruction, but of
those only the ones ahead are still executed: each as the `tgl` instructions before it have left it.
No state can be met twice, so the analysis finds no cycle.
-/

namespace WordMachine

variable {n : Nat}

namespace Machine

variable {m : Machine n}

/-- A step that fetches an instruction executes it and moves on. -/
theorem step_of_fetch {t : Machine n} {ins : Instruction} (h : m.fetch = .ok (t, ins)) :
    m.step = (t.execute ins).map advance := by
  unfold fetch at h
  split at h
  · cases h
  · next s _ hfetch =>
    cases h
    rw [step_eq_map_attempt, attempt, State.step, hfetch]
    simp only [State.perform, execute]
    cases s.execute m.wiring ins with
    | error fault => rfl
    | ok result =>
      show Except.ok _ = Except.ok _
      simp only [after, record, advance]
      cases result.2.output? <;> rfl

theorem exists_fetch_of_unwired (hip : m.wiring.ip = none) (hgo : m.halted = false) :
    ∃ ins, m.state.program[m.state.pc.toNat]? = some ins ∧ m.fetch = .ok (m, ins) := by
  obtain ⟨ins, hget, hfetch⟩ := State.exists_fetch_of_unwired hip hgo
  have hin := Program.hasAddress_iff.2 (State.halted_eq_false_iff.1 hgo)
  rw [Program.get_eq_ok_iff, Program.at?_of_hasAddress hin] at hget
  exact ⟨ins, hget, by simp only [fetch, hfetch]⟩

/-! ## Step by step -/

/-- After `j` steps the run from `m` is at `before`, on the `j`-th address from the start on, and
fetches `ins`: the instruction of the program there, as the `tgl` instructions among these steps
have left it. -/
structure Arrives (m : Machine n) (j : Nat) (before : Machine n) (ins : Instruction) : Prop where
  run : m.runFor j = .ok before
  steps : before.steps = m.steps + j
  pc : before.state.pc = m.state.pc + j
  rewritten : ((m.state.targets m.wiring j).foldl (Program.toggle m.wiring.toggles)
    m.state.program)[(m.state.pc + j).toNat]? = some ins
  fetch : before.fetch = .ok (before, ins)

/-- The step after `j` others executes the instruction it arrives at, and moves on. -/
def Executes (m : Machine n) (j : Nat) : Prop :=
  ∃ before ins done, m.Arrives j before ins ∧ before.execute ins = .ok done ∧
    m.runFor (j + 1) = .ok done.advance

theorem exists_arrives {j : Nat} {before : Machine n} (hip : m.wiring.ip = none)
    (hbefore : m.runFor j = .ok before) (hgo : before.halted = false) :
    ∃ ins, m.Arrives j before ins := by
  obtain ⟨i, o, t, hrun, rfl, rfl | ⟨-, ht⟩⟩ := exists_run_of_runFor_ok hbefore
  · have hpc := hrun.pc_of_unwired hip
    obtain ⟨ins, hins, hfetch⟩ := exists_fetch_of_unwired (m := m.moved i o t) hip hgo
    rw [moved_state, hpc, hrun.program_eq_toggles] at hins
    exact ⟨ins, hbefore, rfl, hpc, hins, hfetch⟩
  · rw [moved_halted, ht] at hgo
    cases hgo

theorem executes_of_run {j k : Nat} {o : List Int} {t : State n} (hip : m.wiring.ip = none)
    (hrun : m.state.Run m.wiring k o t) (hj : j < k) : m.Executes j := by
  obtain ⟨before, after, hbefore, hgo, hstep, hafter⟩ := exists_step_of_run hrun hj
  obtain ⟨ins, harrives⟩ := exists_arrives hip hbefore hgo
  rw [step_of_fetch harrives.fetch] at hstep
  obtain ⟨done, hdone, rfl⟩ := Except.map_eq_ok_iff.1 hstep
  exact ⟨before, ins, done, harrives, hdone, hafter⟩

theorem execute_error_of_run {k : Nat} {o : List Int} {t : State n} {failure : Failure (Machine n)}
    (hip : m.wiring.ip = none) (hrun : m.state.Run m.wiring k o t) (hgo : t.halted = false)
    (hstep : (m.moved k o t).step = .error failure) :
    ∃ before ins, m.Arrives k before ins ∧ before.execute ins = .error failure := by
  obtain ⟨ins, harrives⟩ := exists_arrives hip (runFor_of_run hrun) hgo
  rw [step_of_fetch harrives.fetch] at hstep
  exact ⟨_, ins, harrives, Except.map_eq_error_iff.1 hstep⟩

/-- The analysis finds no cycle in a run that ends. -/
theorem analyze_ne_cycle (h : m.complete ≠ .endless) (start length : Nat) (lap : List Int)
    (last : Machine n) : m.analyze .any none ≠ .ok ⟨.cycle start length lap, last⟩ := by
  intro hcycle
  have hendless := completion?_eq_endless_iff.2 ⟨start, length, lap, last, hcycle⟩
  rw [completion?_analyze] at hendless
  exact h (Option.some.inj hendless)

end Machine

/-- Without a wired register, a run from an address of the program or its end halts at the end after
one step for each address from its start on, or fails before. It executes these addresses in order,
each as rewritten by the steps before, and the analysis reports no cycle. Without `tgl` the run
folds its ALU instructions over the registers. -/
theorem unwired_run_is_one_pass {setup : Setup} {program : Program} {registers : Registers n}
    {m : Machine n} (hload : Machine.load setup program registers = .ok m)
    (hip : setup.ip = none) (hpc : 0 ≤ setup.pc ∧ setup.pc ≤ program.size) :
    ((∃ last, m.complete = .halted last ∧
        last.steps = program.size - setup.pc ∧ last.state.pc = program.size ∧
        (∀ j < last.steps, m.Executes j) ∧
        ((∀ ins ∈ program, ins.op ≠ .tgl) →
          registers.applyAll ((program.toList.drop setup.pc.toNat).filter (·.op.isAlu)) =
            .ok last.state.registers)) ∨
      ∃ failure, m.complete = .crashed failure ∧
        failure.left.steps < program.size - setup.pc ∧
        (∀ j < failure.left.steps, m.Executes j) ∧
        (∃ before ins, m.Arrives failure.left.steps before ins ∧
          before.execute ins = .error failure) ∧
        ((∀ ins ∈ program, ins.op ≠ .tgl) →
          registers.applyAll ((program.toList.drop setup.pc.toNat).filter (·.op.isAlu)) =
            .error failure.fault)) ∧
    ∀ start length lap last,
      analyze setup .any none program registers ≠ .ok ⟨.cycle start length lap, last⟩ := by
  obtain ⟨hsteps, -⟩ := Machine.load_fresh hload
  obtain ⟨ip, hwired, hvalid, hm⟩ := Machine.load_eq_ok_iff.1 hload
  obtain rfl : ip = none := by simpa [hip] using hwired
  have hunwired : m.wiring.ip = none := by rw [hm]
  have hprogram : m.state.program = program := by rw [hm]
  have hfirst : m.state.pc = setup.pc := by rw [hm]
  have hstart : 0 ≤ m.state.pc ∧ m.state.pc ≤ m.state.program.size := by
    rwa [hprogram, hfirst]
  have hrest : m.state.applyRest =
      registers.applyAll ((program.toList.drop setup.pc.toNat).filter (·.op.isAlu)) := by
    rw [hm, State.applyRest]
  have hout : ∀ ins ∈ m.state.program, ins.op = .out → ins.Within n := by
    rw [hprogram]
    exact fun ins hins _ => Program.validate_eq_ok_iff.1 hvalid ins hins
  rw [← hrest, analyze_of_load hload]
  simp only [ne_eq, Except.mapError_eq_ok_iff]
  rw [← hprogram, ← hfirst]
  rcases Machine.complete_cases_of_unwired hunwired hstart with
    ⟨k, o, t, hrun, ht, hk, hcomplete⟩ | ⟨k, o, t, f, hrun, ht, hf, hk, hcomplete⟩
  · have hlast : (m.moved k o t).steps = k := by rw [Machine.moved_steps, hsteps, Nat.zero_add]
    refine ⟨.inl ⟨_, hcomplete, ?_, ht, ?_, ?_⟩, Machine.analyze_ne_cycle (by simp [hcomplete])⟩
    · rw [hlast, hk]
    · rw [hlast]
      exact fun j hj => Machine.executes_of_run hunwired hrun hj
    · exact fun hno => Machine.applyRest_of_halted hunwired hstart.1 hno hcomplete
  · have hleft : ((m.moved k o t).failing f).left.steps = k := by
      show m.steps + k = k
      rw [hsteps, Nat.zero_add]
    have hstep : (m.moved k o t).step = .error ((m.moved k o t).failing f) :=
      Machine.step_eq_error_iff.2 ⟨f, hf, rfl⟩
    refine ⟨.inr ⟨_, hcomplete, ?_, ?_, ?_, ?_⟩, Machine.analyze_ne_cycle (by simp [hcomplete])⟩
    · rwa [hleft]
    · rw [hleft]
      exact fun j hj => Machine.executes_of_run hunwired hrun hj
    · rw [hleft]
      exact Machine.execute_error_of_run hunwired hrun ht hstep
    · exact fun hno => Machine.applyRest_of_crashed hunwired hno hout hcomplete

/-- A division by zero before the start is not executed. The first `tgl` turns the addition of 1
into one of register 1 to itself, the second one toggles the first, to no effect. -/
theorem unwired_run_is_one_pass_doubling :
    let program : Program :=
      #[⟨.divi, 0, 0, 0⟩, ⟨.tgl, 0, 0, 0⟩, ⟨.addi, 1, 1, 1⟩, ⟨.tgl, 1, 0, 0⟩]
    let registers : Registers 2 := #v[1, -1]
    ∃ m last, Machine.load { pc := 1 } program registers = .ok m ∧
      m.complete = .halted last ∧ last.steps = 3 ∧ last.state.pc = 4 ∧
      last.state.registers = #v[1, -2] ∧ m.state.targets m.wiring 3 = [2, 1] ∧
      (∃ before, m.Arrives 1 before ⟨.addr, 1, 1, 1⟩) ∧
      ∀ start length lap last, analyze { pc := 1 } .any none program registers ≠
        .ok ⟨.cycle start length lap, last⟩ := by
  intro program registers
  let m : Machine 2 := ⟨⟨none, .standard, none⟩, ⟨program, registers, 1⟩, 0, #[]⟩
  let last : Machine 2 := ⟨⟨none, .standard, none⟩,
    ⟨#[⟨.divi, 0, 0, 0⟩, ⟨.out, 0, 0, 0⟩, ⟨.addr, 1, 1, 1⟩, ⟨.tgl, 1, 0, 0⟩], #v[1, -2], 4⟩, 3, #[]⟩
  have hload : Machine.load { pc := 1 } program registers = .ok m := rfl
  have hcomplete : m.complete = .halted last :=
    Machine.complete_eq_iff.2 ⟨3, by cbv, rfl⟩
  have htargets : m.state.targets m.wiring 3 = [2, 1] := by cbv
  obtain ⟨h | ⟨failure, hcrashed, -⟩, hcycle⟩ := unwired_run_is_one_pass hload rfl (by decide)
  · obtain ⟨last', hlast, hsteps, hpc, hexecutes, -⟩ := h
    obtain rfl : last = last' := by
      rw [hcomplete] at hlast
      exact Machine.Completion.halted.inj hlast
    obtain ⟨before, ins, -, harrives, -⟩ := hexecutes 1 (by decide)
    obtain rfl : (⟨.addr, 1, 1, 1⟩ : Instruction) = ins := by
      apply Option.some.inj
      rw [← harrives.rewritten]
      cbv
    exact ⟨m, last, hload, hcomplete, Int.ofNat_inj.1 hsteps, hpc, rfl, htargets,
      ⟨before, harrives⟩, hcycle⟩
  · rw [hcomplete] at hcrashed
    cases hcrashed

end WordMachine

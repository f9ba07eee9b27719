import WordMachine.Proofs.Decision
import WordMachine.Proofs.SelfModification
import WordMachine.Proofs.StraightLine

/-!
# What a failed run leaves

A step publishes the counter, and only then can it fail: addresses of a program of fewer than 2^63
instructions fit a word, and an instruction executes entirely or not at all. So a run that fails
leaves the machine after its last completed step, but for the register wired to the counter, which
holds the counter already.

Running on a register file shows this machine, running on a list of values keeps the list.
-/

namespace WordMachine

variable {n : Nat} {w : Wiring n}

/-! ## Failing steps -/

namespace State

/-- The registers with the counter published. -/
theorem publish_registers {s t : State n} (h : s.publish w = .ok t) (i : Fin n) :
    (t.registers.get i).toInt = if w.ip = some i then s.pc else (s.registers.get i).toInt := by
  obtain ⟨hip, rfl⟩ | ⟨ip, v, hip, hv, rfl⟩ := publish_cases h
  · simp [hip]
  · rw [hip]
    by_cases hi : i = ip
    · subst hi
      rw [if_pos rfl, Registers.assign_self, Registers.toInt_of_word hv]
    · rw [if_neg (fun heq => hi (Option.some.inj heq).symm), Registers.assign_of_ne _ _ hi]

theorem exists_publish {s : State n} (hsize : s.program.size < 2 ^ 63) (hh : s.halted = false) :
    ∃ t, s.publish w = .ok t := by
  have hpc : 0 ≤ s.pc ∧ s.pc < s.program.size := by
    rwa [halted, Bool.not_eq_false', Program.hasAddress_iff] at hh
  obtain ⟨v, hv⟩ : ∃ v, Word.ofInt? s.pc = some v :=
    Option.isSome_iff_exists.1 (Word.ofInt?_isSome_iff.2 (by omega))
  unfold publish
  split
  · exact ⟨s, rfl⟩
  · exact ⟨_, by rw [Registers.word, hv]; rfl⟩

/-- A failing step publishes the counter and does nothing else. -/
theorem publish_of_step_error {s : State n} {failure : Failure (State n)}
    (hsize : s.program.size < 2 ^ 63) (hh : s.halted = false) (h : s.step w = .error failure) :
    s.publish w = .ok failure.left := by
  obtain ⟨t, hp⟩ := exists_publish (w := w) hsize hh
  unfold step at h
  split at h
  · next f hf =>
    cases h
    unfold fetch at hf
    rw [hp] at hf
    dsimp only at hf
    split at hf
    · cases hf
      exact hp
    · cases hf
  · next u ins hf =>
    obtain ⟨hu, -⟩ := fetch_eq_ok_iff.1 hf
    obtain ⟨hleft, -⟩ := execute_error_cases (perform_eq_error_iff.1 h)
    rw [hleft, hu]

end State

/-! ## Failing runs -/

namespace Machine

variable {m last : Machine n} {failure : Failure (Machine n)}

/-- The run from `m` comes to `last` in `j` steps and fails in the next. -/
structure FailsAfter (m : Machine n) (j : Nat) (last : Machine n) (failure : Failure (Machine n)) :
    Prop where
  run : m.runFor j = .ok last
  steps : last.steps = m.steps + j
  running : last.halted = false
  step : last.step = .error failure

theorem ends_crashed_iff_failsAfter :
    m.Ends (.crashed failure) ↔ ∃ j last, m.FailsAfter j last failure := by
  constructor
  · rintro ⟨j, last, hrun, hsteps, hgo, hstep⟩
    exact ⟨j, last, hrun, hsteps, hgo, hstep⟩
  · rintro ⟨j, last, h⟩
    exact ⟨j, last, h.run, h.steps, h.running, h.step⟩

theorem exists_failsAfter_of_runFor {k : Nat} (h : m.runFor k = .error failure) :
    ∃ j last, j < k ∧ m.FailsAfter j last failure := by
  obtain ⟨j, o, t, hj, hrun, ht, hstep⟩ := exists_run_of_runFor_error h
  exact ⟨j, m.moved j o t, hj, runFor_of_run hrun, rfl, ht, hstep⟩

theorem FailsAfter.exists_run {j : Nat} (h : m.FailsAfter j last failure) :
    ∃ o t, m.state.Run m.wiring j o t ∧ last = m.moved j o t := by
  obtain ⟨k, o, t, hrun, rfl, -⟩ := exists_run_of_runFor_ok h.run
  have hk := h.steps
  rw [moved_steps, Nat.add_left_cancel_iff] at hk
  subst hk
  exact ⟨o, t, hrun, rfl⟩

/-- `left` is `last` with the counter in register `ip`. -/
structure PublishedIn (ip : Option Int) (last left : Machine n) : Prop where
  wiring : left.wiring = last.wiring
  steps : left.steps = last.steps
  outputs : left.outputs = last.outputs
  program : left.state.program = last.state.program
  pc : left.state.pc = last.state.pc
  registers : ∀ i : Fin n, (left.state.registers.get i).toInt =
    if ip = some (i : Int) then last.state.pc else (last.state.registers.get i).toInt

theorem publishedIn_of_step_error (hsize : last.state.program.size < 2 ^ 63)
    (hgo : last.halted = false) (h : last.step = .error failure) :
    last.PublishedIn (last.wiring.ip.map fun i : Fin n => (i : Int)) failure.left := by
  obtain ⟨f, hf, rfl⟩ := step_eq_error_iff.1 h
  have hp := State.publish_of_step_error hsize hgo hf
  refine ⟨rfl, rfl, rfl, State.publish_program hp, State.publish_pc hp, fun i => ?_⟩
  show (f.left.registers.get i).toInt = _
  rw [State.publish_registers hp]
  cases last.wiring.ip <;> simp [Fin.ext_iff]

theorem FailsAfter.size_eq {j : Nat} (h : m.FailsAfter j last failure) :
    last.state.program.size = m.state.program.size := by
  obtain ⟨o, t, hrun, rfl⟩ := h.exists_run
  exact Program.size_of_operands hrun.operands

end Machine

/-! ## Running to the end -/

/-- What a run leaves of the program and the registers, if it ends. -/
def Machine.Completion.execution? : Machine.Completion n → Option (Execution (Registers n))
  | .halted last => some ⟨last.state.program, last.state.registers, none⟩
  | .crashed ⟨fault, left⟩ => some ⟨left.state.program, left.state.registers, some fault⟩
  | .endless => none

/-- The same for a list of values: the registers are written back unless the run failed. -/
def Machine.Completion.executionOn? (values : List Int) (c : Machine.Completion n) :
    Option (Execution (List Int)) :=
  c.execution?.map fun run =>
    ⟨run.program, if run.fault.isSome then values else run.registers.values, run.fault⟩

theorem execute_eq_of_ends {setup : Setup} {program : Program} {registers : Registers n}
    {m : Machine n} {c : Machine.Completion n} (hpc : program.hasAddress setup.pc = true)
    (hload : Machine.load setup program registers = .ok m) (hends : m.Ends c) :
    execute setup program registers = c.execution? := by
  simp only [execute, hpc, hload, Machine.complete_eq_iff.2 hends]
  cases c <;> rfl

theorem executeOn_eq_of_ends {setup : Setup} {program : Program} {values : List Int}
    {registers : Registers values.length} {m : Machine values.length}
    {c : Machine.Completion values.length} (hpc : program.hasAddress setup.pc = true)
    (hvalues : Registers.ofList values = .ok registers)
    (hload : Machine.load setup program registers = .ok m) (hends : m.Ends c) :
    executeOn setup program values = c.executionOn? values := by
  simp only [executeOn, hpc, hvalues, execute_eq_of_ends hpc hload hends, Bool.not_true,
    Bool.false_eq_true, if_false, Machine.Completion.executionOn?]
  congr 1
  funext run
  cases run.fault <;> rfl

/-- A run that fails in step `j + 1` leaves the machine after `j` steps, but for the register wired
to the counter, which holds the counter. Running on a register file leaves the registers and the
program of that machine, with the toggles of the `j` steps and no other; running on a list of the
same values ends with the same fault and program and leaves the list as it was. Where the run does
not fail, both end with the same values, or neither ends. -/
theorem failed_run_leaves_last_machine {setup : Setup} {program : Program} {values : List Int}
    (hsize : program.size < 2 ^ 63) (hpc : program.hasAddress setup.pc = true)
    (hne : values ≠ []) (hfit : ∀ v ∈ values, -2 ^ 63 ≤ v ∧ v < 2 ^ 63) :
    ∃ registers : Registers values.length, Registers.ofList values = .ok registers ∧
      registers.values = values ∧
      ∀ m, Machine.load setup program registers = .ok m →
        (∀ k failure, m.runFor k = .error failure →
          ∃ j last, j < k ∧ m.FailsAfter j last failure) ∧
        (∀ failure, m.Ends (.crashed failure) ↔ ∃ j last, m.FailsAfter j last failure) ∧
        (∀ j last failure, m.FailsAfter j last failure →
          last.PublishedIn setup.ip failure.left ∧
          failure.left.state.program =
            (m.state.targets m.wiring j).foldl (Program.toggle setup.toggles) program ∧
          execute setup program registers = some
            ⟨failure.left.state.program, failure.left.state.registers, some failure.fault⟩ ∧
          executeOn setup program values =
            some ⟨failure.left.state.program, values, some failure.fault⟩) ∧
        (∀ last, m.Ends (.halted last) →
          execute setup program registers =
            some ⟨last.state.program, last.state.registers, none⟩ ∧
          executeOn setup program values =
            some ⟨last.state.program, last.state.registers.values, none⟩) ∧
        (m.Ends .endless → execute setup program registers = none ∧
          executeOn setup program values = none) := by
  obtain ⟨registers, hvalues, hsame⟩ := Registers.exists_ofList hne hfit
  refine ⟨registers, hvalues, hsame, fun m hload => ?_⟩
  obtain ⟨ip, hip, -, hm⟩ := Machine.load_eq_ok_iff.1 hload
  refine ⟨fun k failure h => Machine.exists_failsAfter_of_runFor h,
    fun failure => Machine.ends_crashed_iff_failsAfter, ?_, ?_, ?_⟩
  · intro j last failure hfails
    obtain ⟨o, t, hrun, hlast⟩ := hfails.exists_run
    have hprogram := hrun.program_eq_toggles
    have hpublished : last.PublishedIn setup.ip failure.left := by
      have hsize' : last.state.program.size < 2 ^ 63 := by rwa [hfails.size_eq, hm]
      have hwiring : last.wiring.ip.map (fun i : Fin values.length => (i : Int)) = setup.ip := by
        rw [hlast, Machine.moved_wiring, hm, hip]
      rw [← hwiring]
      exact Machine.publishedIn_of_step_error hsize' hfails.running hfails.step
    have hends := Machine.ends_crashed_iff_failsAfter.2 ⟨j, last, hfails⟩
    refine ⟨hpublished, ?_, execute_eq_of_ends hpc hload hends,
      executeOn_eq_of_ends hpc hvalues hload hends⟩
    rw [hpublished.program, hlast, Machine.moved_state, hprogram, hm]
  · intro last hends
    exact ⟨execute_eq_of_ends hpc hload hends, executeOn_eq_of_ends hpc hvalues hload hends⟩
  · intro hends
    exact ⟨execute_eq_of_ends hpc hload hends, executeOn_eq_of_ends hpc hvalues hload hends⟩

/-- A toggle makes a division by a literal one by a register that holds zero. The counter, wired to
the last register, is 1 when the division fails. -/
theorem failed_run_leaves_last_machine_toggled_division :
    let program : Program := #[⟨.tgl, 1, 0, 0⟩, ⟨.divi, 1, 0, 1⟩]
    let left : Program := #[⟨.tgl, 1, 0, 0⟩, ⟨.divr, 1, 0, 1⟩]
    ∃ registers, Registers.ofList [0, 1, 7] = .ok registers ∧
      execute { ip := some 2 } program registers =
        some ⟨left, #v[0, 1, 1], some .divisionByZero⟩ ∧
      executeOn { ip := some 2 } program [0, 1, 7] =
        some ⟨left, [0, 1, 7], some .divisionByZero⟩ := by
  intro program left
  obtain ⟨registers, hvalues, -, h⟩ := @failed_run_leaves_last_machine { ip := some 2 } program
    [0, 1, 7] (by decide) (by decide) (by decide) (by decide)
  cases hvalues
  let wiring : Wiring 3 := ⟨some 2, .standard, none⟩
  have hfails : Machine.FailsAfter ⟨wiring, ⟨program, #v[0, 1, 7], 0⟩, 0, #[]⟩ 1
      ⟨wiring, ⟨left, #v[0, 1, 0], 1⟩, 1, #[]⟩
      ⟨.divisionByZero, ⟨wiring, ⟨left, #v[0, 1, 1], 1⟩, 1, #[]⟩⟩ :=
    ⟨by cbv, rfl, rfl, by cbv⟩
  obtain ⟨-, -, hexecute, hexecuteOn⟩ := (h _ rfl).2.2.1 _ _ _ hfails
  exact ⟨_, rfl, hexecute, hexecuteOn⟩

end WordMachine


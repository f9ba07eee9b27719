import WordMachine.Proofs.Lasso

/-!
# Every run is decided

A run without a budget halts, fails or goes on forever, and since a machine has finitely many
states, all three show after finitely many steps. `complete` finds out by running for that long,
and the analysis by looking for a state it has met before; both give the same answer.
-/

namespace WordMachine

namespace Machine

variable {n : Nat} {m : Machine n}

/-! ## Running to the end -/

/-- The rest of a run in rounds ends as the run does, or is a run through all of them. -/
theorem completeIn_cases (j : Nat) {k : Nat} {o : List Int} {t : State n}
    (h : m.state.Run m.wiring k o t) :
    m.Ends ((m.moved k o t).completeIn j) ∨ (m.moved k o t).completeIn j = .endless ∧
      ∃ p u, m.state.Run m.wiring (k + j * roundLength) p u := by
  induction j generalizing k o t with
  | zero => exact .inr ⟨rfl, o, t, by simpa using h⟩
  | succ j ih =>
    rw [completeIn]
    split
    · next failure hfail =>
      obtain ⟨i, p, u, -, hrun, hu, hstep⟩ := exists_run_of_runFor_error hfail
      rw [moved_moved] at hstep
      exact .inl (ends_crashed_iff.2 ⟨k + i, o ++ p, u, h.trans hrun, hu, hstep⟩)
    · next last hlast =>
      obtain ⟨i, p, u, hrun, rfl, hi⟩ := exists_run_of_runFor_ok hlast
      rw [moved_moved]
      split
      · next hhalt => exact .inl (ends_halted_iff.2 ⟨k + i, o ++ p, u, h.trans hrun, hhalt, rfl⟩)
      · next hgo =>
        obtain rfl : i = roundLength := hi.resolve_right fun hu => hgo hu.2
        rw [show k + (j + 1) * roundLength = k + roundLength + j * roundLength by
          rw [Nat.succ_mul]; omega]
        exact ih (h.trans hrun)

theorem ends_complete (m : Machine n) : m.Ends m.complete := by
  have h := completeIn_cases (m := m) (roundsFor m.state.count) (.refl m.state)
  rw [moved_zero] at h
  rcases h with h | ⟨hend, p, u, hrun⟩
  · exact h
  · obtain ⟨i, j, _, _, _, hij, hi, hj⟩ := hrun.exists_repeat (by
      rw [Nat.zero_add]; exact lt_rounds _)
    rw [complete, hend]
    exact endless_of_repeat hij hi hj

/-- A machine ends its run in exactly one way, and `complete` tells which. -/
theorem complete_eq_iff {c : Completion n} : m.complete = c ↔ m.Ends c :=
  ⟨fun h => h ▸ ends_complete m, fun h => (ends_complete m).unique h⟩

/-! ## The analysis -/

/-- An analysis without a budget is not stopped by the number of its steps. -/
theorem analyze_ne_stepLimit {σ : Type} (check : Check σ) (m last : Machine n) :
    m.analyze check none ≠ .ok ⟨.stepLimit, last⟩ := by
  intro h
  have hwatch := watched_analyze check none m
  rw [h] at hwatch
  have hsteps := hwatch.steps_le
  cases hwatch with
  | stepLimit =>
    rw [moved_steps, allowance] at hsteps
    omega

/-- How a run ends according to an analysis that was not stopped from outside. -/
def completion? : Except (Failure (Machine n)) (Report n) → Option (Completion n)
  | .error failure => some (.crashed failure)
  | .ok ⟨.halted, last⟩ => some (.halted last)
  | .ok ⟨.cycle .., _⟩ => some .endless
  | .ok ⟨.stepLimit, _⟩ => none
  | .ok ⟨.rejected, _⟩ => none

section

variable {r : Except (Failure (Machine n)) (Report n)}

theorem completion?_eq_halted_iff {last : Machine n} :
    completion? r = some (.halted last) ↔ r = .ok ⟨.halted, last⟩ := by
  rcases r with failure | ⟨verdict, m⟩
  · simp [completion?]
  · cases verdict <;> simp [completion?]

theorem completion?_eq_crashed_iff {failure : Failure (Machine n)} :
    completion? r = some (.crashed failure) ↔ r = .error failure := by
  rcases r with failure | ⟨verdict, m⟩
  · simp [completion?]
  · cases verdict <;> simp [completion?]

theorem completion?_eq_endless_iff :
    completion? r = some .endless ↔
      ∃ start length lap last, r = .ok ⟨.cycle start length lap, last⟩ := by
  rcases r with failure | ⟨verdict, m⟩
  · simp [completion?]
  · cases verdict <;> simp [completion?]

end

theorem completion?_analyze (m : Machine n) :
    completion? (m.analyze .any none) = some m.complete := by
  suffices h : ∃ c, completion? (m.analyze .any none) = some c ∧ m.Ends c by
    obtain ⟨c, hc, hend⟩ := h
    rw [hc, complete_eq_iff.2 hend]
  have hwatch := watched_analyze .any none m
  generalize hr : m.analyze .any none = r at hwatch
  cases hwatch with
  | halted hpass _ ht => exact ⟨_, rfl, ends_halted_iff.2 ⟨_, _, _, hpass.run, ht, rfl⟩⟩
  | stepLimit => exact absurd hr (analyze_ne_stepLimit _ m _)
  | cycle hpass _ _ hi hp => exact ⟨_, rfl, endless_of_repeat hi hp hpass.run⟩
  | crashed hpass _ _ ht hf => exact ⟨_, rfl, ends_crashed_iff.2 ⟨_, _, _, hpass.run, ht, hf⟩⟩
  | rejected _ _ _ _ _ _ hrefuse => cases hrefuse

theorem analyze_eq_of_count_lt {σ : Type} {check : Check σ} {budget : Int}
    (h : m.state.count < budget) : m.analyze check (some budget) = m.analyze check none := by
  obtain ⟨extra, hextra⟩ := Nat.exists_eq_add_of_le
    (show m.state.count + 1 ≤ budget.toNat by omega)
  rw [analyze, allowance, hextra]
  exact watch_add check extra _ ∅ check.init m fun last => analyze_ne_stepLimit check m last

end Machine

/-- The analysis without a budget or a check decides how the plain run ends. -/
theorem analyze_decides {n : Nat} {setup : Setup} {program : Program} {registers : Registers n}
    {m : Machine n} (h : Machine.load setup program registers = .ok m) :
    (∀ last, analyze setup .any none program registers = .ok ⟨.halted, last⟩ ↔
      m.Ends (.halted last)) ∧
    (∀ failure, m.analyze .any none = .error failure ↔ m.Ends (.crashed failure)) ∧
    (∀ fault, analyze setup .any none program registers = .error fault ↔
      ∃ failure, m.Ends (.crashed failure) ∧ failure.fault = fault) ∧
    ((∃ start length lap last, analyze setup .any none program registers =
      .ok ⟨.cycle start length lap, last⟩) ↔ m.Ends .endless) ∧
    (∀ c, m.complete = c ↔ m.Ends c) ∧
    (∀ r, analyze setup .any none program registers = .ok r →
      r.verdict ≠ .stepLimit ∧ r.machine.steps ≤ m.state.count) ∧
    ∀ budget : Int, m.state.count < budget → analyze setup .any (some budget) program registers =
      analyze setup .any none program registers := by
  have hcompletion := Machine.completion?_analyze m
  have hends : ∀ c, Machine.completion? (m.analyze .any none) = some c ↔ m.Ends c := fun c => by
    rw [hcompletion, Option.some.injEq, Machine.complete_eq_iff]
  have hcrashed : ∀ failure, m.analyze .any none = .error failure ↔ m.Ends (.crashed failure) :=
    fun failure => by rw [← hends, Machine.completion?_eq_crashed_iff]
  simp only [analyze_of_load h, Except.mapError_eq_ok_iff, Except.mapError_eq_error_iff]
  refine ⟨fun last => ?_, hcrashed, fun fault => ?_, ?_, fun c => Machine.complete_eq_iff, ?_, ?_⟩
  · rw [← hends, Machine.completion?_eq_halted_iff]
  · simp only [hcrashed]
  · rw [← hends, Machine.completion?_eq_endless_iff]
  · intro r hr
    have hsteps := (hr ▸ Machine.watched_analyze .any none m).steps_le
    rw [(Machine.load_fresh h).1, Nat.zero_add] at hsteps
    refine ⟨fun hlimit => ?_, hsteps⟩
    exact Machine.analyze_ne_stepLimit .any m r.machine (by rw [hr, ← hlimit])
  · intro budget hbudget
    rw [Machine.analyze_eq_of_count_lt hbudget]

/-- A program that toggles its own jump: the jump back turns into a comparison of a register that
does not exist. -/
theorem analyze_decides_self_modifying :
    let program : Program := #[⟨.tgl, 1, 0, 0⟩, ⟨.seti, -1, 0, 0⟩]
    let registers : Registers 2 := #v[-1, 1]
    ∃ m, Machine.load { ip := some 0 } program registers = .ok m ∧
      analyze { ip := some 0 } .any none program registers = .error (.registerOutside (-1) 2) :=
  ⟨_, rfl, ((analyze_decides rfl).2.2.1 _).2 ⟨_, ⟨1, _, rfl, rfl, rfl, rfl⟩, rfl⟩⟩

end WordMachine

import WordMachine.Proofs.Decision

/-!
# Budgets only cut an analysis short

The budget counts down beside the loop and is looked at after everything else: an analysis that
comes to an end of its own within its budget comes to the same end with any larger one. Otherwise
it stops after exactly as many steps as the budget has, in the machine of the plain run, and an
analysis with a larger budget goes on from there.
-/

namespace WordMachine

variable {n : Nat} {σ : Type}

/-- A budget allows no more steps than another one. No budget allows more than any. -/
def BudgetLe : Option Int → Option Int → Prop
  | _, none => True
  | none, some _ => False
  | some b, some b' => b ≤ b'

namespace Machine

variable {m : Machine n} {budget budget' : Option Int}

theorem analyze_cases_of_allowance_le (check : Check σ)
    (h : m.allowance budget ≤ m.allowance budget') :
    m.analyze check budget' = m.analyze check budget ∨
    ∃ last, m.analyze check budget = .ok ⟨.stepLimit, last⟩ ∧
      last.outputs.toList <+: emitted (m.analyze check budget') := by
  obtain ⟨extra, hextra⟩ := Nat.exists_eq_add_of_le h
  have hcases := watch_add_cases check extra (m.allowance budget) ∅ check.init m
  rw [← hextra] at hcases
  refine hcases.imp_right ?_
  rintro ⟨last, seen, c, hlimit, hresume⟩
  refine ⟨last, hlimit, ?_⟩
  rw [analyze, hresume]
  exact outputs_prefix_emitted check extra seen c last

/-- An analysis gives what it gives with a larger budget, or it runs out of steps having emitted
the first of the values emitted then. -/
theorem analyze_budget_cases (check : Check σ) (m : Machine n) (h : BudgetLe budget budget') :
    m.analyze check budget' = m.analyze check budget ∨
    ∃ last, m.analyze check budget = .ok ⟨.stepLimit, last⟩ ∧
      last.outputs.toList <+: emitted (m.analyze check budget') := by
  match budget, budget', h with
  | none, none, _ => exact .inl rfl
  | some b, some b', h => exact analyze_cases_of_allowance_le check (Int.toNat_le_toNat h)
  | some b, none, _ =>
    -- A budget beyond the number of states is as good as none.
    rcases lt_or_ge (m.state.count : Int) b with hlt | hge
    · exact .inl (analyze_eq_of_count_lt hlt).symm
    · refine analyze_cases_of_allowance_le check ?_
      show b.toNat ≤ m.state.count + 1
      omega

theorem run_of_analyze_stepLimit {check : Check σ} {last : Machine n}
    (h : m.analyze check budget = .ok ⟨.stepLimit, last⟩) :
    ∃ b o t, budget = some b ∧ m.state.Run m.wiring b.toNat o t ∧ last = m.moved b.toNat o t := by
  cases budget with
  | none => exact absurd h (analyze_ne_stepLimit check m last)
  | some b =>
    have hwatch := watched_analyze check (some b) m
    rw [h] at hwatch
    cases hwatch with
    | stepLimit hpass => exact ⟨b, _, _, rfl, hpass.run, rfl⟩

/-- A run that halts within the allowance is reported so, unless the check refuses a value. -/
theorem analyze_of_halted (check : Check σ) {k : Nat} {o : List Int} {t : State n}
    (hrun : m.state.Run m.wiring k o t) (ht : t.halted = true) (hk : k ≤ m.allowance budget) :
    m.analyze check budget = .ok ⟨.halted, m.moved k o t⟩ ∨
    check.feed check.init o = none ∧ ∃ last, m.analyze check budget = .ok ⟨.rejected, last⟩ := by
  have hwatch := watched_analyze check budget m
  generalize m.analyze check budget = r at hwatch
  cases hwatch with
  | halted hpass _ hu =>
    obtain ⟨rfl, rfl, rfl⟩ := hrun.eq_of_stops (.inl ht) hpass.run (.inl hu)
    exact .inl rfl
  | stepLimit hpass hu =>
    obtain rfl := Nat.le_antisymm hk (hrun.le_of_stops (.inl ht) hpass.run)
    obtain ⟨-, rfl⟩ := hrun.det hpass.run
    simp [ht] at hu
  | cycle hpass _ _ hi hp =>
    exact absurd (endless_of_repeat hi hp hpass.run) (not_endless_of_stops hrun (.inl ht))
  | crashed hpass _ _ hu hf =>
    obtain ⟨-, -, rfl⟩ := hrun.eq_of_stops (.inl ht) hpass.run (stops_of_step_error hf)
    simp [ht] at hu
  | rejected hpass _ _ hu hstep hv hrefuse =>
    have hlast := hpass.run.trans (.single hu hstep)
    rw [hv] at hlast
    obtain ⟨q, rfl, -⟩ := hlast.rest (hrun.le_of_stops (.inl ht) hlast) hrun
    refine .inr ⟨?_, _, rfl⟩
    rw [Check.feed_append, Check.feed_append, hpass.accepted]
    simp [Check.feed, hrefuse]

end Machine

/-- A budget only truncates. With the smaller of two budgets an analysis gives the same result or
fault as with the larger, or it stops at the step limit, after all the steps of its budget: in the
machine of the plain run after so many steps, and having emitted the first of the values that the
larger budget lets it emit. A run that halts within its budget, be it with the last step, is
reported to halt unless the check refuses a value. -/
theorem analyze_budget_truncates {setup : Setup} {check : Check σ} {budget budget' : Option Int}
    {program : Program} {registers : Registers n} (h : BudgetLe budget budget') :
    (analyze setup check budget program registers = analyze setup check budget' program registers ∨
      ∃ last, analyze setup check budget program registers = .ok ⟨.stepLimit, last⟩) ∧
    (∀ last, analyze setup check budget program registers = .ok ⟨.stepLimit, last⟩ →
      (∃ b m, budget = some b ∧ (last.steps : Int) = max b 0 ∧
        Machine.load setup program registers = .ok m ∧ m.runFor last.steps = .ok last) ∧
      ∀ r, analyze setup check budget' program registers = .ok r →
        last.outputs.toList <+: r.outputs) ∧
    ∀ b m last, budget = some b → Machine.load setup program registers = .ok m →
      m.runFor b.toNat = .ok last → last.halted = true →
      (∀ limit, analyze setup check budget program registers ≠ .ok ⟨.stepLimit, limit⟩) ∧
      (∀ c, check.feed check.init last.outputs.toList = some c →
        analyze setup check budget program registers = .ok ⟨.halted, last⟩) := by
  cases hload : Machine.load setup program registers with
  | error fault =>
    have hfault : ∀ budget, analyze setup check budget program registers = .error fault := by
      intro budget
      rw [analyze, hload]
      rfl
    simp [hfault]
  | ok m =>
    obtain ⟨hsteps, houtputs⟩ := Machine.load_fresh hload
    have hcases := Machine.analyze_budget_cases check m h
    simp only [analyze_of_load hload, ne_eq, Except.mapError_eq_ok_iff]
    refine ⟨?_, ?_, ?_⟩
    · rcases hcases with heq | ⟨last, hlast, -⟩
      · exact .inl (by rw [heq])
      · exact .inr ⟨last, hlast⟩
    · intro last hlast
      obtain ⟨b, o, t, rfl, hrun, rfl⟩ := Machine.run_of_analyze_stepLimit hlast
      refine ⟨⟨b, m, rfl, ?_, rfl, ?_⟩, ?_⟩
      · rw [Machine.moved_steps, hsteps]
        omega
      · exact Machine.runFor_steps_of_fresh hsteps hrun
      · intro r hr
        rcases hcases with heq | ⟨last, hlast', hprefix⟩
        · rw [heq, hlast] at hr
          cases hr
          exact List.prefix_rfl
        · rw [hlast] at hlast'
          cases hlast'
          rwa [hr] at hprefix
    · rintro b _ last rfl ⟨⟩ hlast hhalt
      obtain ⟨k, o, t, hrun, rfl, hk⟩ := Machine.exists_run_of_runFor_ok hlast
      have hle : k ≤ m.allowance (some b) := hk.elim Nat.le_of_eq And.left
      have hends := Machine.analyze_of_halted check hrun hhalt hle
      constructor
      · rcases hends with hends | ⟨-, last, hends⟩ <;> simp [hends]
      · intro c hc
        rw [Machine.outputs_of_fresh houtputs] at hc
        rcases hends with hends | ⟨hnone, -⟩
        · exact hends
        · simp [hnone] at hc

/-- Two steps of a loop that emits its counter, against the whole lasso. -/
theorem analyze_budget_truncates_counter :
    let program : Program := #[⟨.out, 0, 0, 0⟩, ⟨.seti, -1, 0, 0⟩]
    let registers : Registers 1 := #v[0]
    ∃ last r, BudgetLe (some 2) none ∧
      analyze { ip := some 0 } .any (some 2) program registers = .ok ⟨.stepLimit, last⟩ ∧
      analyze { ip := some 0 } .any none program registers = .ok r ∧
      (last.steps : Int) = 2 ∧ last.outputs.toList <+: r.outputs := by
  intro program registers
  let wiring : Wiring 1 := ⟨some 0, .standard, none⟩
  have hlimit : analyze { ip := some 0 } .any (some 2) program registers =
      .ok ⟨.stepLimit, ⟨wiring, ⟨program, #v[-1], 0⟩, 2, #[0]⟩⟩ := by cbv
  have hcycle : analyze { ip := some 0 } .any none program registers =
      .ok ⟨.cycle 1 2 [0], ⟨wiring, ⟨program, #v[0], 1⟩, 3, #[0, 0]⟩⟩ := by cbv
  have hle : BudgetLe (some 2) none := trivial
  obtain ⟨⟨b, _, hb, hsteps, -⟩, hprefix⟩ := (analyze_budget_truncates hle).2.1 _ hlimit
  cases hb
  exact ⟨_, _, hle, hlimit, hcycle, hsteps, hprefix _ hcycle⟩

end WordMachine

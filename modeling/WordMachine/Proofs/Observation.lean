import WordMachine.Proofs.Lasso

/-!
# Checks observe and do not disturb

An analysis shows its check the emitted values one by one. `Machine.Observed` compares an analysis
with the same one without a check: as long as the check accepts, both do the same, and when it
refuses a value the analysis ends with the step that emitted it. Nothing else of the analysis
depends on the check.
-/

namespace WordMachine

variable {n : Nat} {σ : Type}

theorem Check.feed_any (values : List Int) : Check.any.feed () values = some () := by
  induction values with
  | nil => rfl
  | cons v vs ih => exact ih

namespace Machine

/-! ## Analyses with and without a check -/

/-- What an analysis from `m` on gives with a check that is in state `c`, compared with `plain`,
what it gives without one. -/
inductive Observed (check : Check σ) (c : σ) (m : Machine n)
    (plain : Except (Failure (Machine n)) (Report n)) :
    Except (Failure (Machine n)) (Report n) → Prop where
  | accepted {o : List Int} {c' : σ} : emitted plain = m.outputs.toList ++ o →
      check.feed c o = some c' → Observed check c m plain plain
  | refused {k : Nat} {o : List Int} {v : Int} {c' : σ} {t : State n} {next : Step n} :
      m.outputs.toList ++ (o ++ [v]) <+: emitted plain → check.feed c o = some c' →
      check.accept c' v = none → m.state.Run m.wiring k o t → t.halted = false →
      t.step m.wiring = .ok next → next.event.output? = some v →
      Observed check c m plain (.ok ⟨.rejected, m.moved (k + 1) (o ++ [v]) next.next⟩)

variable {check : Check σ} {c : σ} {m : Machine n}
  {plain checked : Except (Failure (Machine n)) (Report n)}

/-- A step whose value the check accepts goes before. -/
theorem Observed.step {next : Step n} {c' : σ} (hgo : m.halted = false)
    (hstep : m.state.step m.wiring = .ok next)
    (hfeed : check.feed c next.event.output?.toList = some c')
    (h : Observed check c' (m.after next) plain checked) : Observed check c m plain checked := by
  rw [after_eq_moved] at h
  cases h with
  | @accepted o c'' hplain haccept =>
    have hall : check.feed c (next.event.output?.toList ++ o) = some c'' := by
      rw [Check.feed_append, hfeed]
      exact haccept
    refine .accepted ?_ hall
    rw [hplain, moved_outputs, Array.toList_append, List.append_assoc]
  | @refused k o v c'' t last hplain haccept hrefuse hrun ht hlast hv =>
    rw [moved_moved, ← List.append_assoc, Nat.add_comm 1]
    refine .refused ?_ ?_ hrefuse (.step hgo hstep hrun) ht hlast hv
    · simpa using hplain
    · rw [Check.feed_append, hfeed]
      exact haccept

theorem observed_watch (check : Check σ) (fuel : Nat) (seen : Std.HashMap (State n) Mark) (c : σ)
    (m : Machine n) :
    Observed check c m (m.watch .any fuel seen ()) (m.watch check fuel seen c) := by
  induction fuel generalizing seen c m with
  | zero => exact .accepted (o := []) (List.append_nil _).symm rfl
  | succ fuel ih =>
    obtain ⟨r, hr, hround⟩ | ⟨next, hgo, hstep, hround⟩ := watch_round seen m
    · rw [hround, hround]
      exact .accepted (o := []) (by rw [hr, List.append_nil]) rfl
    · rw [hround, hround, Check.feed_any]
      cases hfeed : check.feed c next.event.output?.toList with
      | some c' => exact (ih _ c' _).step hgo hstep hfeed
      | none =>
        -- Only a step that emits a value can be refused, and that value is the refused one.
        cases hv : next.event.output? with
        | none => simp [hv, Check.feed] at hfeed
        | some v =>
          have hplain := outputs_prefix_emitted .any fuel
            (seen.insert m.state ⟨m.steps, m.outputs.size⟩) () (m.after next)
          have hrefuse : check.accept c v = none := by simpa [hv, Check.feed] using hfeed
          rw [after_eq_moved, hv] at hplain ⊢
          refine .refused (k := 0) (o := []) ?_ rfl hrefuse (.refl _) hgo hstep hv
          simpa using hplain

theorem observed_analyze (check : Check σ) (budget : Option Int) (m : Machine n) :
    Observed check check.init m (m.analyze .any budget) (m.analyze check budget) :=
  observed_watch check _ ∅ check.init m

/-- Of a fresh machine, the values that decide are those that the analysis without a check emits. -/
theorem analyze_eq_of_accepted {budget : Option Int} (houtputs : m.outputs = #[])
    (h : check.feed check.init (emitted (m.analyze .any budget)) = some c) :
    m.analyze check budget = m.analyze .any budget := by
  have hobserved := observed_analyze check budget m
  generalize m.analyze check budget = checked at hobserved
  cases hobserved with
  | accepted => rfl
  | @refused k o v c' t next hplain haccept hrefuse hrun ht hnext hv =>
    obtain ⟨rest, hrest⟩ := hplain
    rw [← hrest, houtputs, List.nil_append, List.append_assoc, Check.feed_append, haccept] at h
    simp [Check.feed, hrefuse] at h

end Machine

/-- A check sees the emitted values in their order and changes nothing else. If it accepts all that
the analysis without it emits, both analyses give the same; otherwise the analysis is rejected with
the step that emits the first refused value, whatever that step or a later one leads to. -/
theorem analyze_check_observes (setup : Setup) (check : Check σ) (budget : Option Int)
    (program : Program) (registers : Registers n) :
    (∀ fault, Machine.load setup program registers = .error fault →
      analyze setup check budget program registers = .error fault ∧
      analyze setup .any budget program registers = .error fault) ∧
    ∀ m, Machine.load setup program registers = .ok m →
      (∀ c, check.feed check.init (Machine.emitted (m.analyze .any budget)) = some c →
        m.analyze check budget = m.analyze .any budget ∧
        analyze setup check budget program registers =
          analyze setup .any budget program registers) ∧
      (check.feed check.init (Machine.emitted (m.analyze .any budget)) = none →
        ∃ accepted v rest c before last,
          Machine.emitted (m.analyze .any budget) = accepted ++ v :: rest ∧
          check.feed check.init accepted = some c ∧ check.accept c v = none ∧
          analyze setup check budget program registers = .ok ⟨.rejected, last⟩ ∧
          m.runFor before.steps = .ok before ∧ before.halted = false ∧
          before.outputs.toList = accepted ∧ before.emission? = some v ∧
          last.steps = before.steps + 1 ∧ m.runFor last.steps = .ok last ∧
          last.outputs.toList = accepted ++ [v]) := by
  constructor
  · intro fault hload
    simp only [analyze, hload]
    exact ⟨rfl, rfl⟩
  intro m hload
  obtain ⟨hsteps, houtputs⟩ := Machine.load_fresh hload
  simp only [analyze_of_load hload]
  constructor
  · intro c hc
    have heq := Machine.analyze_eq_of_accepted houtputs hc
    exact ⟨heq, by rw [heq]⟩
  · intro hnone
    have hobserved := Machine.observed_analyze check budget m
    generalize m.analyze check budget = checked at hobserved ⊢
    cases hobserved with
    | accepted hplain haccept =>
      rw [hplain, houtputs, List.nil_append, haccept] at hnone
      cases hnone
    | @refused k o v c t next hplain haccept hrefuse hrun ht hnext hv =>
      obtain ⟨rest, hrest⟩ := hplain
      rw [houtputs, List.nil_append] at hrest
      have hrun' := hrun.trans (.single ht hnext)
      rw [hv] at hrun'
      refine ⟨o, v, rest, c, m.moved k o t, _, ?_, haccept, hrefuse, rfl,
        Machine.runFor_steps_of_fresh hsteps hrun, ht, Machine.outputs_of_fresh houtputs k o t, ?_,
        rfl, Machine.runFor_steps_of_fresh hsteps hrun', Machine.outputs_of_fresh houtputs _ _ _⟩
      · rw [← hrest, List.append_assoc, List.singleton_append]
      · simp only [Machine.emission?, Machine.attempt, Machine.moved_state, Machine.moved_wiring,
          hnext]
        exact hv

/-- A check that refuses the second value, on a program that would go on to divide by zero. -/
theorem analyze_check_observes_second_value :
    let program : Program := #[⟨.out, 0, 0, 0⟩, ⟨.out, 1, 0, 0⟩, ⟨.divi, 0, 0, 0⟩]
    let registers : Registers 2 := #v[3, 4]
    ∃ m last, Machine.load {} program registers = .ok m ∧
      analyze {} .any none program registers = .error .divisionByZero ∧
      Machine.emitted (m.analyze .any none) = [3, 4] ∧
      analyze {} (Check.atMost 1) none program registers = .ok ⟨.rejected, last⟩ ∧
      last.steps = 2 ∧ m.runFor 2 = .ok last ∧ last.outputs.toList = [3, 4] := by
  intro program registers
  let m : Machine 2 := ⟨⟨none, .standard, none⟩, ⟨program, registers, 0⟩, 0, #[]⟩
  have hload : Machine.load {} program registers = .ok m := rfl
  have hfault : analyze {} .any none program registers = .error .divisionByZero := by cbv
  have hemitted : Machine.emitted (m.analyze .any none) = [3, 4] := by cbv
  have hrefused : (Check.atMost 1).feed (Check.atMost 1).init
      (Machine.emitted (m.analyze .any none)) = none := by rw [hemitted]; rfl
  have hrejected : analyze {} (Check.atMost 1) none program registers =
      .ok ⟨.rejected, ⟨m.wiring, ⟨program, registers, 2⟩, 2, #[3, 4]⟩⟩ := by cbv
  obtain ⟨_, _, _, _, _, last, -, -, -, hlast, -, -, -, -, -, hrun, -⟩ :=
    ((analyze_check_observes {} (Check.atMost 1) none program registers).2 m hload).2 hrefused
  rw [hrejected] at hlast
  cases hlast
  exact ⟨m, _, hload, hfault, hemitted, hrejected, rfl, hrun, rfl⟩

end WordMachine

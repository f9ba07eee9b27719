import WordMachine.Proofs.Decision

/-!
# Runs in parts

A bounded run can be cut anywhere and resumed: `runFor_add`. Where the cut falls does not matter,
be it before the end, at it, or after a machine has halted or failed, since a halted machine stays
as it is and a fault ends the first part that meets it. A run to the end resumes a bounded one in
the same way.
-/

namespace WordMachine

namespace Machine

variable {n : Nat} {m mid last : Machine n}

/-! ## Bounded runs -/

theorem runFor_of_halted (h : m.halted = true) (k : Nat) : m.runFor k = .ok m := by
  cases k with
  | zero => rfl
  | succ k => rw [runFor, if_pos h]

/-- The second part of a run starts where the first stopped. -/
theorem runFor_add (j k : Nat) (m : Machine n) : m.runFor (j + k) = m.runFor j >>= runFor k := by
  induction j generalizing m with
  | zero => rw [Nat.zero_add]; rfl
  | succ j ih =>
    rw [Nat.add_right_comm, runFor, runFor]
    split
    · next hh => exact (runFor_of_halted hh k).symm
    · cases m.step with
      | error failure => rfl
      | ok next => exact ih next

/-- A run of at most `k` steps from `m` returns, having made `made` steps, and leaves `last`. -/
def RunsTo (m : Machine n) (k made : Nat) (last : Machine n) : Prop :=
  m.runFor k = .ok last ∧ last.steps = m.steps + made

theorem exists_runsTo {k : Nat} (h : m.runFor k = .ok last) : ∃ made, m.RunsTo k made last := by
  obtain ⟨j, o, t, -, rfl, -⟩ := exists_run_of_runFor_ok h
  exact ⟨j, h, rfl⟩

theorem RunsTo.trans {j k i l : Nat} (h1 : m.RunsTo j i mid) (h2 : mid.RunsTo k l last) :
    m.RunsTo (j + k) (i + l) last := by
  obtain ⟨hrun, hsteps⟩ := h1
  obtain ⟨hrun', hsteps'⟩ := h2
  refine ⟨?_, by omega⟩
  rw [runFor_add, hrun]
  exact hrun'

/-! ## Runs to the end -/

/-- How the rest of a run ends is how the run ends. -/
theorem Ends.of_runFor {j : Nat} {c : Completion n} (hmid : m.runFor j = .ok mid)
    (h : mid.Ends c) : m.Ends c := by
  have hadd : ∀ k, m.runFor (j + k) = mid.runFor k := by
    intro k
    rw [runFor_add, hmid]
    rfl
  cases c with
  | halted last =>
    obtain ⟨k, hk, hh⟩ := h
    exact ⟨j + k, (hadd k).trans hk, hh⟩
  | crashed failure =>
    obtain ⟨k, o, t, hrun, ht, hf⟩ := ends_crashed_iff.1 h
    obtain ⟨i, p, u, hrun', rfl, -⟩ := exists_run_of_runFor_ok hmid
    rw [moved_moved] at hf
    exact ends_crashed_iff.2 ⟨i + k, p ++ o, t, hrun'.trans hrun, ht, hf⟩
  | endless =>
    intro k
    obtain ⟨last, hlast, hgo⟩ := h k
    -- The first `k` steps, too, are a part of the run that comes to `last`.
    rw [← hadd, Nat.add_comm, runFor_add] at hlast
    obtain ⟨first, hfirst, hrest⟩ := Except.bind_eq_ok_iff.1 hlast
    refine ⟨first, hfirst, Bool.eq_false_iff.2 fun hh => ?_⟩
    rw [runFor_of_halted hh] at hrest
    obtain rfl := Except.ok.inj hrest
    simp [hh] at hgo

theorem complete_of_runFor_ok {j : Nat} (h : m.runFor j = .ok mid) : m.complete = mid.complete :=
  complete_eq_iff.2 (Ends.of_runFor h (ends_complete mid))

theorem complete_of_runFor_error {j : Nat} {failure : Failure (Machine n)}
    (h : m.runFor j = .error failure) : m.complete = .crashed failure := by
  obtain ⟨i, o, t, -, hrun, ht, hf⟩ := exists_run_of_runFor_error h
  exact complete_eq_iff.2 (ends_crashed_iff.2 ⟨i, o, t, hrun, ht, hf⟩)

theorem steps_le_of_complete (h : m.complete = .halted last) : ∃ l, last.steps = m.steps + l := by
  obtain ⟨k, o, t, -, -, rfl⟩ := ends_halted_iff.1 (complete_eq_iff.1 h)
  exact ⟨k, rfl⟩

end Machine

/-- Runs compose. If a run of at most `j + k` steps does not fail, then one of at most `j` steps
followed by one of at most `k` leaves the same machine, and the steps they make add up. If it fails,
the first part fails in the same way, or it returns and the second does. A run to the end that stops
is resumed alike. -/
theorem runs_resume {n : Nat} (m : Machine n) (j k : Nat) :
    (∀ last, m.runFor (j + k) = .ok last →
      ∃ mid i l, m.RunsTo j i mid ∧ mid.RunsTo k l last ∧ m.RunsTo (j + k) (i + l) last) ∧
    (∀ failure, m.runFor (j + k) = .error failure → m.runFor j = .error failure ∨
      ∃ mid, m.runFor j = .ok mid ∧ mid.runFor k = .error failure) ∧
    (∀ last, m.complete = .halted last →
      ∃ mid i l, m.RunsTo j i mid ∧ mid.complete = .halted last ∧
        last.steps = mid.steps + l ∧ last.steps = m.steps + (i + l)) ∧
    ∀ failure, m.complete = .crashed failure → m.runFor j = .error failure ∨
      ∃ mid, m.runFor j = .ok mid ∧ mid.complete = .crashed failure := by
  refine ⟨fun last h => ?_, fun failure h => ?_, fun last h => ?_, fun failure h => ?_⟩
  · rw [Machine.runFor_add] at h
    obtain ⟨mid, hmid, hlast⟩ := Except.bind_eq_ok_iff.1 h
    obtain ⟨i, hi⟩ := Machine.exists_runsTo hmid
    obtain ⟨l, hl⟩ := Machine.exists_runsTo hlast
    exact ⟨mid, i, l, hi, hl, hi.trans hl⟩
  · rw [Machine.runFor_add] at h
    exact Except.bind_eq_error_iff.1 h
  · cases hj : m.runFor j with
    | error failure =>
      rw [Machine.complete_of_runFor_error hj] at h
      cases h
    | ok mid =>
      rw [Machine.complete_of_runFor_ok hj] at h
      obtain ⟨i, hi⟩ := Machine.exists_runsTo hj
      obtain ⟨l, hl⟩ := Machine.steps_le_of_complete h
      have hsteps := hi.2
      exact ⟨mid, i, l, hi, h, hl, by omega⟩
  · cases hj : m.runFor j with
    | error failure' =>
      rw [Machine.complete_of_runFor_error hj] at h
      cases h
      exact .inl rfl
    | ok mid =>
      rw [Machine.complete_of_runFor_ok hj] at h
      exact .inr ⟨mid, rfl, h⟩

/-- Cut after a toggle that turns the next instruction into a division by zero: the first part
returns and the second fails. Cut in the middle of a run that halts after three steps, the parts
make two and one. -/
theorem runs_resume_toggled_division :
    let wiring : Wiring 3 := ⟨some 2, .standard, none⟩
    let failing : Machine 3 :=
      ⟨wiring, ⟨#[⟨.tgl, 0, 0, 0⟩, ⟨.divi, 0, 1, 0⟩], #v[1, 0, 7], 0⟩, 5, #[]⟩
    let halting : Machine 3 :=
      ⟨wiring, ⟨#[⟨.seti, 3, 0, 0⟩, ⟨.muli, 0, 4, 1⟩, ⟨.out, 1, 0, 0⟩], #v[0, 1, 7], 0⟩, 5, #[]⟩
    (∃ failure mid, failing.runFor (1 + 1) = .error failure ∧ failure.fault = .divisionByZero ∧
      failing.runFor 1 = .ok mid ∧ mid.runFor 1 = .error failure) ∧
    ∃ last mid i l, halting.runFor (2 + 7) = .ok last ∧ last.outputs = #[12] ∧
      halting.RunsTo 2 i mid ∧ mid.RunsTo 7 l last ∧ i + l = 3 := by
  intro wiring failing halting
  have hfail : ∃ failure, failing.runFor (1 + 1) = .error failure ∧
      failure.fault = .divisionByZero := ⟨_, by cbv, rfl⟩
  have hhalt : ∃ last, halting.runFor (2 + 7) = .ok last ∧ last.outputs = #[12] ∧
      last.steps = 8 := ⟨_, by cbv, rfl, rfl⟩
  obtain ⟨failure, hfailure, hfault⟩ := hfail
  obtain ⟨last, hlast, houtputs, hsteps⟩ := hhalt
  refine ⟨?_, ?_⟩
  · rcases (runs_resume failing 1 1).2.1 failure hfailure with hfirst | ⟨mid, hmid, hsecond⟩
    · have hreturns : (failing.runFor 1).isOk = true := by cbv
      rw [hfirst] at hreturns
      cases hreturns
    · exact ⟨failure, mid, hfailure, hfault, hmid, hsecond⟩
  · obtain ⟨mid, i, l, hi, hl, hil⟩ := (runs_resume halting 2 7).1 last hlast
    have hmade : last.steps = 5 + (i + l) := hil.2
    exact ⟨last, mid, i, l, hlast, houtputs, hi, hl, by omega⟩

end WordMachine

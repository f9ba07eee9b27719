import WordMachine.Machine
import WordMachine.Proofs.Fallible

/-!
# Runs

`State.Run w k s o t`: `k` steps lead from `s` to `t` and emit the values `o`. Every step starts
with the counter inside the program. A run speaks of states only, so what follows a state does not
depend on how it was reached; `Machine.moved` carries a run over to a machine, which also counts the
steps and keeps the emitted values.

`runFor` is determined by the runs from its start: it stops after a run of the full length, or
earlier in a halted state, or fails in the step after a run.
-/

namespace WordMachine

namespace State

variable {n : Nat} {w : Wiring n}

inductive Run (w : Wiring n) : Nat → State n → List Int → State n → Prop where
  | refl (s : State n) : Run w 0 s [] s
  | step {k : Nat} {s t : State n} {next : Step n} {o : List Int} : s.halted = false →
      s.step w = .ok next → Run w k next.next o t →
      Run w (k + 1) s (next.event.output?.toList ++ o) t

theorem Run.single {s : State n} {next : Step n} (h : s.halted = false)
    (hs : s.step w = .ok next) : Run w 1 s next.event.output?.toList next.next := by
  simpa using Run.step h hs (.refl next.next)

theorem Run.trans {j k : Nat} {s t u : State n} {o p : List Int} (h1 : Run w j s o t)
    (h2 : Run w k t p u) : Run w (j + k) s (o ++ p) u := by
  induction h1 with
  | refl => simpa using h2
  | step h hs _ ih =>
    rw [Nat.add_right_comm, List.append_assoc]
    exact .step h hs (ih h2)

/-- A run is determined by its start and its length. -/
theorem Run.det {k : Nat} {s t u : State n} {o p : List Int} (h1 : Run w k s o t)
    (h2 : Run w k s p u) : o = p ∧ t = u := by
  induction h1 generalizing p u with
  | refl =>
    cases h2
    exact ⟨rfl, rfl⟩
  | step _ hs _ ih =>
    obtain _ | ⟨_, hs', h2⟩ := h2
    rw [hs] at hs'
    cases hs'
    obtain ⟨rfl, rfl⟩ := ih h2
    exact ⟨rfl, rfl⟩

theorem Run.exists_step {s t : State n} {o : List Int} (h : Run w 1 s o t) :
    ∃ next, s.step w = .ok next ∧ o = next.event.output?.toList ∧ t = next.next := by
  obtain _ | ⟨_, hs, hrest⟩ := h
  obtain ⟨rfl, rfl⟩ := hrest.det (.refl _)
  exact ⟨_, hs, List.append_nil _, rfl⟩

/-- A run passes through a state after each number of steps up to its length. -/
theorem Run.split {j k : Nat} {s u : State n} {o : List Int} (h : Run w (j + k) s o u) :
    ∃ p q t, o = p ++ q ∧ Run w j s p t ∧ Run w k t q u := by
  induction j generalizing s o with
  | zero => exact ⟨[], o, s, rfl, .refl s, by simpa using h⟩
  | succ j ih =>
    rw [Nat.add_right_comm] at h
    obtain _ | ⟨hh, hs, h⟩ := h
    obtain ⟨p, q, t, rfl, hp, hq⟩ := ih h
    exact ⟨_, q, t, (List.append_assoc ..).symm, .step hh hs hp, hq⟩

/-- The rest of a run after a run of at most its length from the same start. -/
theorem Run.rest {j k : Nat} {s t u : State n} {o p : List Int} (hjk : j ≤ k)
    (h1 : Run w j s p t) (h2 : Run w k s o u) : ∃ q, o = p ++ q ∧ Run w (k - j) t q u := by
  obtain ⟨d, rfl⟩ := Nat.exists_eq_add_of_le hjk
  obtain ⟨p', q, t', rfl, hp, hq⟩ := h2.split
  obtain ⟨rfl, rfl⟩ := h1.det hp
  exact ⟨q, rfl, by rwa [Nat.add_sub_cancel_left]⟩

/-- A run goes on from each of its states but the last. -/
theorem Run.exists_next {j k : Nat} {s t u : State n} {o p : List Int} (hjk : j < k)
    (h1 : Run w j s p t) (h2 : Run w k s o u) :
    t.halted = false ∧ ∃ next, t.step w = .ok next := by
  obtain ⟨q, -, hq⟩ := h1.rest (Nat.le_of_lt hjk) h2
  obtain ⟨d, hd⟩ : ∃ d, k - j = d + 1 := ⟨k - j - 1, by omega⟩
  rw [hd] at hq
  obtain _ | ⟨hh, hs, _⟩ := hq
  exact ⟨hh, _, hs⟩

/-- There is no step from `t`: the counter has left the program, or the step fails. -/
def Stops (w : Wiring n) (t : State n) : Prop := t.halted = true ∨ ∃ f, t.step w = .error f

theorem Run.le_of_stops {j k : Nat} {s t u : State n} {o p : List Int} (h1 : Run w j s p t)
    (ht : t.Stops w) (h2 : Run w k s o u) : k ≤ j := by
  refine Nat.le_of_not_lt fun hlt => ?_
  obtain ⟨hh, next, hs⟩ := h1.exists_next hlt h2
  rcases ht with ht | ⟨f, hf⟩
  · simp [ht] at hh
  · simp [hf] at hs

/-- Only the last state of a run can be a halted one. -/
theorem Run.halted_eq_false {j k : Nat} {s t u : State n} {o p : List Int} (hjk : j < k)
    (h1 : Run w j s p t) (h2 : Run w k s o u) : t.halted = false :=
  (h1.exists_next hjk h2).1

/-- All runs from a state that stop do so at the same point. -/
theorem Run.eq_of_stops {j k : Nat} {s t u : State n} {o p : List Int} (h1 : Run w j s o t)
    (ht : t.Stops w) (h2 : Run w k s p u) (hu : u.Stops w) : j = k ∧ o = p ∧ t = u := by
  obtain rfl : j = k := Nat.le_antisymm (h2.le_of_stops hu h1) (h1.le_of_stops ht h2)
  exact ⟨rfl, h1.det h2⟩

end State

namespace Machine

variable {n : Nat}

/-! ## Machines along a run -/

/-- The machine after `k` more steps that emitted `o` and led to `t`. -/
def moved (m : Machine n) (k : Nat) (o : List Int) (t : State n) : Machine n :=
  { m with state := t, steps := m.steps + k, outputs := m.outputs ++ o.toArray }

@[simp] theorem moved_wiring (m : Machine n) (k : Nat) (o : List Int) (t : State n) :
    (m.moved k o t).wiring = m.wiring := rfl

@[simp] theorem moved_state (m : Machine n) (k : Nat) (o : List Int) (t : State n) :
    (m.moved k o t).state = t := rfl

@[simp] theorem moved_steps (m : Machine n) (k : Nat) (o : List Int) (t : State n) :
    (m.moved k o t).steps = m.steps + k := rfl

@[simp] theorem moved_outputs (m : Machine n) (k : Nat) (o : List Int) (t : State n) :
    (m.moved k o t).outputs = m.outputs ++ o.toArray := rfl

@[simp] theorem moved_halted (m : Machine n) (k : Nat) (o : List Int) (t : State n) :
    (m.moved k o t).halted = t.halted := rfl

theorem moved_zero (m : Machine n) : m.moved 0 [] m.state = m := by
  simp [moved]

theorem moved_moved (m : Machine n) (j k : Nat) (o p : List Int) (t u : State n) :
    (m.moved j o t).moved k p u = m.moved (j + k) (o ++ p) u := by
  simp [moved, Nat.add_assoc]

theorem after_eq_moved (m : Machine n) (next : Step n) :
    m.after next = m.moved 1 next.event.output?.toList next.next := by
  unfold after record
  cases next.event.output? <;> simp [moved]

theorem step_eq_ok_iff {m last : Machine n} :
    m.step = .ok last ↔ ∃ next, m.state.step m.wiring = .ok next ∧ last = m.after next := by
  rw [step_eq_map_attempt, attempt]
  simp only [Except.map_eq_ok_iff, Except.mapError_eq_ok_iff, eq_comm (b := last)]

theorem step_eq_error_iff {m : Machine n} {failure : Failure (Machine n)} :
    m.step = .error failure ↔
      ∃ f, m.state.step m.wiring = .error f ∧ failure = m.failing f := by
  rw [step_eq_map_attempt, attempt]
  simp only [Except.map_eq_error_iff, Except.mapError_eq_error_iff, eq_comm (b := failure)]

/-! ## Bounded runs -/

/-- The first steps of a bounded run. -/
theorem runFor_add_of_run {m : Machine n} {j : Nat} {o : List Int} {t : State n}
    (h : m.state.Run m.wiring j o t) (k : Nat) :
    m.runFor (j + k) = (m.moved j o t).runFor k := by
  generalize hs : m.state = s at h
  generalize hw : m.wiring = w at h
  induction h generalizing m with
  | refl =>
    subst hs
    rw [Nat.zero_add, moved_zero]
  | @step j s t next o hh hstep _ ih =>
    subst hs hw
    have hm : m.step = .ok (m.after next) := step_eq_ok_iff.2 ⟨next, hstep, rfl⟩
    rw [Nat.add_right_comm, runFor, if_neg (by simpa [halted] using hh), hm]
    simp only [after_eq_moved]
    rw [ih (m := m.moved 1 _ next.next) rfl rfl, moved_moved, Nat.add_comm 1 j]

theorem runFor_of_run {m : Machine n} {k : Nat} {o : List Int} {t : State n}
    (h : m.state.Run m.wiring k o t) : m.runFor k = .ok (m.moved k o t) := by
  rw [show k = k + 0 from rfl, runFor_add_of_run h 0]
  rfl

/-- A bounded run that does not fail takes all its steps, or fewer and halts. -/
theorem exists_run_of_runFor_ok {m last : Machine n} {k : Nat} (h : m.runFor k = .ok last) :
    ∃ j o t, m.state.Run m.wiring j o t ∧ last = m.moved j o t ∧
      (j = k ∨ j ≤ k ∧ t.halted = true) := by
  induction k generalizing m with
  | zero =>
    obtain rfl := Except.ok.inj h
    exact ⟨0, [], m.state, .refl _, (moved_zero m).symm, .inl rfl⟩
  | succ k ih =>
    rw [runFor] at h
    split at h
    · next hh =>
      obtain rfl := Except.ok.inj h
      exact ⟨0, [], m.state, .refl _, (moved_zero m).symm, .inr ⟨Nat.zero_le _, hh⟩⟩
    · next hh =>
      split at h
      · cases h
      · next m' hm' =>
        obtain ⟨next, hnext, rfl⟩ := step_eq_ok_iff.1 hm'
        rw [after_eq_moved] at h
        obtain ⟨j, o, t, hrun, rfl, hj⟩ := ih h
        refine ⟨j + 1, _, t, .step (by simpa [halted] using hh) hnext hrun, ?_, ?_⟩
        · rw [moved_moved, Nat.add_comm 1 j]
        · exact hj.imp (congrArg (· + 1)) fun h => ⟨Nat.succ_le_succ h.1, h.2⟩

/-- A bounded run that fails does so in the step after some run. -/
theorem exists_run_of_runFor_error {m : Machine n} {k : Nat} {failure : Failure (Machine n)}
    (h : m.runFor k = .error failure) :
    ∃ j o t, j < k ∧ m.state.Run m.wiring j o t ∧ t.halted = false ∧
      (m.moved j o t).step = .error failure := by
  induction k generalizing m with
  | zero => cases h
  | succ k ih =>
    rw [runFor] at h
    split at h
    · cases h
    · next hh =>
      split at h
      · next f hf =>
        cases h
        refine ⟨0, [], m.state, Nat.succ_pos k, .refl _, by simpa [halted] using hh, ?_⟩
        rw [moved_zero, hf]
      · next m' hm' =>
        obtain ⟨next, hnext, rfl⟩ := step_eq_ok_iff.1 hm'
        rw [after_eq_moved] at h
        obtain ⟨j, o, t, hj, hrun, ht, hfail⟩ := ih h
        refine ⟨j + 1, _, t, by omega, .step (by simpa [halted] using hh) hnext hrun, ht, ?_⟩
        rw [← hfail, moved_moved, Nat.add_comm 1 j]

/-! ## Runs without a budget -/

/-- What it means for a run without a budget to end in a given way: with the counter outside the
program, with a fault in the step after `k` completed ones, or never. -/
def Ends (m : Machine n) : Completion n → Prop
  | .halted last => ∃ k, m.runFor k = .ok last ∧ last.halted = true
  | .crashed failure => ∃ k last, m.runFor k = .ok last ∧ last.steps = m.steps + k ∧
      last.halted = false ∧ last.step = .error failure
  | .endless => ∀ k, ∃ last, m.runFor k = .ok last ∧ last.halted = false

theorem ends_halted_iff {m last : Machine n} :
    m.Ends (.halted last) ↔
      ∃ k o t, m.state.Run m.wiring k o t ∧ t.halted = true ∧ last = m.moved k o t := by
  constructor
  · rintro ⟨k, hk, hh⟩
    obtain ⟨j, o, t, hrun, rfl, -⟩ := exists_run_of_runFor_ok hk
    exact ⟨j, o, t, hrun, hh, rfl⟩
  · rintro ⟨k, o, t, hrun, hh, rfl⟩
    exact ⟨k, runFor_of_run hrun, hh⟩

theorem ends_crashed_iff {m : Machine n} {failure : Failure (Machine n)} :
    m.Ends (.crashed failure) ↔ ∃ k o t, m.state.Run m.wiring k o t ∧ t.halted = false ∧
      (m.moved k o t).step = .error failure := by
  constructor
  · rintro ⟨k, last, hk, -, hh, hf⟩
    obtain ⟨j, o, t, hrun, rfl, -⟩ := exists_run_of_runFor_ok hk
    exact ⟨j, o, t, hrun, hh, hf⟩
  · rintro ⟨k, o, t, hrun, hh, hf⟩
    exact ⟨k, _, runFor_of_run hrun, rfl, hh, hf⟩

theorem ends_endless_iff {m : Machine n} :
    m.Ends .endless ↔ ∀ k, ∃ o t, m.state.Run m.wiring k o t := by
  constructor
  · intro h k
    obtain ⟨last, hk, hh⟩ := h k
    obtain ⟨j, o, t, hrun, rfl, rfl | ⟨-, ht⟩⟩ := exists_run_of_runFor_ok hk
    · exact ⟨o, t, hrun⟩
    · simp [ht] at hh
  · intro h k
    obtain ⟨o, t, hrun⟩ := h k
    obtain ⟨p, u, hrun'⟩ := h (k + 1)
    exact ⟨_, runFor_of_run hrun, hrun.halted_eq_false (Nat.lt_succ_self k) hrun'⟩

/-- A run that stops does not go on forever. -/
theorem not_endless_of_stops {m : Machine n} {k : Nat} {o : List Int} {t : State n}
    (hrun : m.state.Run m.wiring k o t) (ht : t.Stops m.wiring) : ¬ m.Ends .endless := by
  intro h
  obtain ⟨p, u, hrun'⟩ := ends_endless_iff.1 h (k + 1)
  exact Nat.not_succ_le_self k (hrun.le_of_stops ht hrun')

theorem stops_of_step_error {m : Machine n} {failure : Failure (Machine n)}
    (h : m.step = .error failure) : m.state.Stops m.wiring := by
  obtain ⟨f, hf, -⟩ := step_eq_error_iff.1 h
  exact .inr ⟨f, hf⟩

/-- A run ends in one way at most. -/
theorem Ends.unique {m : Machine n} {c d : Completion n} (hc : m.Ends c) (hd : m.Ends d) :
    c = d := by
  cases c with
  | halted last =>
    obtain ⟨j, o, t, hrun, ht, rfl⟩ := ends_halted_iff.1 hc
    cases d with
    | halted last' =>
      obtain ⟨k, p, u, hrun', hu, rfl⟩ := ends_halted_iff.1 hd
      obtain ⟨rfl, rfl, rfl⟩ := hrun.eq_of_stops (.inl ht) hrun' (.inl hu)
      rfl
    | crashed failure =>
      obtain ⟨k, p, u, hrun', hu, hf⟩ := ends_crashed_iff.1 hd
      obtain ⟨rfl, rfl, rfl⟩ := hrun.eq_of_stops (.inl ht) hrun' (stops_of_step_error hf)
      simp [ht] at hu
    | endless => exact absurd hd (not_endless_of_stops hrun (.inl ht))
  | crashed failure =>
    obtain ⟨j, o, t, hrun, ht, hf⟩ := ends_crashed_iff.1 hc
    cases d with
    | halted last' =>
      obtain ⟨k, p, u, hrun', hu, rfl⟩ := ends_halted_iff.1 hd
      obtain ⟨rfl, rfl, rfl⟩ := hrun.eq_of_stops (stops_of_step_error hf) hrun' (.inl hu)
      simp [ht] at hu
    | crashed failure' =>
      obtain ⟨k, p, u, hrun', hu, hf'⟩ := ends_crashed_iff.1 hd
      obtain ⟨rfl, rfl, rfl⟩ :=
        hrun.eq_of_stops (stops_of_step_error hf) hrun' (stops_of_step_error hf')
      rw [hf] at hf'
      cases hf'
      rfl
    | endless => exact absurd hd (not_endless_of_stops hrun (stops_of_step_error hf))
  | endless =>
    cases d with
    | halted last' =>
      obtain ⟨k, p, u, hrun, hu, -⟩ := ends_halted_iff.1 hd
      exact absurd hc (not_endless_of_stops hrun (.inl hu))
    | crashed failure =>
      obtain ⟨k, p, u, hrun, hu, hf⟩ := ends_crashed_iff.1 hd
      exact absurd hc (not_endless_of_stops hrun (stops_of_step_error hf))
    | endless => rfl

end Machine

end WordMachine

import WordMachine.Cycle
import WordMachine.Proofs.StateSpace

/-!
# What the analysis of a run can report

`Watched check m limit r` lists the ways in which an analysis of `m` that may take `limit` steps can
end, each with the run that leads there: no state of that run was met twice before its end, and
the check accepted all it emitted. `watched_analyze` says that the analysis ends in one of them.

The table of states that the loop carries along holds exactly the states of the run so far, each
with the number of steps and of emitted values at which it was met. `watch_round` is one round of
the loop for all checks and allowances at once; what more steps or another check change follows
from it by induction.
-/

namespace WordMachine

variable {n : Nat} {σ : Type}

/-- Shows values to a check, one after the other. -/
def Check.feed (check : Check σ) (c : σ) (values : List Int) : Option σ :=
  values.foldlM check.accept c

theorem Check.feed_append (check : Check σ) (c : σ) (vs ws : List Int) :
    check.feed c (vs ++ ws) = (check.feed c vs).bind (check.feed · ws) :=
  List.foldlM_append

namespace Machine

/-- The analysis of `m` came to the state `t` after `k` steps, which emitted `o`: no state was met
twice before, and the check accepted every value. -/
structure Passed (check : Check σ) (m : Machine n) (k : Nat) (c : σ) (o : List Int)
    (t : State n) : Prop where
  run : m.state.Run m.wiring k o t
  distinct : m.state.Distinct m.wiring k
  accepted : check.feed check.init o = some c

inductive Watched (check : Check σ) (m : Machine n) (limit : Nat) :
    Except (Failure (Machine n)) (Report n) → Prop where
  | halted {k : Nat} {c : σ} {o : List Int} {t : State n} : Passed check m k c o t → k ≤ limit →
      t.halted = true → Watched check m limit (.ok ⟨.halted, m.moved k o t⟩)
  | stepLimit {c : σ} {o : List Int} {t : State n} : Passed check m limit c o t →
      t.halted = false → Watched check m limit (.ok ⟨.stepLimit, m.moved limit o t⟩)
  | cycle {k i : Nat} {c : σ} {o p : List Int} {t : State n} : Passed check m k c o t →
      k < limit → t.halted = false → i < k → m.state.Run m.wiring i p t →
      Watched check m limit
        (.ok ⟨.cycle (m.steps + i) (k - i) (o.drop p.length), m.moved k o t⟩)
  | crashed {k : Nat} {c : σ} {o : List Int} {t : State n} {failure : Failure (Machine n)} :
      Passed check m k c o t → m.state.Distinct m.wiring (k + 1) → k < limit → t.halted = false →
      (m.moved k o t).step = .error failure → Watched check m limit (.error failure)
  | rejected {k : Nat} {c : σ} {o : List Int} {t : State n} {next : Step n} {v : Int} :
      Passed check m k c o t → m.state.Distinct m.wiring (k + 1) → k < limit → t.halted = false →
      t.step m.wiring = .ok next → next.event.output? = some v → check.accept c v = none →
      Watched check m limit (.ok ⟨.rejected, m.moved (k + 1) (o ++ [v]) next.next⟩)

/-- The table holds the states before the last of the first `k` steps, with where they were met. -/
def Recorded (m : Machine n) (k : Nat) (seen : Std.HashMap (State n) Mark) : Prop :=
  ∀ s mark, seen[s]? = some mark ↔ ∃ i p, i < k ∧ m.state.Run m.wiring i p s ∧
    mark = ⟨m.steps + i, m.outputs.size + p.length⟩

theorem Recorded.empty (m : Machine n) : Recorded m 0 ∅ := by
  intro s mark
  simp

theorem Recorded.distinct {m : Machine n} {k : Nat} {seen : Std.HashMap (State n) Mark}
    (h : Recorded m k seen) : m.state.Distinct m.wiring k := by
  rintro i j p q t u hij hjk hp hq rfl
  have hi := (h t _).2 ⟨i, p, by omega, hp, rfl⟩
  have hj := (h t _).2 ⟨j, q, hjk, hq, rfl⟩
  rw [hi] at hj
  simp only [Option.some.injEq, Mark.mk.injEq] at hj
  omega

theorem Recorded.insert {m : Machine n} {k : Nat} {seen : Std.HashMap (State n) Mark}
    {o : List Int} {t : State n} (h : Recorded m k seen) (hrun : m.state.Run m.wiring k o t)
    (hnew : seen[t]? = none) :
    Recorded m (k + 1) (seen.insert t ⟨m.steps + k, m.outputs.size + o.length⟩) := by
  intro s mark
  rw [Std.HashMap.getElem?_insert]
  split
  · next hts =>
    obtain rfl := eq_of_beq hts
    constructor
    · intro hmark
      exact ⟨k, o, Nat.lt_succ_self k, hrun, (Option.some.inj hmark).symm⟩
    · rintro ⟨i, p, hi, hp, rfl⟩
      rcases Nat.lt_succ_iff_lt_or_eq.1 hi with hlt | rfl
      · rw [(h t _).2 ⟨i, p, hlt, hp, rfl⟩] at hnew
        cases hnew
      · obtain ⟨rfl, -⟩ := hrun.det hp
        rfl
  · next hts =>
    rw [h s mark]
    constructor
    · rintro ⟨i, p, hi, hp, rfl⟩
      exact ⟨i, p, Nat.lt_succ_of_lt hi, hp, rfl⟩
    · rintro ⟨i, p, hi, hp, rfl⟩
      rcases Nat.lt_succ_iff_lt_or_eq.1 hi with hlt | rfl
      · exact ⟨i, p, hlt, hp, rfl⟩
      · obtain ⟨-, rfl⟩ := hrun.det hp
        simp at hts

/-- The lap of a repeated state, as the loop cuts it out of all emitted values. -/
theorem lap_eq_drop (m : Machine n) (k : Nat) (o p : List Int) (t : State n) :
    (m.moved k o t).outputs.toList.drop (m.outputs.size + p.length) = o.drop p.length := by
  rw [moved_outputs, Array.toList_append, ← Array.length_toList, List.drop_append]
  simp

/-- The loop from a point it came to ends in a way `Watched` lists. -/
theorem watched_watch (check : Check σ) (m : Machine n) {limit : Nat} :
    ∀ (fuel k : Nat) (seen : Std.HashMap (State n) Mark) (c : σ) (o : List Int) (t : State n),
      k + fuel = limit → Recorded m k seen → Passed check m k c o t →
      Watched check m limit ((m.moved k o t).watch check fuel seen c)
  | 0, k, seen, c, o, t, hk, _, hpass => by
    obtain rfl : k = limit := hk
    rw [watch, moved_halted]
    split
    · next ht => exact .halted hpass (Nat.le_refl k) ht
    · next ht => exact .stepLimit hpass (by simpa using ht)
  | fuel + 1, k, seen, c, o, t, hk, hseen, hpass => by
    have hlt : k < limit := by omega
    rw [watch, moved_halted]
    split
    · next ht => exact .halted hpass (Nat.le_of_lt hlt) ht
    · next ht =>
      rw [Bool.not_eq_true] at ht
      split
      · next mark hmark =>
        obtain ⟨i, p, hi, hp, rfl⟩ := (hseen t mark).1 hmark
        simp only [lap_eq_drop, moved_steps, Nat.add_sub_add_left]
        exact .cycle hpass hlt ht hi hp
      · next hnew =>
        have hseen' := hseen.insert hpass.run hnew
        split
        · next failure hfail =>
          refine .crashed hpass hseen'.distinct hlt ht ?_
          rw [step_eq_map_attempt, hfail]
          rfl
        · next next hnext =>
          have hstep : t.step m.wiring = .ok next := Except.mapError_eq_ok_iff.1 hnext
          have hrun := hpass.run.trans (.single ht hstep)
          have hmark : Mark.mk (m.moved k o t).steps (m.moved k o t).outputs.size =
              ⟨m.steps + k, m.outputs.size + o.length⟩ := by simp
          simp only [hmark, after_eq_moved, moved_moved]
          split
          · next hquiet =>
            rw [hquiet] at hrun ⊢
            refine watched_watch check m fuel (k + 1) _ c _ next.next (by omega) hseen' ?_
            exact ⟨hrun, hseen'.distinct, by simpa using hpass.accepted⟩
          · next v hv =>
            rw [hv] at hrun ⊢
            split
            · next c' hc' =>
              refine watched_watch check m fuel (k + 1) _ c' _ next.next (by omega) hseen' ?_
              refine ⟨hrun, hseen'.distinct, ?_⟩
              rw [Check.feed_append, hpass.accepted]
              simpa [Check.feed] using hc'
            · next hc' => exact .rejected hpass hseen'.distinct hlt ht hstep hv hc'

theorem watched_analyze (check : Check σ) (budget : Option Int) (m : Machine n) :
    Watched check m (m.allowance budget) (m.analyze check budget) := by
  have h := watched_watch check m (m.allowance budget) 0 ∅ check.init [] m.state (Nat.zero_add _)
    (.empty m) ⟨.refl _, (Recorded.empty m).distinct, rfl⟩
  rwa [moved_zero] at h

/-- No analysis takes more steps than there are states. -/
theorem Watched.steps_le {check : Check σ} {m : Machine n} {limit : Nat} {r : Report n}
    (h : Watched check m limit (.ok r)) : r.machine.steps ≤ m.steps + m.state.count := by
  cases h with
  | halted hpass => exact Nat.add_le_add_left (hpass.run.le_count hpass.distinct) _
  | stepLimit hpass => exact Nat.add_le_add_left (hpass.run.le_count hpass.distinct) _
  | cycle hpass => exact Nat.add_le_add_left (hpass.run.le_count hpass.distinct) _
  | rejected hpass hdistinct _ ht hstep =>
    exact Nat.add_le_add_left ((hpass.run.trans (.single ht hstep)).le_count hdistinct) _

/-! ## One round of the loop -/

/-- The values emitted until an analysis came to its end, be it a fault. -/
def emitted : Except (Failure (Machine n)) (Report n) → List Int
  | .ok r => r.outputs
  | .error failure => failure.left.outputs.toList

/-- A round ends the analysis before any step, whatever the check, or it takes a step, shows the
check what the step emitted, and goes on unless that is refused. -/
theorem watch_round (seen : Std.HashMap (State n) Mark) (m : Machine n) :
    (∃ r, emitted r = m.outputs.toList ∧
      ∀ (σ : Type) (check : Check σ) (c : σ) (k : Nat), m.watch check (k + 1) seen c = r) ∨
    ∃ next, m.halted = false ∧ m.state.step m.wiring = .ok next ∧
      ∀ (σ : Type) (check : Check σ) (c : σ) (k : Nat), m.watch check (k + 1) seen c =
        match check.feed c next.event.output?.toList with
        | some c => (m.after next).watch check k
            (seen.insert m.state ⟨m.steps, m.outputs.size⟩) c
        | none => .ok ⟨.rejected, m.after next⟩ := by
  cases hhalt : m.halted with
  | true =>
    refine .inl ⟨.ok ⟨.halted, m⟩, rfl, fun σ check c k => ?_⟩
    rw [watch, if_pos hhalt]
  | false =>
    cases hseen : seen[m.state]? with
    | some mark =>
      exact .inl ⟨_, rfl, fun σ check c k => by simp only [watch, hhalt, hseen]; rfl⟩
    | none =>
      cases hnext : m.attempt with
      | error failure =>
        refine .inl ⟨.error failure, ?_, fun σ check c k => ?_⟩
        · obtain ⟨f, -, rfl⟩ := Except.mapError_eq_error_iff.1 hnext
          rfl
        · simp only [watch, hhalt, hseen, hnext]
          rfl
      | ok next =>
        refine .inr ⟨next, rfl, Except.mapError_eq_ok_iff.1 hnext, fun σ check c k => ?_⟩
        simp only [watch, hhalt, hseen, hnext]
        cases hout : next.event.output? with
        | none => simp [Check.feed]
        | some v => cases haccept : check.accept c v <;> simp [Check.feed, haccept]

/-- What was emitted before the loop began stays at the front. -/
theorem outputs_prefix_emitted (check : Check σ) (fuel : Nat)
    (seen : Std.HashMap (State n) Mark) (c : σ) (m : Machine n) :
    m.outputs.toList <+: emitted (m.watch check fuel seen c) := by
  induction fuel generalizing seen c m with
  | zero => exact List.prefix_rfl
  | succ fuel ih =>
    obtain ⟨r, hr, hround⟩ | ⟨next, -, -, hround⟩ := watch_round seen m
    · rw [hround, hr]
    · have hafter : m.outputs.toList <+: (m.after next).outputs.toList := by
        rw [after_eq_moved, moved_outputs, Array.toList_append]
        exact List.prefix_append _ _
      rw [hround]
      cases check.feed c next.event.output?.toList with
      | none => exact hafter
      | some c => exact hafter.trans (ih _ c _)

theorem watch_of_halted {m : Machine n} (h : m.halted = true) (check : Check σ) (k : Nat)
    (seen : Std.HashMap (State n) Mark) (c : σ) :
    m.watch check k seen c = .ok ⟨.halted, m⟩ := by
  cases k <;> simp [watch, h]

/-- More steps change nothing once the loop has come to an end of its own; a loop that ran out of
steps goes on from where it was. -/
theorem watch_add_cases (check : Check σ) (extra fuel : Nat) (seen : Std.HashMap (State n) Mark)
    (c : σ) (m : Machine n) :
    m.watch check (fuel + extra) seen c = m.watch check fuel seen c ∨
    ∃ last seen' c', m.watch check fuel seen c = .ok ⟨.stepLimit, last⟩ ∧
      m.watch check (fuel + extra) seen c = last.watch check extra seen' c' := by
  induction fuel generalizing seen c m with
  | zero =>
    rw [Nat.zero_add]
    cases hhalt : m.halted with
    | true => exact .inl (by simp only [watch_of_halted hhalt])
    | false => exact .inr ⟨m, seen, c, by simp [watch, hhalt], rfl⟩
  | succ fuel ih =>
    rw [Nat.add_right_comm]
    obtain ⟨r, -, hround⟩ | ⟨next, -, -, hround⟩ := watch_round seen m
    · exact .inl (by rw [hround, hround])
    · rw [hround, hround]
      cases check.feed c next.event.output?.toList with
      | none => exact .inl rfl
      | some c => exact ih _ c _

theorem watch_add (check : Check σ) (extra fuel : Nat) (seen : Std.HashMap (State n) Mark) (c : σ)
    (m : Machine n) (h : ∀ last, m.watch check fuel seen c ≠ .ok ⟨.stepLimit, last⟩) :
    m.watch check (fuel + extra) seen c = m.watch check fuel seen c :=
  (watch_add_cases check extra fuel seen c m).resolve_right fun ⟨last, _, _, hlimit, _⟩ =>
    h last hlimit

/-! ## Loaded machines -/

theorem load_fresh {setup : Setup} {program : Program} {registers : Registers n} {m : Machine n}
    (h : load setup program registers = .ok m) : m.steps = 0 ∧ m.outputs = #[] := by
  obtain ⟨ip, -, h⟩ := Except.bind_eq_ok_iff.1 h
  obtain ⟨_, -, h⟩ := Except.bind_eq_ok_iff.1 h
  cases h
  exact ⟨rfl, rfl⟩

/-- After a run from a fresh machine, the machine shows the run's length and values as they are. -/
theorem outputs_of_fresh {m : Machine n} (h : m.outputs = #[]) (k : Nat) (o : List Int)
    (t : State n) : (m.moved k o t).outputs.toList = o := by
  rw [moved_outputs, h, Array.toList_append, List.nil_append]

theorem runFor_steps_of_fresh {m : Machine n} {k : Nat} {o : List Int} {t : State n}
    (h : m.steps = 0) (hrun : m.state.Run m.wiring k o t) :
    m.runFor (m.moved k o t).steps = .ok (m.moved k o t) := by
  rw [moved_steps, h, Nat.zero_add]
  exact runFor_of_run hrun

end Machine

theorem analyze_of_load {setup : Setup} {check : Check σ} {budget : Option Int}
    {program : Program} {registers : Registers n} {m : Machine n}
    (h : Machine.load setup program registers = .ok m) :
    analyze setup check budget program registers = (m.analyze check budget).mapError (·.fault) := by
  rw [analyze, h]
  rfl

end WordMachine

import Mathlib
import WordMachine.Proofs.Watch

/-!
# Lassos

A run that meets a state twice goes on from there as it did the first time, so it never ends: its
states form a lasso, and so do the values it emits. `Machine.Runs m run` names the machines of such
a run, `run k` being the one after `k` steps, and `Machine.Emits m i v` the values of its stream.

The analysis reports the lasso exactly: where it closes first, how long a lap is, and what a lap
emits.
-/

namespace WordMachine

variable {n : Nat} {w : Wiring n}

/-! ## Periodic sequences -/

theorem eq_of_periodic {α : Type} {x : Nat → α} {i l : Nat} (h : ∀ k, i ≤ k → x (k + l) = x k)
    (c : Nat) {k : Nat} (hk : i ≤ k) : x (k + c * l) = x k := by
  induction c with
  | zero => simp
  | succ c ih => rw [Nat.succ_mul, ← Nat.add_assoc, h _ (by omega), ih]

/-- A sequence that is periodic from `i` on with period `l`, and has no two equal members before
`i + l`, is periodic neither from an earlier point on nor with a smaller period. -/
theorem period_least {α : Type} {x : Nat → α} {i l j d : Nat}
    (hper : ∀ k, i ≤ k → x (k + l) = x k) (hne : ∀ a b, a < b → b < i + l → x a ≠ x b)
    (hl : 0 < l) (hd : 0 < d) (hper' : ∀ k, j ≤ k → x (k + d) = x k) : i ≤ j ∧ l ≤ d := by
  constructor
  · refine Nat.le_of_not_lt fun hji => ?_
    -- Far out the member at `j` comes again, as one of the lap that starts at `i`.
    obtain ⟨r, c, hr, hk⟩ : ∃ r c, r < l ∧ j + i * d = i + r + c * l := by
      have hid : i ≤ i * d := Nat.le_mul_of_pos_right i hd
      refine ⟨(j + i * d - i) % l, (j + i * d - i) / l, Nat.mod_lt _ hl, ?_⟩
      have := Nat.mod_add_div' (j + i * d - i) l
      omega
    refine hne j (i + r) (by omega) (by omega) ?_
    rw [← eq_of_periodic hper' i (Nat.le_refl j), hk, eq_of_periodic hper c (by omega)]
  · refine Nat.le_of_not_lt fun hdl => ?_
    -- Whole laps later, past `j`, both periods apply to the member at `i`.
    have hjl : j ≤ i + j * l := Nat.le_add_left_of_le (Nat.le_mul_of_pos_right j hl)
    refine hne i (i + d) (by omega) (by omega) ?_
    calc x i = x (i + j * l) := (eq_of_periodic hper j (Nat.le_refl i)).symm
      _ = x (i + j * l + d) := (hper' _ hjl).symm
      _ = x (i + d + j * l) := by rw [Nat.add_right_comm]
      _ = x (i + d) := eq_of_periodic hper j (Nat.le_add_right i d)

/-- The `i`-th of the values `outputs` followed by `lap` over and over. -/
def lasso (outputs lap : List Int) (i : Nat) : Option Int :=
  if i < outputs.length then outputs[i]? else lap[(i - outputs.length) % lap.length]?

theorem getElem?_flatten_replicate (lap : List Int) {j i : Nat} (h : i < j * lap.length) :
    (List.replicate j lap).flatten[i]? = lap[i % lap.length]? := by
  induction j generalizing i with
  | zero => simp at h
  | succ j ih =>
    rw [Nat.succ_mul] at h
    rw [List.replicate_succ, List.flatten_cons]
    rcases Nat.lt_or_ge i lap.length with hi | hi
    · rw [List.getElem?_append_left hi, Nat.mod_eq_of_lt hi]
    · rw [List.getElem?_append_right hi, ih (by omega), ← Nat.mod_eq_sub_mod hi]

theorem length_flatten_replicate (lap : List Int) (j : Nat) :
    (List.replicate j lap).flatten.length = j * lap.length := by
  simp [List.length_flatten]

theorem getElem?_append_laps (outputs lap : List Int) {j i : Nat}
    (h : i < outputs.length + j * lap.length) :
    (outputs ++ (List.replicate j lap).flatten)[i]? = lasso outputs lap i := by
  unfold lasso
  split
  · next hi => rw [List.getElem?_append_left hi]
  · next hi =>
    rw [List.getElem?_append_right (by omega), getElem?_flatten_replicate lap (by omega)]

/-! ## Laps -/

theorem State.Run.laps {l : Nat} {u : State n} {q : List Int} (h : Run w l u q u) :
    ∀ j, Run w (j * l) u (List.replicate j q).flatten u
  | 0 => by simpa using Run.refl u
  | j + 1 => by
    rw [Nat.succ_mul, Nat.add_comm, List.replicate_succ, List.flatten_cons]
    exact h.trans (h.laps j)

namespace Machine

variable {m : Machine n} {run : Nat → Machine n}

/-- A run that meets a state twice never ends. -/
theorem endless_of_repeat {i k : Nat} {o p : List Int} {t : State n} (hik : i < k)
    (h1 : m.state.Run m.wiring i p t) (h2 : m.state.Run m.wiring k o t) : m.Ends .endless := by
  obtain ⟨q, -, hlap⟩ := h1.rest (Nat.le_of_lt hik) h2
  refine ends_endless_iff.2 fun d => ?_
  have hfar := h1.trans (hlap.laps d)
  have hd : d ≤ d * (k - i) := Nat.le_mul_of_pos_right d (by omega)
  obtain ⟨e, he⟩ := Nat.exists_eq_add_of_le (show d ≤ i + d * (k - i) by omega)
  rw [he] at hfar
  obtain ⟨o', _, t', -, hrun, -⟩ := hfar.split
  exact ⟨o', t', hrun⟩

/-! ## Endless runs -/

/-- `run k` is the machine after `k` steps, and the run from `m` never ends. -/
def Runs (m : Machine n) (run : Nat → Machine n) : Prop :=
  ∀ k, m.runFor k = .ok (run k) ∧ (run k).halted = false

theorem exists_runs (h : m.Ends .endless) : ∃ run, m.Runs run := by
  choose run hrun using h
  exact ⟨run, hrun⟩

namespace Runs

theorem exists_run (h : m.Runs run) (k : Nat) :
    ∃ o t, m.state.Run m.wiring k o t ∧ run k = m.moved k o t := by
  obtain ⟨j, o, t, hrun, hk, rfl | ⟨-, ht⟩⟩ := exists_run_of_runFor_ok (h k).1
  · exact ⟨o, t, hrun, hk⟩
  · have := (h k).2
    simp [hk, ht] at this

theorem eq_moved (h : m.Runs run) {k : Nat} {o : List Int} {t : State n}
    (hrun : m.state.Run m.wiring k o t) : run k = m.moved k o t := by
  have := (h k).1
  rw [runFor_of_run hrun] at this
  exact (Except.ok.inj this).symm

theorem wiring_eq (h : m.Runs run) (k : Nat) : (run k).wiring = m.wiring := by
  obtain ⟨o, t, -, hk⟩ := h.exists_run k
  rw [hk, moved_wiring]

/-- Between two points of a run lies a run of states, which emits what the outputs gain. -/
theorem between (h : m.Runs run) (i d : Nat) :
    ∃ o, (run i).state.Run m.wiring d o (run (i + d)).state ∧
      run (i + d) = (run i).moved d o (run (i + d)).state := by
  obtain ⟨o, t, hrun, hk⟩ := h.exists_run (i + d)
  obtain ⟨p, q, u, rfl, hp, hq⟩ := hrun.split
  rw [hk, h.eq_moved hp]
  exact ⟨q, hq, (moved_moved ..).symm⟩

/-- The future of a run depends on the state alone. -/
theorem state_add (h : m.Runs run) {i j : Nat} (hij : (run i).state = (run j).state) (d : Nat) :
    (run (i + d)).state = (run (j + d)).state := by
  obtain ⟨o, hi, -⟩ := h.between i d
  obtain ⟨p, hj, -⟩ := h.between j d
  rw [hij] at hi
  exact (hi.det hj).2

theorem outputs_mono (h : m.Runs run) {i k : Nat} (hik : i ≤ k) :
    (run i).outputs.toList <+: (run k).outputs.toList := by
  obtain ⟨d, rfl⟩ := Nat.exists_eq_add_of_le hik
  obtain ⟨o, -, hk⟩ := h.between i d
  rw [hk, moved_outputs, Array.toList_append]
  exact List.prefix_append _ _

end Runs

/-! ## The stream of emitted values -/

/-- The value that the next step emits, if it emits one. -/
def emission? (m : Machine n) : Option Int :=
  match m.attempt with
  | .ok next => next.event.output?
  | .error _ => none

/-- The `i`-th value that the run from `m` emits is `v`. -/
def Emits (m : Machine n) (i : Nat) (v : Int) : Prop :=
  ∃ k last, m.runFor k = .ok last ∧ last.outputs[i]? = some v

namespace Runs

/-- The outputs gain what the steps between emit. -/
theorem outputs_add (h : m.Runs run) (i : Nat) :
    ∀ d, (run (i + d)).outputs.toList =
      (run i).outputs.toList ++ (List.range' i d).filterMap fun k => (run k).emission?
  | 0 => by simp
  | d + 1 => by
    obtain ⟨o, hrun, hk⟩ := h.between (i + d) 1
    obtain ⟨next, hstep, rfl, -⟩ := hrun.exists_step
    have hemit : (run (i + d)).emission? = next.event.output? := by
      rw [emission?, attempt, h.wiring_eq, hstep]
      rfl
    rw [← Nat.add_assoc, hk, moved_outputs, Array.toList_append, h.outputs_add i d,
      List.range'_concat, List.filterMap_append, ← List.append_assoc, Nat.one_mul]
    cases hv : next.event.output? <;> simp [hemit, hv]

theorem emits_iff (h : m.Runs run) {i : Nat} {v : Int} :
    m.Emits i v ↔ ∃ k, (run k).outputs[i]? = some v := by
  constructor
  · rintro ⟨k, last, hk, hv⟩
    rw [(h k).1] at hk
    cases hk
    exact ⟨k, hv⟩
  · rintro ⟨k, hv⟩
    exact ⟨k, run k, (h k).1, hv⟩

end Runs

/-! ## Closed runs -/

/-- The lasso of an endless run closes: after `length` steps more the state after `start` steps
comes again, as the first to do so, and the values emitted since are `lap`. -/
structure Closes (m : Machine n) (run : Nat → Machine n) (start length : Nat) (lap : List Int) :
    Prop where
  runs : m.Runs run
  length_pos : 0 < length
  distinct : ∀ i j, i < j → j < start + length → (run i).state ≠ (run j).state
  state_eq : (run (start + length)).state = (run start).state
  outputs_eq : (run (start + length)).outputs.toList = (run start).outputs.toList ++ lap

namespace Closes

variable {start length : Nat} {lap : List Int}

theorem periodic (h : m.Closes run start length lap) {k : Nat} (hk : start ≤ k) :
    (run (k + length)).state = (run k).state := by
  obtain ⟨d, rfl⟩ := Nat.exists_eq_add_of_le hk
  rw [Nat.add_right_comm]
  exact h.runs.state_add h.state_eq d

/-- The outputs gain a lap at a time. -/
theorem outputs_laps (h : m.Closes run start length lap) (j : Nat) :
    (run (start + length + j * length)).outputs.toList =
      (run (start + length)).outputs.toList ++ (List.replicate j lap).flatten := by
  obtain ⟨q, hrun, hk⟩ := h.runs.between start length
  obtain ⟨p, hrun', hk'⟩ := h.runs.between (start + length) (j * length)
  rw [h.state_eq] at hrun hrun'
  obtain ⟨rfl, -⟩ := (hrun.laps j).det hrun'
  have hq : q = lap := by
    have := h.outputs_eq
    rw [hk, moved_outputs, Array.toList_append] at this
    simpa using this
  rw [hk', moved_outputs, Array.toList_append, hq]

/-- The stream is the outputs up to where the lasso closes, followed by the lap over and over. -/
theorem emits_iff (h : m.Closes run start length lap) (k : Nat) (v : Int) :
    m.Emits k v ↔ lasso (run (start + length)).outputs.toList lap k = some v := by
  rw [h.runs.emits_iff]
  constructor
  · rintro ⟨d, hv⟩
    -- The values emitted in `d` steps are among those of as many further laps.
    have hd : d ≤ start + length + d * length :=
      Nat.le_add_left_of_le (Nat.le_mul_of_pos_right d h.length_pos)
    obtain ⟨rest, hrest⟩ := h.runs.outputs_mono hd
    rw [h.outputs_laps] at hrest
    rw [← Array.getElem?_toList] at hv
    have hk := (List.getElem?_eq_some_iff.1 hv).1
    rw [← getElem?_append_laps _ lap, ← hrest, List.getElem?_append_left hk, hv]
    have := congrArg List.length hrest
    rw [List.length_append, List.length_append, length_flatten_replicate] at this
    omega
  · intro hv
    refine ⟨start + length + (k + 1) * length, ?_⟩
    rw [← Array.getElem?_toList, h.outputs_laps, getElem?_append_laps, hv]
    -- A stream without a lap ends with the outputs; one with a lap has a value in each.
    unfold lasso at hv
    split at hv
    · omega
    · have hpos : 0 < lap.length := by
        rcases Nat.eq_zero_or_pos lap.length with h0 | h0
        · simp [List.length_eq_zero_iff.1 h0] at hv
        · exact h0
      have := Nat.le_mul_of_pos_right (k + 1) hpos
      omega

end Closes

/-- Behind a reported cycle is a run that closes just there, and the check accepted all that was
emitted up to there. -/
theorem closes_of_analyze {σ : Type} {check : Check σ} {budget : Option Int} {last : Machine n}
    {start length : Nat} {lap : List Int} (hsteps : m.steps = 0) (houtputs : m.outputs = #[])
    (h : m.analyze check budget = .ok ⟨.cycle start length lap, last⟩) :
    ∃ run, m.Closes run start length lap ∧ run (start + length) = last ∧
      last.steps = start + length ∧ (check.feed check.init last.outputs.toList).isSome = true := by
  have hwatch := watched_analyze check budget m
  rw [h] at hwatch
  cases hwatch with
  | @cycle k i c o p t hpass _ _ hik hp =>
    obtain ⟨run, hrun⟩ := exists_runs (endless_of_repeat hik hp hpass.run)
    have hi := hrun.eq_moved hp
    have hk := hrun.eq_moved hpass.run
    obtain ⟨q, rfl, -⟩ := hp.rest (Nat.le_of_lt hik) hpass.run
    have hadd : m.steps + i + (k - i) = k := by omega
    refine ⟨run, ⟨hrun, by omega, ?_, ?_, ?_⟩, by rw [hadd, hk], ?_, ?_⟩
    · intro a b hab hb
      obtain ⟨_, ta, ha, hra⟩ := hrun.exists_run a
      obtain ⟨_, tb, hb', hrb⟩ := hrun.exists_run b
      rw [hra, hrb]
      exact hpass.distinct hab (by omega) ha hb'
    · rw [hadd, hk, hsteps, Nat.zero_add, hi]
      rfl
    · rw [hadd, hk, hsteps, Nat.zero_add, hi]
      simp [houtputs]
    · rw [hadd, moved_steps, hsteps, Nat.zero_add]
    · simp [houtputs, hpass.accepted]

end Machine

/-- A reported cycle is exact: it starts and closes where it says, no earlier start and no shorter
lap would do, and the plain run emits what was emitted so far and then the lap over and over. -/
theorem analyze_cycle_exact {σ : Type} {setup : Setup} {check : Check σ} {budget : Option Int}
    {program : Program} {registers : Registers n} {m last : Machine n} {start length : Nat}
    {lap : List Int} (hload : Machine.load setup program registers = .ok m)
    (h : analyze setup check budget program registers = .ok ⟨.cycle start length lap, last⟩) :
    ∃ run, m.Runs run ∧ run last.steps = last ∧ last.steps = start + length ∧ 0 < length ∧
      (∀ i j, i < j → j < last.steps → (run i).state ≠ (run j).state) ∧
      (run last.steps).state = (run start).state ∧
      (∀ k, start ≤ k → (run (k + length)).state = (run k).state) ∧
      (∀ j d, 0 < d → (∀ k, j ≤ k → (run (k + d)).state = (run k).state) →
        start ≤ j ∧ length ≤ d) ∧
      lap <:+ last.outputs.toList ∧
      lap = (List.range' start length).filterMap (fun k => (run k).emission?) ∧
      ∀ i v, m.Emits i v ↔ lasso last.outputs.toList lap i = some v := by
  obtain ⟨hsteps, houtputs⟩ := Machine.load_fresh hload
  rw [analyze_of_load hload] at h
  obtain ⟨run, hcloses, rfl, hlast, -⟩ :=
    Machine.closes_of_analyze hsteps houtputs (Except.mapError_eq_ok_iff.1 h)
  have hlap := hcloses.outputs_eq
  refine ⟨run, hcloses.runs, by rw [hlast], hlast, hcloses.length_pos, ?_, ?_,
    fun k hk => hcloses.periodic hk, ?_, ?_, ?_, hcloses.emits_iff⟩
  · rw [hlast]
    exact hcloses.distinct
  · rw [hlast]
    exact hcloses.state_eq
  · intro j d hd hper
    exact period_least (x := fun k => (run k).state) (fun k => hcloses.periodic) hcloses.distinct
      hcloses.length_pos hd hper
  · rw [hlap]
    exact List.suffix_append _ _
  · rw [hcloses.runs.outputs_add] at hlap
    exact (List.append_cancel_left hlap).symm

/-- A loop that emits its own counter, entered from a state outside the loop. -/
theorem analyze_cycle_exact_counter :
    let program : Program := #[⟨.out, 0, 0, 0⟩, ⟨.seti, -1, 0, 0⟩]
    let registers : Registers 1 := #v[0]
    ∃ m last, Machine.load { ip := some 0 } program registers = .ok m ∧
      analyze { ip := some 0 } .any none program registers = .ok ⟨.cycle 1 2 [0], last⟩ ∧
      ∀ i v, m.Emits i v ↔ lasso last.outputs.toList [0] i = some v := by
  intro program registers
  have hload : Machine.load { ip := some 0 } program registers =
      .ok ⟨⟨some 0, .standard, none⟩, ⟨program, registers, 0⟩, 0, #[]⟩ := rfl
  have hcycle : analyze { ip := some 0 } .any none program registers =
      .ok ⟨.cycle 1 2 [0], ⟨⟨some 0, .standard, none⟩, ⟨program, registers, 1⟩, 3, #[0, 0]⟩⟩ := by
    cbv
  obtain ⟨run, -, -, -, -, -, -, -, -, -, -, hemits⟩ := analyze_cycle_exact hload hcycle
  exact ⟨_, _, hload, hcycle, hemits⟩

end WordMachine

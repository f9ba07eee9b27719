import WordMachine.Clock
import WordMachine.Proofs.Decision

/-!
# Clocks tick forever

A machine is found to be a clock exactly if its run never ends and the `i`-th value it emits is
`i` modulo 2. The check sees finitely many values, but the machine has finitely many states: the
lasso of an alternating run has a lap of even length, and a lap of even length keeps the outputs in
phase each time around.
-/

namespace WordMachine

namespace Clock

/-- The `i`-th value of a clock. -/
def tick (i : Nat) : Int := (i % 2 : Nat)

theorem tick_succ (i : Nat) : tick (i + 1) = 1 - tick i := by
  unfold tick
  omega

theorem tick_add_even (i : Nat) {d : Nat} (hd : d % 2 = 0) : tick (i + d) = tick i := by
  unfold tick
  omega

theorem even_of_tick_add {i d : Nat} (h : tick (i + d) = tick i) : d % 2 = 0 := by
  unfold tick at h
  omega

/-- The values are those of a clock from the `j`-th on. -/
def InPhase (j : Nat) (vs : List Int) : Prop := ∀ i v, vs[i]? = some v → v = tick (j + i)

theorem inPhase_cons {j : Nat} {v : Int} {vs : List Int} :
    InPhase j (v :: vs) ↔ v = tick j ∧ InPhase (j + 1) vs := by
  constructor
  · intro h
    refine ⟨h 0 v rfl, fun i u hu => ?_⟩
    rw [Nat.add_right_comm]
    exact h (i + 1) u (by simpa using hu)
  · rintro ⟨rfl, h⟩ i u hu
    cases i with
    | zero => simpa [eq_comm] using hu
    | succ i =>
      have := h i u (by simpa using hu)
      rwa [Nat.add_right_comm] at this

/-- The check accepts values just if they are in phase, and then knows the phase it is in. -/
theorem feed_check (vs : List Int) (j : Nat) (c : Int) :
    check.feed (tick j) vs = some c ↔ InPhase j vs ∧ c = tick (j + vs.length) := by
  induction vs generalizing j with
  | nil => simp [Check.feed, InPhase, eq_comm]
  | cons v vs ih =>
    have hfeed : check.feed (tick j) (v :: vs) =
        if v = tick j then check.feed (tick (j + 1)) vs else none := by
      simp only [Check.feed, check, List.foldlM_cons, tick_succ]
      split <;> rfl
    rw [hfeed, inPhase_cons, List.length_cons]
    split
    · next hv =>
      rw [ih, show j + (vs.length + 1) = j + 1 + vs.length by omega]
      simp [hv]
    · next hv => simp [hv]

/-- An even lap keeps a lasso in phase. -/
theorem lasso_eq_tick {outputs init lap : List Int} (h : InPhase 0 outputs)
    (hlap : outputs = init ++ lap) (hpos : 0 < lap.length) (heven : lap.length % 2 = 0) (i : Nat) :
    lasso outputs lap i = some (tick i) := by
  have hget : ∀ j, j < outputs.length → outputs[j]? = some (tick j) := by
    intro j hj
    rw [List.getElem?_eq_getElem hj, h j _ (List.getElem?_eq_getElem hj), Nat.zero_add]
  unfold lasso
  split
  · next hi => exact hget i hi
  · next hi =>
    -- The value of the lap at hand was emitted before, an even number of values ago.
    obtain ⟨r, c, hr, hq⟩ : ∃ r c, r < lap.length ∧ i - outputs.length = r + c * lap.length :=
      ⟨_, _, Nat.mod_lt _ hpos, (Nat.mod_add_div' (i - outputs.length) lap.length).symm⟩
    have hlen : outputs.length = init.length + lap.length := by rw [hlap, List.length_append]
    have hback := hget (init.length + r) (by omega)
    rw [hlap, List.getElem?_append_right (Nat.le_add_right _ _), Nat.add_sub_cancel_left] at hback
    rw [hq, Nat.add_mul_mod_self_right, Nat.mod_eq_of_lt hr, hback]
    have hi' : i = init.length + r + (c + 1) * lap.length := by
      rw [Nat.succ_mul]
      omega
    have heven' : (c + 1) * lap.length % 2 = 0 := by
      rw [Nat.mul_mod, heven, Nat.mul_zero, Nat.zero_mod]
    rw [hi', tick_add_even _ heven']

/-- Conversely, the lap of a lasso that ticks has even length, and is not empty. -/
theorem even_of_lasso {outputs lap : List Int} (h : ∀ i, lasso outputs lap i = some (tick i)) :
    0 < lap.length ∧ lap.length % 2 = 0 := by
  have h0 := h outputs.length
  have h1 := h (outputs.length + lap.length)
  rw [lasso, if_neg (Nat.lt_irrefl _), Nat.sub_self, Nat.zero_mod] at h0
  rw [lasso, if_neg (by omega), Nat.add_sub_cancel_left, Nat.mod_self, h0] at h1
  exact ⟨(List.getElem?_eq_some_iff.1 h0).1, even_of_tick_add (Option.some.inj h1).symm⟩

theorem ticks_eq_true_iff {n : Nat} {r : Report n} :
    ticks r = true ↔ ∃ start length lap, r.verdict = .cycle start length lap ∧
      0 < lap.length ∧ lap.length % 2 = 0 := by
  obtain ⟨verdict, m⟩ := r
  cases verdict <;> simp [ticks]

end Clock

namespace Machine

variable {n : Nat} {m : Machine n}

/-- The run never ends, and the `i`-th value it emits is `i` modulo 2. -/
def TicksForever (m : Machine n) : Prop :=
  m.Ends .endless ∧ ∀ i v, m.Emits i v ↔ v = Clock.tick i

theorem ticksForever_of_analyze {budget : Option Int} {last : Machine n} {start length : Nat}
    {lap : List Int} (hsteps : m.steps = 0) (houtputs : m.outputs = #[])
    (h : m.analyze Clock.check budget = .ok ⟨.cycle start length lap, last⟩)
    (hpos : 0 < lap.length) (heven : lap.length % 2 = 0) : m.TicksForever := by
  obtain ⟨run, hcloses, rfl, -, haccept⟩ := closes_of_analyze hsteps houtputs h
  obtain ⟨c, hc⟩ := Option.isSome_iff_exists.1 haccept
  obtain ⟨hphase, -⟩ := (Clock.feed_check _ 0 c).1 hc
  refine ⟨fun k => ⟨run k, hcloses.runs k⟩, fun i v => ?_⟩
  rw [hcloses.emits_iff, Clock.lasso_eq_tick hphase hcloses.outputs_eq hpos heven,
    Option.some.injEq, eq_comm]

theorem exists_cycle_of_ticksForever (hsteps : m.steps = 0) (houtputs : m.outputs = #[])
    (h : m.TicksForever) : ∃ start length lap last,
      m.analyze Clock.check none = .ok ⟨.cycle start length lap, last⟩ ∧
        0 < lap.length ∧ lap.length % 2 = 0 := by
  obtain ⟨hendless, hemits⟩ := h
  have hwatch := watched_analyze Clock.check none m
  generalize hr : m.analyze Clock.check none = r at hwatch
  cases hwatch with
  | halted hpass _ ht => exact absurd hendless (not_endless_of_stops hpass.run (.inl ht))
  | stepLimit => exact absurd hr (analyze_ne_stepLimit _ m _)
  | cycle =>
    obtain ⟨run, hcloses, -, -, -⟩ := closes_of_analyze hsteps houtputs hr
    have hticks : ∀ i, lasso _ _ i = some (Clock.tick i) := fun i =>
      (hcloses.emits_iff i _).1 ((hemits i _).2 rfl)
    exact ⟨_, _, _, _, rfl, Clock.even_of_lasso hticks⟩
  | crashed hpass _ _ _ hf =>
    exact absurd hendless (not_endless_of_stops hpass.run (stops_of_step_error hf))
  | @rejected k c o t next v hpass _ _ ht hstep hv hrefuse =>
    -- The refused value is the one the check expects.
    obtain ⟨-, rfl⟩ := (Clock.feed_check o 0 c).1 hpass.accepted
    have hrun := hpass.run.trans (.single ht hstep)
    rw [hv] at hrun
    have hvalue : v = Clock.tick o.length := (hemits _ v).1 ⟨_, _, runFor_of_run hrun, by
      simp [houtputs]⟩
    simp [Clock.check, hvalue] at hrefuse

end Machine

theorem isClock_eq_true_iff {n : Nat} {setup : Setup} {budget : Option Int} {program : Program}
    {registers : Registers n} {m : Machine n} (h : Machine.load setup program registers = .ok m) :
    isClock setup budget program registers = .ok true ↔ ∃ start length lap last,
      m.analyze Clock.check budget = .ok ⟨.cycle start length lap, last⟩ ∧
        0 < lap.length ∧ lap.length % 2 = 0 := by
  rw [isClock, Except.map_eq_ok_iff]
  simp only [analyze_of_load h, Except.mapError_eq_ok_iff]
  refine ⟨?_, ?_⟩
  · rintro ⟨⟨verdict, last⟩, hr, hticks⟩
    obtain ⟨start, length, lap, rfl, hlap⟩ := Clock.ticks_eq_true_iff.1 hticks
    exact ⟨start, length, lap, last, hr, hlap⟩
  · rintro ⟨start, length, lap, last, hr, hlap⟩
    exact ⟨_, hr, Clock.ticks_eq_true_iff.2 ⟨start, length, lap, rfl, hlap⟩⟩

/-- The clock check decides endless alternation, and with a budget it is still sound. -/
theorem isClock_iff_ticksForever {n : Nat} {setup : Setup} {program : Program}
    {registers : Registers n} {m : Machine n} (h : Machine.load setup program registers = .ok m) :
    (isClock setup none program registers = .ok true ↔ m.TicksForever) ∧
    ∀ budget, isClock setup budget program registers = .ok true → m.TicksForever := by
  obtain ⟨hsteps, houtputs⟩ := Machine.load_fresh h
  have hsound : ∀ budget, isClock setup budget program registers = .ok true → m.TicksForever := by
    intro budget hbudget
    obtain ⟨start, length, lap, last, hr, hpos, heven⟩ := (isClock_eq_true_iff h).1 hbudget
    exact Machine.ticksForever_of_analyze hsteps houtputs hr hpos heven
  refine ⟨⟨hsound none, fun hforever => ?_⟩, hsound⟩
  exact (isClock_eq_true_iff h).2 (Machine.exists_cycle_of_ticksForever hsteps houtputs hforever)

/-- A loop that emits a register and flips it between 0 and 1. -/
def Clock.flipFlop : Program := #[⟨.out, 1, 0, 0⟩, ⟨.eqri, 1, 0, 1⟩, ⟨.seti, -1, 0, 0⟩]

theorem isClock_iff_ticksForever_flipFlop :
    ∃ m, Machine.load { ip := some 0 } Clock.flipFlop (#v[-1, 0] : Registers 2) = .ok m ∧
      isClock { ip := some 0 } none Clock.flipFlop (#v[-1, 0] : Registers 2) = .ok true ∧
      m.TicksForever := by
  have hload : Machine.load { ip := some 0 } Clock.flipFlop (#v[-1, 0] : Registers 2) =
      .ok ⟨⟨some 0, .standard, none⟩, ⟨Clock.flipFlop, #v[-1, 0], 0⟩, 0, #[]⟩ := rfl
  have hclock : isClock { ip := some 0 } none Clock.flipFlop (#v[-1, 0] : Registers 2) =
      .ok true := by
    cbv
  exact ⟨_, hload, hclock, (isClock_iff_ticksForever hload).1.1 hclock⟩

end WordMachine

import WordMachine.Proofs.ClockSignal
import WordMachine.Proofs.Effect
import WordMachine.Proofs.Observation

/-!
# What the wired register holds at the start does not matter

The first step overwrites the register wired to the counter before anything can read it. Two
machines that differ in this register only are therefore equal after one step, and fail alike if
that step fails. An analysis can tell them apart by the state they start from alone: that state may
be part of the lasso of one and not of the other, so the lasso may seem to start one step sooner.
-/

namespace WordMachine

variable {n : Nat} {w : Wiring n}

/-! ## States -/

namespace State

/-- The states have the same program and counter, and registers that differ at most in the one
wired to the counter. -/
structure SameOffPointer (w : Wiring n) (s t : State n) : Prop where
  program : s.program = t.program
  pc : s.pc = t.pc
  registers : ∀ i, w.ip ≠ some i → s.registers.get i = t.registers.get i

namespace SameOffPointer

variable {s t : State n}

theorem refl (s : State n) : SameOffPointer w s s := ⟨rfl, rfl, fun _ _ => rfl⟩

theorem symm (h : SameOffPointer w s t) : SameOffPointer w t s :=
  ⟨h.program.symm, h.pc.symm, fun i hi => (h.registers i hi).symm⟩

theorem halted_eq (h : SameOffPointer w s t) : s.halted = t.halted := by
  rw [halted, halted, h.program, h.pc]

/-- Publishing the counter removes the difference. -/
theorem publish_eq (h : SameOffPointer w s t) : s.publish w = t.publish w := by
  obtain ⟨program, r, pc⟩ := s
  obtain ⟨_, r', _⟩ := t
  obtain ⟨rfl, rfl, hr⟩ := h
  unfold publish
  split
  · next hip =>
    obtain rfl : r = r' := Vector.ext fun i hi => hr ⟨i, hi⟩ (by simp [hip])
    rfl
  · next ip hip =>
    have hassign : ∀ v, r.assign ip v = r'.assign ip v := by
      intro v
      refine Vector.ext fun i hi => ?_
      show (r.assign ip v).get ⟨i, hi⟩ = (r'.assign ip v).get ⟨i, hi⟩
      by_cases heq : ⟨i, hi⟩ = ip
      · rw [heq, Registers.assign_self, Registers.assign_self]
      · rw [Registers.assign_of_ne r v heq, Registers.assign_of_ne r' v heq]
        exact hr ⟨i, hi⟩ fun hsome => heq (Option.some.inj (hip.symm.trans hsome)).symm
    simp only [hassign]

/-- Both take the same step, or both fail with the same fault. -/
theorem step_cases (h : SameOffPointer w s t) :
    (∃ next, s.step w = .ok next ∧ t.step w = .ok next) ∨
    ∃ f g, s.step w = .error f ∧ t.step w = .error g ∧ f.fault = g.fault ∧
      SameOffPointer w f.left g.left := by
  have hpublish := h.publish_eq
  cases ht : t.publish w with
  | error fault =>
    rw [ht] at hpublish
    refine .inr ⟨⟨fault, s⟩, ⟨fault, t⟩, ?_, ?_, rfl, h⟩
    · simp only [step, fetch, hpublish]
    · simp only [step, fetch, ht]
  | ok u =>
    rw [ht] at hpublish
    have hstep : s.step w = t.step w := by simp only [step, fetch, hpublish, ht]
    rw [hstep]
    cases t.step w with
    | error f => exact .inr ⟨f, f, rfl, rfl, rfl, refl f.left⟩
    | ok next => exact .inl ⟨next, rfl, rfl⟩

end SameOffPointer

end State

/-! ## Machines -/

namespace Machine

/-- The machines differ at most in the register wired to the counter. -/
structure SameOffPointer (m m' : Machine n) : Prop where
  wiring : m.wiring = m'.wiring
  steps : m.steps = m'.steps
  outputs : m.outputs = m'.outputs
  state : m.state.SameOffPointer m.wiring m'.state

namespace SameOffPointer

variable {m m' : Machine n}

theorem refl (m : Machine n) : m.SameOffPointer m := ⟨rfl, rfl, rfl, .refl _⟩

theorem symm (h : m.SameOffPointer m') : m'.SameOffPointer m :=
  ⟨h.wiring.symm, h.steps.symm, h.outputs.symm, h.wiring ▸ h.state.symm⟩

theorem halted_eq (h : m.SameOffPointer m') : m.halted = m'.halted := h.state.halted_eq

theorem step_cases (h : m.SameOffPointer m') :
    (∃ last, m.step = .ok last ∧ m'.step = .ok last) ∨
    ∃ f g, m.step = .error f ∧ m'.step = .error g ∧ f.fault = g.fault ∧
      f.left.SameOffPointer g.left := by
  obtain ⟨wiring, s, steps, outputs⟩ := m
  obtain ⟨_, t, _, _⟩ := m'
  obtain ⟨rfl, rfl, rfl, hstate⟩ := h
  rcases hstate.step_cases with ⟨next, hs, ht⟩ | ⟨f, g, hs, ht, hfault, hleft⟩
  · exact .inl ⟨_, step_eq_ok_iff.2 ⟨next, hs, rfl⟩, step_eq_ok_iff.2 ⟨next, ht, rfl⟩⟩
  · exact .inr ⟨_, _, step_eq_error_iff.2 ⟨f, hs, rfl⟩, step_eq_error_iff.2 ⟨g, ht, rfl⟩, hfault,
      rfl, rfl, rfl, hleft⟩

/-- Bounded runs go through the same machines after the start, or fail alike. -/
theorem runFor_cases (h : m.SameOffPointer m') (hgo : m.halted = false) (k : Nat) :
    (∃ a b, m.runFor k = .ok a ∧ m'.runFor k = .ok b ∧ a.SameOffPointer b ∧ (0 < k → a = b)) ∨
    ∃ f g, m.runFor k = .error f ∧ m'.runFor k = .error g ∧ f.fault = g.fault ∧
      f.left.SameOffPointer g.left := by
  cases k with
  | zero => exact .inl ⟨m, m', rfl, rfl, h, fun hpos => absurd hpos (Nat.lt_irrefl 0)⟩
  | succ k =>
    have hgo' := h.halted_eq ▸ hgo
    simp only [runFor, hgo, hgo']
    rcases h.step_cases with ⟨last, hm, hm'⟩ | ⟨f, g, hm, hm', hsame⟩
    · simp only [hm, hm']
      cases last.runFor k with
      | error f => exact .inr ⟨f, f, rfl, rfl, rfl, refl f.left⟩
      | ok a => exact .inl ⟨a, a, rfl, rfl, refl a, fun _ => rfl⟩
    · simp only [hm, hm']
      exact .inr ⟨f, g, rfl, rfl, hsame⟩

theorem exists_runFor (h : m.SameOffPointer m') (hgo : m.halted = false) {k : Nat}
    {last : Machine n} (hlast : m.runFor k = .ok last) :
    ∃ last', m'.runFor k = .ok last' ∧ last.SameOffPointer last' ∧ (0 < k → last = last') := by
  rcases h.runFor_cases hgo k with ⟨a, b, ha, hb, hab⟩ | ⟨f, g, hf, -⟩
  · rw [ha] at hlast
    cases hlast
    exact ⟨b, hb, hab⟩
  · simp [hf] at hlast

theorem emits (h : m.SameOffPointer m') (hgo : m.halted = false) {i : Nat} {v : Int}
    (hv : m.Emits i v) : m'.Emits i v := by
  obtain ⟨k, last, hlast, hv⟩ := hv
  obtain ⟨last', hlast', hsame, -⟩ := h.exists_runFor hgo hlast
  exact ⟨k, last', hlast', hsame.outputs ▸ hv⟩

/-- The runs end in the same way. -/
theorem ends_cases (h : m.SameOffPointer m') (hgo : m.halted = false) :
    (∃ last, m.Ends (.halted last) ∧ m'.Ends (.halted last)) ∨
    (∃ f g, m.Ends (.crashed f) ∧ m'.Ends (.crashed g) ∧ f.fault = g.fault ∧
      f.left.SameOffPointer g.left) ∨
    (m.Ends .endless ∧ m'.Ends .endless) := by
  have hends := ends_complete m
  generalize m.complete = c at hends
  cases c with
  | halted last =>
    obtain ⟨k, hlast, hhalt⟩ := hends
    -- The machine does not start halted, so it has taken a step.
    have hk : 0 < k := by
      rcases Nat.eq_zero_or_pos k with rfl | hk
      · cases hlast
        simp [hgo] at hhalt
      · exact hk
    obtain ⟨last', hlast', -, heq⟩ := h.exists_runFor hgo hlast
    obtain rfl := heq hk
    exact .inl ⟨last, ⟨k, hlast, hhalt⟩, ⟨k, hlast', hhalt⟩⟩
  | crashed f =>
    obtain ⟨k, last, hlast, hsteps, hrunning, hf⟩ := hends
    obtain ⟨last', hlast', hsame, -⟩ := h.exists_runFor hgo hlast
    rcases hsame.step_cases with ⟨next, hnext, -⟩ | ⟨f', g, hf', hg, hfault⟩
    · simp [hf] at hnext
    · rw [hf] at hf'
      cases hf'
      refine .inr (.inl ⟨f, g, ⟨k, last, hlast, hsteps, hrunning, hf⟩,
        ⟨k, last', hlast', ?_, ?_, hg⟩, hfault⟩)
      · rw [← hsame.steps, ← h.steps, hsteps]
      · rw [← hsame.halted_eq, hrunning]
  | endless =>
    refine .inr (.inr ⟨hends, fun k => ?_⟩)
    obtain ⟨last, hlast, hrunning⟩ := hends k
    obtain ⟨last', hlast', hsame, -⟩ := h.exists_runFor hgo hlast
    exact ⟨last', hlast', by rw [← hsame.halted_eq, hrunning]⟩

end SameOffPointer

/-! ## Lassos -/

/-- If two runs agree after their start, the lasso of one closes at most a step later. -/
theorem Closes.le_of_agree {m m' : Machine n} {run run' : Nat → Machine n}
    {start start' length length' : Nat} {lap lap' : List Int}
    (h : m.Closes run start length lap) (h' : m'.Closes run' start' length' lap')
    (hagree : ∀ k, 0 < k → run k = run' k) : start ≤ start' + 1 ∧ length ≤ length' := by
  refine period_least (x := fun k => (run k).state) (fun k => h.periodic) h.distinct h.length_pos
    h'.length_pos fun k hk => ?_
  show (run (k + length')).state = (run k).state
  rw [hagree k (by omega), hagree (k + length') (by omega)]
  exact h'.periodic (by omega)

namespace SameOffPointer

variable {m m' : Machine n}

theorem closes_cases {run run' : Nat → Machine n} {start start' length length' : Nat}
    {lap lap' : List Int} (h : m.SameOffPointer m') (hgo : m.halted = false)
    (hm : m.Closes run start length lap) (hm' : m'.Closes run' start' length' lap') :
    length = length' ∧ start ≤ start' + 1 ∧ start' ≤ start + 1 := by
  have hagree : ∀ k, 0 < k → run k = run' k := by
    intro k hk
    obtain ⟨last, hlast, -, heq⟩ := h.exists_runFor hgo (hm.runs k).1
    rw [(hm'.runs k).1] at hlast
    rw [heq hk, Except.ok.inj hlast]
  obtain ⟨hstart, hlength⟩ := hm.le_of_agree hm' hagree
  obtain ⟨hstart', hlength'⟩ := hm'.le_of_agree hm fun k hk => (hagree k hk).symm
  exact ⟨Nat.le_antisymm hlength hlength', hstart, hstart'⟩

/-! ## Analyses -/

theorem analyze_cases (h : m.SameOffPointer m') (hgo : m.halted = false) (hsteps : m.steps = 0)
    (houtputs : m.outputs = #[]) :
    (∃ last, m.analyze .any none = .ok ⟨.halted, last⟩ ∧
      m'.analyze .any none = .ok ⟨.halted, last⟩) ∨
    (∃ f g, m.analyze .any none = .error f ∧ m'.analyze .any none = .error g ∧
      f.fault = g.fault ∧ f.left.SameOffPointer g.left) ∨
    ∃ start start' length lap lap' last last',
      m.analyze .any none = .ok ⟨.cycle start length lap, last⟩ ∧
      m'.analyze .any none = .ok ⟨.cycle start' length lap', last'⟩ ∧
      start ≤ start' + 1 ∧ start' ≤ start + 1 := by
  have hcompletion := completion?_analyze m
  have hcompletion' := completion?_analyze m'
  rcases h.ends_cases hgo with ⟨last, hm, hm'⟩ | ⟨f, g, hm, hm', hsame⟩ | ⟨hm, hm'⟩
  · rw [complete_eq_iff.2 hm, completion?_eq_halted_iff] at hcompletion
    rw [complete_eq_iff.2 hm', completion?_eq_halted_iff] at hcompletion'
    exact .inl ⟨last, hcompletion, hcompletion'⟩
  · rw [complete_eq_iff.2 hm, completion?_eq_crashed_iff] at hcompletion
    rw [complete_eq_iff.2 hm', completion?_eq_crashed_iff] at hcompletion'
    exact .inr (.inl ⟨f, g, hcompletion, hcompletion', hsame⟩)
  · rw [complete_eq_iff.2 hm, completion?_eq_endless_iff] at hcompletion
    rw [complete_eq_iff.2 hm', completion?_eq_endless_iff] at hcompletion'
    obtain ⟨start, length, lap, last, hr⟩ := hcompletion
    obtain ⟨start', length', lap', last', hr'⟩ := hcompletion'
    obtain ⟨run, hcloses, -⟩ := closes_of_analyze hsteps houtputs hr
    obtain ⟨run', hcloses', -⟩ :=
      closes_of_analyze (h.steps ▸ hsteps) (h.outputs ▸ houtputs) hr'
    obtain ⟨rfl, hstart⟩ := h.closes_cases hgo hcloses hcloses'
    exact .inr (.inr ⟨start, start', length, lap, lap', last, last', hr, hr', hstart⟩)

/-- With a check, too, both analyses fail or none does. -/
theorem analyze_error {σ : Type} {check : Check σ} {f : Failure (Machine n)}
    (h : m.SameOffPointer m') (hgo : m.halted = false) (hsteps : m.steps = 0)
    (houtputs : m.outputs = #[]) (hf : m.analyze check none = .error f) :
    ∃ g, m'.analyze check none = .error g ∧ g.fault = f.fault := by
  have hobserved := observed_analyze check none m
  rw [hf] at hobserved
  generalize hplain : m.analyze .any none = plain at hobserved
  cases hobserved with
  | accepted hemitted haccept =>
    rw [houtputs, List.nil_append] at hemitted
    rcases h.analyze_cases hgo hsteps houtputs with ⟨last, hm, -⟩ |
      ⟨f', g, hm, hm', hfault, hleft⟩ | ⟨start, _, length, lap, _, last, _, hm, -⟩
    · simp [hm] at hplain
    · rw [hm] at hplain
      cases hplain
      have hsame : emitted (m'.analyze .any none) = emitted (.error f) := by
        rw [hm']
        exact congrArg Array.toList hleft.outputs.symm
      rw [← hemitted, ← hsame] at haccept
      exact ⟨g, by rw [analyze_eq_of_accepted (h.outputs ▸ houtputs) haccept, hm'], hfault.symm⟩
    · simp [hm] at hplain

theorem ticksForever (h : m.SameOffPointer m') (hgo : m.halted = false) (hm : m.TicksForever) :
    m'.TicksForever := by
  obtain ⟨hendless, hemits⟩ := hm
  refine ⟨?_, fun i v => ?_⟩
  · rcases h.ends_cases hgo with ⟨last, hm, -⟩ | ⟨f, g, hm, -⟩ | ⟨-, hm'⟩
    · cases hendless.unique hm
    · cases hendless.unique hm
    · exact hm'
  · rw [← hemits]
    exact ⟨h.symm.emits (h.halted_eq ▸ hgo), h.emits hgo⟩

end SameOffPointer

end Machine

/-! ## Clocks -/

section

variable {setup : Setup} {program : Program} {registers registers' : Registers n}
  {m m' : Machine n}

theorem isClock_eq_error_iff {fault : Fault}
    (hload : Machine.load setup program registers = .ok m) :
    isClock setup none program registers = .error fault ↔
      ∃ f, m.analyze Clock.check none = .error f ∧ f.fault = fault := by
  rw [isClock, Except.map_eq_error_iff, analyze_of_load hload, Except.mapError_eq_error_iff]

theorem Machine.SameOffPointer.isClock_true (h : m.SameOffPointer m') (hgo : m.halted = false)
    (hload : Machine.load setup program registers = .ok m)
    (hload' : Machine.load setup program registers' = .ok m')
    (hclock : isClock setup none program registers = .ok true) :
    isClock setup none program registers' = .ok true := by
  obtain ⟨hsteps, houtputs⟩ := Machine.load_fresh hload
  obtain ⟨hsteps', houtputs'⟩ := Machine.load_fresh hload'
  obtain ⟨start, length, lap, last, hr, hpos, heven⟩ := (isClock_eq_true_iff hload).1 hclock
  have hticks := Machine.ticksForever_of_analyze hsteps houtputs hr hpos heven
  exact (isClock_eq_true_iff hload').2
    (Machine.exists_cycle_of_ticksForever hsteps' houtputs' (h.ticksForever hgo hticks))

theorem Machine.SameOffPointer.isClock_error {fault : Fault} (h : m.SameOffPointer m')
    (hgo : m.halted = false) (hload : Machine.load setup program registers = .ok m)
    (hload' : Machine.load setup program registers' = .ok m')
    (hfault : isClock setup none program registers = .error fault) :
    isClock setup none program registers' = .error fault := by
  obtain ⟨hsteps, houtputs⟩ := Machine.load_fresh hload
  obtain ⟨f, hf, rfl⟩ := (isClock_eq_error_iff hload).1 hfault
  exact (isClock_eq_error_iff hload').2 (h.analyze_error hgo hsteps houtputs hf)

theorem Machine.SameOffPointer.isClock_eq (h : m.SameOffPointer m') (hgo : m.halted = false)
    (hload : Machine.load setup program registers = .ok m)
    (hload' : Machine.load setup program registers' = .ok m') :
    isClock setup none program registers = isClock setup none program registers' := by
  have hgo' := h.halted_eq ▸ hgo
  cases hr : isClock setup none program registers with
  | error fault => exact (h.isClock_error hgo hload hload' hr).symm
  | ok b =>
    cases hr' : isClock setup none program registers' with
    | error fault => simp [h.symm.isClock_error hgo' hload' hload hr'] at hr
    | ok b' =>
      cases b with
      | true =>
        rw [h.isClock_true hgo hload hload' hr] at hr'
        exact hr'
      | false =>
        cases b' with
        | true => simp [h.symm.isClock_true hgo' hload' hload hr'] at hr
        | false => rfl

end

theorem Machine.sameOffPointer_of_load {setup : Setup} {program : Program}
    {registers registers' : Registers n} {m m' : Machine n}
    (hsame : ∀ i : Fin n, setup.ip ≠ some (i : Int) → registers.get i = registers'.get i)
    (hload : Machine.load setup program registers = .ok m)
    (hload' : Machine.load setup program registers' = .ok m') : m.SameOffPointer m' := by
  obtain ⟨ip, hip, -, rfl⟩ := Machine.load_eq_ok_iff.1 hload
  obtain ⟨ip', hip', -, rfl⟩ := Machine.load_eq_ok_iff.1 hload'
  have hinj : Function.Injective fun j : Fin n => (j : Int) := fun i j hij =>
    Fin.ext (Int.ofNat.inj hij)
  obtain rfl : ip = ip' := Option.map_injective hinj (hip.symm.trans hip')
  refine ⟨rfl, rfl, rfl, rfl, rfl, fun i hi => hsame i fun hsome => hi ?_⟩
  exact Option.map_injective hinj (hip.symm.trans hsome)

/-- What the register wired to the counter holds at the start is irrelevant. Two runs that differ in
it go through the same counters, programs and outputs, and after the first step through the same
machines; they end alike. Analyses report the same end, or cycles of the same length that start at
most one step apart, and the clock check gives the same answer. -/
theorem stale_pointer_irrelevant {setup : Setup} {program : Program}
    {registers registers' : Registers n} {m m' : Machine n}
    (hpc : program.hasAddress setup.pc = true)
    (hsame : ∀ i : Fin n, setup.ip ≠ some (i : Int) → registers.get i = registers'.get i)
    (hload : Machine.load setup program registers = .ok m)
    (hload' : Machine.load setup program registers' = .ok m') :
    (∀ k, (∃ a b, m.runFor k = .ok a ∧ m'.runFor k = .ok b ∧
        a.SameOffPointer b ∧ (0 < k → a = b)) ∨
      ∃ f g, m.runFor k = .error f ∧ m'.runFor k = .error g ∧ f.fault = g.fault ∧
        f.left.SameOffPointer g.left) ∧
    ((∃ last, m.Ends (.halted last) ∧ m'.Ends (.halted last)) ∨
      (∃ f g, m.Ends (.crashed f) ∧ m'.Ends (.crashed g) ∧ f.fault = g.fault ∧
        f.left.SameOffPointer g.left) ∨
      (m.Ends .endless ∧ m'.Ends .endless)) ∧
    ((∃ last, analyze setup .any none program registers = .ok ⟨.halted, last⟩ ∧
        analyze setup .any none program registers' = .ok ⟨.halted, last⟩) ∨
      (∃ fault, analyze setup .any none program registers = .error fault ∧
        analyze setup .any none program registers' = .error fault) ∨
      ∃ start start' length lap lap' last last',
        analyze setup .any none program registers = .ok ⟨.cycle start length lap, last⟩ ∧
        analyze setup .any none program registers' = .ok ⟨.cycle start' length lap', last'⟩ ∧
        start ≤ start' + 1 ∧ start' ≤ start + 1) ∧
    isClock setup none program registers = isClock setup none program registers' := by
  have h := Machine.sameOffPointer_of_load hsame hload hload'
  obtain ⟨hsteps, houtputs⟩ := Machine.load_fresh hload
  have hgo : m.halted = false := by
    obtain ⟨ip, -, -, rfl⟩ := Machine.load_eq_ok_iff.1 hload
    simpa [Machine.halted, State.halted] using hpc
  refine ⟨h.runFor_cases hgo, h.ends_cases hgo, ?_, h.isClock_eq hgo hload hload'⟩
  simp only [analyze_of_load hload, analyze_of_load hload', Except.mapError_eq_ok_iff,
    Except.mapError_eq_error_iff]
  rcases h.analyze_cases hgo hsteps houtputs with hhalted | ⟨f, g, hf, hg, hfault, -⟩ | hcycle
  · exact .inl hhalted
  · exact .inr (.inl ⟨f.fault, ⟨f, hf, rfl⟩, ⟨g, hg, hfault.symm⟩⟩)
  · exact .inr (.inr hcycle)

/-- A loop of two instructions. The value that the jump back leaves in the wired register puts the
start on the lasso, another one puts it one step before. -/
theorem stale_pointer_irrelevant_counter :
    let program : Program := #[⟨.out, 0, 0, 0⟩, ⟨.seti, -1, 0, 0⟩]
    let registers : Registers 1 := #v[-1]
    let registers' : Registers 1 := #v[0]
    ∃ last last', analyze { ip := some 0 } .any none program registers =
        .ok ⟨.cycle 0 2 [0], last⟩ ∧
      analyze { ip := some 0 } .any none program registers' = .ok ⟨.cycle 1 2 [0], last'⟩ ∧
      isClock { ip := some 0 } none program registers =
        isClock { ip := some 0 } none program registers' := by
  intro program registers registers'
  let wiring : Wiring 1 := ⟨some 0, .standard, none⟩
  have hload : Machine.load { ip := some 0 } program registers =
      .ok ⟨wiring, ⟨program, registers, 0⟩, 0, #[]⟩ := rfl
  have hload' : Machine.load { ip := some 0 } program registers' =
      .ok ⟨wiring, ⟨program, registers', 0⟩, 0, #[]⟩ := rfl
  have hcycle : analyze { ip := some 0 } .any none program registers =
      .ok ⟨.cycle 0 2 [0], ⟨wiring, ⟨program, #v[-1], 0⟩, 2, #[0]⟩⟩ := by cbv
  have hcycle' : analyze { ip := some 0 } .any none program registers' =
      .ok ⟨.cycle 1 2 [0], ⟨wiring, ⟨program, #v[0], 1⟩, 3, #[0, 0]⟩⟩ := by cbv
  have hsame : ∀ i : Fin 1, (some 0 : Option Int) ≠ some (i : Int) →
      registers.get i = registers'.get i := by decide
  obtain ⟨-, -, -, hclock⟩ := stale_pointer_irrelevant (by decide) hsame hload hload'
  exact ⟨_, _, hcycle, hcycle', hclock⟩

end WordMachine

import Mathlib
import WordMachine.Proofs.Effect
import WordMachine.Proofs.Run
import WordMachine.Proofs.Step
import WordMachine.Proofs.Watch

/-!
# What self-modification leaves behind

An instruction may toggle any other, itself included, and which toggles happen depends on those that
happened before. `State.targets w k s` lists the addresses that the next `k` steps toggle. The
program after these steps is the one before with the listed addresses toggled one after the other;
toggling is an involution at each address and different addresses do not meet, so of the list only
the parities count, and its order does not.
-/

namespace WordMachine

/-! ## Toggling many times -/

namespace Program

theorem getElem?_toggle (table : ToggleTable) (p : Program) (target : Int) (i : Nat) :
    (p.toggle table target)[i]? = if target = i then p[i]?.map table.flip else p[i]? := by
  unfold toggle
  split
  · next h =>
    obtain ⟨h0, -⟩ := hasAddress_iff.1 h
    have hi : target.toNat = i ↔ target = i := by omega
    simp only [Array.getElem?_modify, hi]
  · next h =>
    split
    · next heq =>
      have hsize : p.size ≤ i := by
        rw [hasAddress_iff] at h
        omega
      simp [Array.getElem?_eq_none hsize]
    · rfl

/-- An instruction toggled an even number of times is as it was; otherwise it is toggled once. -/
theorem getElem?_foldl_toggle (table : ToggleTable) (targets : List Int) (p : Program) (i : Nat) :
    (targets.foldl (toggle table) p)[i]? =
      p[i]?.map fun ins => if Even (targets.count (i : Int)) then ins else table.flip ins := by
  induction targets generalizing p with
  | nil => simp
  | cons target targets ih =>
    rw [List.foldl_cons, ih, getElem?_toggle, List.count_cons]
    by_cases h : target = i
    · simp only [h, if_true, beq_self_eq_true, Nat.even_add_one, Option.map_map]
      congr 1
      funext ins
      by_cases heven : Even (targets.count (i : Int))
      · simp [heven]
      · simp [heven, table.flip_flip]
    · simp [h]

/-- The order of toggles does not matter. -/
theorem foldl_toggle_perm (table : ToggleTable) (p : Program) {targets targets' : List Int}
    (h : targets'.Perm targets) :
    targets'.foldl (toggle table) p = targets.foldl (toggle table) p := by
  apply Array.ext_getElem?
  intro i
  simp only [getElem?_foldl_toggle, h.count_eq]

end Program

/-! ## The toggles of a run -/

namespace State

variable {n : Nat} {w : Wiring n}

/-- The address that the next instruction toggles, if it is a `tgl`: as far ahead of the counter as
its register says. -/
def target? (w : Wiring n) (s : State n) : Option Int :=
  match s.fetch w with
  | .error _ => none
  | .ok (t, ins) =>
    if ins.op = .tgl then
      match t.registers.read ins.a with
      | .error _ => none
      | .ok distance => some (t.pc + distance)
    else none

/-- The addresses that the `tgl` instructions among the next `k` toggle, in the order in which they
are executed. -/
def targets (w : Wiring n) : Nat → State n → List Int
  | 0, _ => []
  | k + 1, s =>
    if s.halted then []
    else
      match s.step w with
      | .error _ => []
      | .ok next => (s.target? w).toList ++ next.next.targets w k

theorem target?_of_tgl {s t : State n} {ins : Instruction} {d : Int}
    (hfetch : s.fetch w = .ok (t, ins)) (hop : ins.op = .tgl)
    (hread : t.registers.read ins.a = .ok d) : s.target? w = some (t.pc + d) := by
  simp only [target?, hfetch, hop, hread, if_true]

theorem target?_of_ne {s t : State n} {ins : Instruction} (hfetch : s.fetch w = .ok (t, ins))
    (hop : ins.op ≠ .tgl) : s.target? w = none := by
  simp only [target?, hfetch, if_neg hop]

/-- A step changes the program at its target and nowhere else. -/
theorem step_program_eq {s : State n} {next : Step n} (h : s.step w = .ok next) :
    next.next.program = (s.target? w).toList.foldl (Program.toggle w.toggles) s.program := by
  obtain ⟨t, ins, u, event, hfetch, hexecute, rfl⟩ := step_eq_ok_iff.1 h
  obtain ⟨hpublish, -⟩ := fetch_eq_ok_iff.1 hfetch
  simp only [advance_program]
  rw [← publish_program hpublish]
  by_cases hop : ins.op = .tgl
  · obtain ⟨-, d, hread, htoggle⟩ | ⟨hout, -⟩ | ⟨htgl, -⟩ := execute_cases hexecute
    · rw [target?_of_tgl hfetch hop hread, eq_of_toggle htoggle]
      rfl
    · simp [hop] at hout
    · exact absurd hop htgl
  · rw [target?_of_ne hfetch hop, execute_program hop hexecute]
    rfl

theorem targets_succ {s : State n} {next : Step n} (k : Nat) (hh : s.halted = false)
    (hs : s.step w = .ok next) :
    s.targets w (k + 1) = (s.target? w).toList ++ next.next.targets w k := by
  simp [targets, hh, hs]

theorem Run.program_eq_toggles {k : Nat} {s t : State n} {o : List Int} (h : Run w k s o t) :
    t.program = (s.targets w k).foldl (Program.toggle w.toggles) s.program := by
  induction h with
  | refl => rfl
  | step hh hs _ ih => rw [ih, step_program_eq hs, targets_succ _ hh hs, List.foldl_append]

/-! ## The counter and the wired register -/

/-- A step leaves the counter one past the wired register. -/
theorem step_pc {s : State n} {next : Step n} {ip : Fin n} (hip : w.ip = some ip)
    (h : s.step w = .ok next) : next.next.pc = (next.next.registers.get ip).toInt + 1 := by
  obtain ⟨t, ins, u, event, -, -, rfl⟩ := step_eq_ok_iff.1 h
  simp only [advance, hip]

theorem Run.pc_eq {k : Nat} {s t : State n} {o : List Int} {ip : Fin n} (hip : w.ip = some ip)
    (hk : 0 < k) (h : Run w k s o t) : t.pc = (t.registers.get ip).toInt + 1 := by
  obtain ⟨j, rfl⟩ : ∃ j, k = j + 1 := ⟨k - 1, by omega⟩
  obtain ⟨_, _, u, -, -, hlast⟩ := h.split
  obtain ⟨next, hs, -, rfl⟩ := hlast.exists_step
  exact step_pc hip hs

end State

/-! ## Emitted values -/

namespace Machine

variable {n : Nat} {m : Machine n}

theorem step_outputs {last : Machine n} (h : m.step = .ok last) :
    last.outputs = m.outputs ∨ ∃ v, last.outputs = m.outputs.push v := by
  obtain ⟨next, -, rfl⟩ := step_eq_ok_iff.1 h
  unfold after record
  cases next.event.output? with
  | none => exact .inl rfl
  | some v => exact .inr ⟨v, rfl⟩

/-- A run takes its steps one at a time. -/
theorem exists_step_of_run {k j : Nat} {o : List Int} {t : State n}
    (h : m.state.Run m.wiring k o t) (hj : j < k) :
    ∃ before after, m.runFor j = .ok before ∧ before.halted = false ∧ before.step = .ok after ∧
      m.runFor (j + 1) = .ok after := by
  obtain ⟨d, rfl⟩ := Nat.exists_eq_add_of_lt hj
  obtain ⟨p, q, u, -, hp, hq⟩ := State.Run.split (j := j) (k := d + 1) h
  obtain _ | ⟨hh, hs, -⟩ := hq
  refine ⟨m.moved j p u, _, runFor_of_run hp, hh, step_eq_ok_iff.2 ⟨_, hs, rfl⟩, ?_⟩
  rw [after_eq_moved, moved_moved]
  exact runFor_of_run (hp.trans (.single hh hs))

end Machine

/-- What holds of a loaded machine after any number of steps, whatever they toggle. The program has
kept its length and operands, and an opcode is the one it was or its partner, by the parity of the
toggles of its address and whatever their order. The registers are as many as before and hold words,
no step has emitted more than one value, and the counter is one past the wired register. -/
theorem reachable_state_invariant {n : Nat} {setup : Setup} {program : Program}
    {registers : Registers n} {m : Machine n}
    (hload : Machine.load setup program registers = .ok m) {k : Nat} {last : Machine n}
    (hrun : m.runFor k = .ok last) :
    last.state.program.size = program.size ∧
    (∀ (i : Nat) (ins : Instruction), program[i]? = some ins → ∃ op,
      last.state.program[i]? = some { ins with op := op } ∧
      (Even ((m.state.targets m.wiring last.steps).count (i : Int)) → op = ins.op) ∧
      (Odd ((m.state.targets m.wiring last.steps).count (i : Int)) →
        op = setup.toggles.partner ins.op)) ∧
    (∀ targets : List Int, targets.Perm (m.state.targets m.wiring last.steps) →
      last.state.program = targets.foldl (Program.toggle setup.toggles) program) ∧
    last.state.registers.values.length = registers.values.length ∧
    (∀ v ∈ last.state.registers.values, -2 ^ 63 ≤ v ∧ v < 2 ^ 63) ∧
    (∀ j < last.steps, ∃ before after, m.runFor j = .ok before ∧ before.halted = false ∧
      before.step = .ok after ∧ m.runFor (j + 1) = .ok after ∧
      (after.outputs = before.outputs ∨ ∃ v, after.outputs = before.outputs.push v)) ∧
    ∀ ip, setup.ip = some ip → 0 < last.steps →
      ∃ v, last.state.registers.read ip = .ok v ∧ last.state.pc = v + 1 := by
  obtain ⟨hsteps, -⟩ := Machine.load_fresh hload
  obtain ⟨ip, hip, -, hm⟩ := Machine.load_eq_ok_iff.1 hload
  obtain ⟨j, o, t, hreach, rfl, -⟩ := Machine.exists_run_of_runFor_ok hrun
  have hprogram : m.state.program = program := by rw [hm]
  have htoggles : m.wiring.toggles = setup.toggles := by rw [hm]
  have hwired : m.wiring.ip = ip := by rw [hm]
  have htoggled := hreach.program_eq_toggles
  rw [hprogram, htoggles] at htoggled
  simp only [Machine.moved_state, Machine.moved_steps, hsteps, Nat.zero_add]
  refine ⟨?_, ?_, ?_, ?_, ?_, ?_, ?_⟩
  · rw [← hprogram]
    exact Program.size_of_operands hreach.operands
  · intro i ins hins
    refine ⟨if Even ((m.state.targets m.wiring j).count (i : Int)) then ins.op
      else setup.toggles.partner ins.op, ?_, fun heven => if_pos heven, fun hodd => ?_⟩
    · rw [htoggled, Program.getElem?_foldl_toggle, hins, Option.map_some]
      split <;> rfl
    · rw [if_neg (Nat.not_even_iff_odd.2 hodd)]
  · intro targets hperm
    rw [htoggled, Program.foldl_toggle_perm setup.toggles program hperm]
  · simp only [Registers.length_values]
  · intro v hv
    obtain ⟨x, -, rfl⟩ := List.mem_map.1 hv
    exact ⟨Int64.le_toInt x, Int64.toInt_lt x⟩
  · intro i hi
    obtain ⟨before, after, hbefore, hgo, hstep, hafter⟩ := Machine.exists_step_of_run hreach hi
    exact ⟨before, after, hbefore, hgo, hstep, hafter, Machine.step_outputs hstep⟩
  · intro reg hreg hj
    rw [hip] at hreg
    obtain ⟨i, rfl, rfl⟩ := Option.map_eq_some_iff.1 hreg
    exact ⟨_, Registers.read_eq_ok_iff.2 ⟨i, rfl, rfl⟩, hreach.pc_eq hwired hj⟩

/-- A loop whose first instruction toggles its second back and forth between `tgl` and `out`. As a
`tgl`, the second toggles the jump that closes the loop. -/
def togglingLoop : Program := #[⟨.tgl, 1, 0, 0⟩, ⟨.tgl, 2, 0, 0⟩, ⟨.seti, -1, 0, 0⟩]

theorem reachable_state_invariant_togglingLoop :
    ∃ m last, Machine.load { ip := some 0 } togglingLoop (#v[0, 1, 1] : Registers 3) = .ok m ∧
      m.runFor 5 = .ok last ∧ last.steps = 5 ∧ m.state.targets m.wiring 5 = [1, 1, 2] ∧
      last.state.program[1]? = some ⟨.tgl, 2, 0, 0⟩ ∧
      last.state.program[2]? = some ⟨.setr, -1, 0, 0⟩ ∧
      ∃ v, last.state.registers.read 0 = .ok v ∧ last.state.pc = v + 1 := by
  let m : Machine 3 := ⟨⟨some 0, .standard, none⟩, ⟨togglingLoop, #v[0, 1, 1], 0⟩, 0, #[]⟩
  let last : Machine 3 := ⟨⟨some 0, .standard, none⟩,
    ⟨#[⟨.tgl, 1, 0, 0⟩, ⟨.tgl, 2, 0, 0⟩, ⟨.setr, -1, 0, 0⟩], #v[1, 1, 1], 2⟩, 5, #[1]⟩
  have hload : Machine.load { ip := some 0 } togglingLoop (#v[0, 1, 1] : Registers 3) = .ok m := rfl
  have hrun : m.runFor 5 = .ok last := by cbv
  have htargets : m.state.targets m.wiring 5 = [1, 1, 2] := by cbv
  obtain ⟨-, hprogram, -, -, -, -, hpc⟩ := reachable_state_invariant hload hrun
  obtain ⟨op, hop, heven, -⟩ := hprogram 1 _ rfl
  obtain ⟨op', hop', -, hodd⟩ := hprogram 2 _ rfl
  rw [show last.steps = 5 from rfl, htargets] at heven hodd
  rw [heven (by decide)] at hop
  rw [hodd (by decide)] at hop'
  exact ⟨m, last, hload, hrun, rfl, htargets, hop, hop', hpc 0 rfl (by decide)⟩

end WordMachine

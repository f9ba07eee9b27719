import Mathlib
import WordMachine.Proofs.Effect
import WordMachine.Proofs.ForcedRun
import WordMachine.Proofs.Watch

/-!
# Loaded programs address no register outside the file

Loading looks at each instruction once, as it stands. A program without `tgl` never changes, and a
toggle table is an involution, so a program of which every instruction may also be toggled once
stays inside the file however often its instructions are toggled. The only faults such a program
meets when it runs are those of the arithmetic.
-/

namespace WordMachine

variable {n : Nat} {w : Wiring n} {gate : Option Int}

/-! ## Programs within a file -/

namespace Program

variable {p : Program} {table : ToggleTable}

theorem strayReference?_eq_none_iff {width : Int} {ins : Instruction} :
    strayReference? width ins = none ↔ ∀ reg ∈ ins.references, 0 ≤ reg ∧ reg < width := by
  simp [strayReference?]

theorem validate_eq_ok_iff_forall {width : Int} :
    p.validate width = .ok () ↔ ∀ ins ∈ p, ∀ reg ∈ ins.references, 0 ≤ reg ∧ reg < width := by
  have hdefect : p.defect? width = none ↔
      ∀ ins ∈ p, ∀ reg ∈ ins.references, 0 ≤ reg ∧ reg < width := by
    simp only [defect?, List.findSome?_eq_none_iff, Option.map_eq_none_iff,
      strayReference?_eq_none_iff, ← Array.mem_toList_iff]
    constructor
    · intro h ins hins
      obtain ⟨i, hi⟩ := List.mem_iff_getElem?.1 hins
      exact h (ins, i) (List.mk_mem_zipIdx_iff_getElem?.2 hi)
    · rintro h ⟨ins, i⟩ hmem
      exact h ins (List.mem_iff_getElem?.2 ⟨i, List.mk_mem_zipIdx_iff_getElem?.1 hmem⟩)
  rw [← hdefect, validate]
  cases p.defect? width <;> simp

theorem validate_eq_ok_iff : p.validate n = .ok () ↔ ∀ ins ∈ p, ins.Within n :=
  validate_eq_ok_iff_forall

theorem mem_toggle {target : Int} {ins : Instruction} (h : ins ∈ p.toggle table target) :
    ins ∈ p ∨ ∃ old ∈ p, ins = table.flip old := by
  unfold toggle at h
  split at h
  · obtain ⟨i, hi, rfl⟩ := Array.mem_iff_getElem.1 h
    rw [Array.size_modify] at hi
    rw [Array.getElem_modify]
    split
    · exact .inr ⟨p[i], Array.getElem_mem hi, rfl⟩
    · exact .inl (Array.getElem_mem hi)
  · exact .inl h

/-- The program refers to no register outside a file of `n`, neither as it is nor, if it can change
at all, with any of its instructions toggled. -/
structure Contained (table : ToggleTable) (n : Nat) (p : Program) : Prop where
  within : ∀ ins ∈ p, ins.Within n
  toggled : (∀ ins ∈ p, ins.op ≠ .tgl) ∨ ∀ ins ∈ p, (table.flip ins).Within n

theorem Contained.toggle (h : p.Contained table n) (htgl : ∃ ins ∈ p, ins.op = .tgl)
    (target : Int) : (p.toggle table target).Contained table n := by
  have hflip : ∀ ins ∈ p, (table.flip ins).Within n := by
    refine h.toggled.resolve_left fun hnone => ?_
    obtain ⟨ins, hmem, hop⟩ := htgl
    exact hnone ins hmem hop
  refine ⟨fun ins hins => ?_, .inr fun ins hins => ?_⟩
  · rcases mem_toggle hins with hmem | ⟨old, hold, rfl⟩
    · exact h.within ins hmem
    · exact hflip old hold
  · rcases mem_toggle hins with hmem | ⟨old, hold, rfl⟩
    · exact hflip ins hmem
    · rw [table.flip_flip]
      exact h.within old hold

end Program

/-! ## Forced instructions -/

theorem Instruction.Within.forced {ins : Instruction} (h : ins.Within n) (gate : Option Int) :
    (forced gate ins).Within n := by
  cases hgate : gateOperand? gate ins with
  | none =>
    rw [forced_of_not_gate hgate]
    exact h
  | some reg =>
    rw [forced_of_gate hgate]
    have hc := h.destination (by rw [(gateOperand?_cases hgate).1]; rfl)
    intro target htarget
    obtain rfl : target = ins.c := List.mem_singleton.1 htarget
    exact hc

theorem forced_of_tgl {ins : Instruction} (h : (forced gate ins).op = .tgl) :
    forced gate ins = ins := by
  cases hgate : gateOperand? gate ins with
  | none => exact forced_of_not_gate hgate
  | some reg =>
    rw [forced_of_gate hgate] at h
    cases h

/-- A gate reads the gate register and the register it compares with it. -/
theorem mem_sources_of_gate {ins : Instruction} {g reg : Int}
    (h : gateOperand? (some g) ins = some reg) : g ∈ ins.sources ∧ reg ∈ ins.sources := by
  obtain ⟨hop, hcases⟩ := gateOperand?_cases h
  have ha : ins.a ∈ ins.sources := Instruction.mem_sources_a (by rw [hop]; rfl)
  have hb : ins.b ∈ ins.sources := Instruction.mem_sources_b (by rw [hop]; rfl)
  rcases hcases with ⟨hg, rfl⟩ | ⟨hg, rfl⟩
  · exact ⟨Option.some.inj hg ▸ hb, ha⟩
  · exact ⟨Option.some.inj hg ▸ ha, hb⟩

namespace State

/-! ## Steps -/

theorem fetch_error {s : State n} {failure : Failure (State n)} (hh : s.halted = false)
    (h : s.fetch w = .error failure) : failure.fault = .overflow := by
  unfold fetch at h
  split at h
  · next fault hp =>
    cases h
    unfold publish at hp
    split at hp
    · cases hp
    · exact Registers.word_error (Except.map_eq_error_iff.1 hp)
  · next t hp =>
    -- The counter is inside the program, so there is an instruction to fetch.
    have hget : ∃ ins, t.program.get t.pc = .ok ins := by
      rw [publish_program hp, publish_pc hp]
      exact Program.exists_get (by simpa [halted] using hh)
    obtain ⟨ins, hget⟩ := hget
    rw [hget] at h
    cases h

theorem perform_error {s : State n} {ins : Instruction} {failure : Failure (State n)}
    (hwithin : ins.Within n) (h : s.perform w ins = .error failure) :
    failure.fault.Arithmetic := by
  obtain ⟨-, ⟨hop, hread⟩ | ⟨htgl, hout, heffect⟩⟩ :=
    execute_error_cases (perform_eq_error_iff.1 h)
  · have hkind : ins.op.signature.a = .register := by
      rcases hop with hop | hop <;> rw [hop] <;> rfl
    obtain ⟨v, hv⟩ := Registers.exists_read (r := s.registers)
      (hwithin.source (Instruction.mem_sources_a hkind))
    rw [hv] at hread
    cases hread
  · exact Registers.effect_error hwithin htgl hout heffect

/-- Executing the fetched instruction, or another that does not toggle, stays within the file. -/
theorem execute_contained {s t u : State n} {ins performed : Instruction} {event : Event}
    (hs : s.program.Contained w.toggles n) (hf : s.fetch w = .ok (t, ins))
    (hperformed : performed.op = .tgl → performed = ins)
    (he : t.execute w performed = .ok (u, event)) :
    (u.advance w).program.Contained w.toggles n := by
  obtain ⟨hp, hget⟩ := fetch_eq_ok_iff.1 hf
  rw [advance_program]
  rw [← publish_program hp] at hs
  rcases execute_cases he with ⟨hop, d, -, htoggle⟩ | ⟨-, v, -, rfl, -⟩ | ⟨-, -, i, v, -, rfl, -⟩
  · rw [eq_of_toggle htoggle]
    exact hs.toggle ⟨ins, Program.mem_of_get hget, hperformed hop ▸ hop⟩ _
  · exact hs
  · exact hs

theorem step_contained {s : State n} {next : Step n} (hs : s.program.Contained w.toggles n)
    (h : s.step w = .ok next) : next.next.program.Contained w.toggles n := by
  obtain ⟨t, ins, u, event, hf, he, rfl⟩ := step_eq_ok_iff.1 h
  exact execute_contained hs hf (fun _ => rfl) he

theorem step_error {s : State n} {failure : Failure (State n)}
    (hs : s.program.Contained w.toggles n) (hh : s.halted = false)
    (h : s.step w = .error failure) : failure.fault.Arithmetic := by
  unfold step at h
  split at h
  · next f hf =>
    cases h
    exact .inl (fetch_error hh hf)
  · next t ins hf => exact perform_error (hs.within ins (fetch_mem hf)) h

/-! ## Forced steps -/

theorem ForcedStep.contained {s u : State n} {v? : Option Int}
    (hs : s.program.Contained w.toggles n) (h : s.ForcedStep w gate v? u) :
    u.program.Contained w.toggles n := by
  obtain ⟨t, ins, next, hf, -, hp, rfl⟩ := h
  obtain ⟨v, event, he, rfl⟩ := perform_eq_ok_iff.1 hp
  exact execute_contained hs hf forced_of_tgl he

theorem ForcedFault.arithmetic {s : State n} {fault : Fault}
    (hs : s.program.Contained w.toggles n) (hh : s.halted = false)
    (h : s.ForcedFault w gate fault) : fault.Arithmetic := by
  rcases h with ⟨failure, hf, rfl⟩ | ⟨t, ins, hf, h⟩
  · exact .inl (fetch_error hh hf)
  · have hwithin := hs.within ins (fetch_mem hf)
    rcases h with hv | ⟨failure, hp, rfl⟩
    · -- The register that a gate compares is one of its sources.
      unfold gateValue at hv
      split at hv
      · cases hv
      · next reg hreg =>
        obtain ⟨g, rfl⟩ := exists_gate_of_operand hreg
        obtain ⟨v, hread⟩ := Registers.exists_read (r := t.registers)
          (hwithin.source (mem_sources_of_gate hreg).2)
        rw [hread] at hv
        cases hv
    · exact perform_error (hwithin.forced gate) hp

/-! ## Runs -/

theorem Run.contained {k : Nat} {s t : State n} {o : List Int} (h : Run w k s o t)
    (hs : s.program.Contained w.toggles n) : t.program.Contained w.toggles n := by
  induction h with
  | refl => exact hs
  | step _ hstep _ ih => exact ih (step_contained hs hstep)

theorem ForcedRun.contained {k : Nat} {s t : State n} {vs : List Int}
    (h : ForcedRun w gate k s vs t) (hs : s.program.Contained w.toggles n) :
    t.program.Contained w.toggles n := by
  induction h with
  | refl => exact hs
  | step _ hstep _ ih => exact ih (hstep.contained hs)

end State

/-! ## Machines -/

namespace Machine

variable {m : Machine n}

theorem runFor_error {k : Nat} {failure : Failure (Machine n)}
    (hm : m.state.program.Contained m.wiring.toggles n) (h : m.runFor k = .error failure) :
    failure.fault.Arithmetic := by
  obtain ⟨j, o, t, -, hrun, ht, hstep⟩ := exists_run_of_runFor_error h
  obtain ⟨f, hf, rfl⟩ := step_eq_error_iff.1 hstep
  exact State.step_error (hrun.contained hm) ht hf

theorem analyze_error {σ : Type} {check : Check σ} {budget : Option Int}
    {failure : Failure (Machine n)} (hm : m.state.program.Contained m.wiring.toggles n)
    (h : m.analyze check budget = .error failure) : failure.fault.Arithmetic := by
  have hwatch := watched_analyze check budget m
  rw [h] at hwatch
  cases hwatch with
  | crashed hpass _ _ ht hstep =>
    obtain ⟨f, hf, rfl⟩ := step_eq_error_iff.1 hstep
    exact State.step_error (hpass.run.contained hm) ht hf

theorem collect_error {c : Collection} {fault : Fault}
    (hm : m.state.program.Contained m.wiring.toggles n) (h : c.collect m = .error fault) :
    fault.Arithmetic := by
  obtain ⟨k, vs, t, hrun, ht, hfault⟩ := (h ▸ c.gathered_collect m).exists_fault
  exact hfault.arithmetic (hrun.contained hm) ht

/-- Loading leaves nothing to address outside the file: the program was looked at as it stands,
and what `tgl` could make of it by assumption. -/
theorem contained_of_load {setup : Setup} {program : Program} {registers : Registers n}
    (hload : load setup program registers = .ok m)
    (htoggle : (∀ ins ∈ program, ins.op ≠ .tgl) ∨
      Program.validate (program.map setup.toggles.flip) n = .ok ()) :
    m.state.program.Contained m.wiring.toggles n := by
  obtain ⟨ip, -, hvalid, rfl⟩ := load_eq_ok_iff.1 hload
  refine ⟨Program.validate_eq_ok_iff.1 hvalid, htoggle.imp_right fun hflip ins hins => ?_⟩
  exact Program.validate_eq_ok_iff.1 hflip _ (Array.mem_map_of_mem hins)

end Machine

/-- A machine that was loaded meets no fault of the addressing: neither in any step of its plain
run, nor in the runs of an analysis or of a collection of halting values. -/
theorem load_only_arithmetic_faults {setup : Setup} {program : Program} {registers : Registers n}
    {m : Machine n} (hload : Machine.load setup program registers = .ok m)
    (htoggle : (∀ ins ∈ program, ins.op ≠ .tgl) ∨
      Program.validate (program.map setup.toggles.flip) n = .ok ()) :
    (∀ k o t failure, m.state.Run m.wiring k o t → t.halted = false →
      t.step m.wiring = .error failure → failure.fault.Arithmetic) ∧
    (∀ k failure, m.runFor k = .error failure → failure.fault.Arithmetic) ∧
    (∀ failure, m.Ends (.crashed failure) → failure.fault.Arithmetic) ∧
    (∀ (σ : Type) (check : Check σ) budget fault,
      analyze setup check budget program registers = .error fault → fault.Arithmetic) ∧
    ∀ c fault, haltingValues setup c program registers = .error fault → fault.Arithmetic := by
  have hm := Machine.contained_of_load hload htoggle
  refine ⟨?_, fun k failure h => Machine.runFor_error hm h, ?_, ?_, ?_⟩
  · intro k o t failure hrun ht hstep
    exact State.step_error (hrun.contained hm) ht hstep
  · intro failure hends
    obtain ⟨k, o, t, hrun, ht, hstep⟩ := Machine.ends_crashed_iff.1 hends
    obtain ⟨f, hf, rfl⟩ := Machine.step_eq_error_iff.1 hstep
    exact State.step_error (hrun.contained hm) ht hf
  · intro σ check budget fault h
    rw [analyze_of_load hload] at h
    obtain ⟨failure, hfailure, rfl⟩ := Except.mapError_eq_error_iff.1 h
    exact Machine.analyze_error hm hfailure
  · intro c fault h
    rw [haltingValues, hload] at h
    exact Machine.collect_error hm h

/-- A toggle makes a division by a literal one by a register, which holds zero. -/
theorem load_only_arithmetic_faults_toggled_division :
    let program : Program := #[⟨.tgl, 1, 0, 0⟩, ⟨.divi, 0, 0, 1⟩]
    let registers : Registers 2 := #v[0, 1]
    ∃ m, Machine.load {} program registers = .ok m ∧
      Program.validate (program.map ToggleTable.standard.flip) 2 = .ok () ∧
      analyze {} .any none program registers = .error .divisionByZero ∧
      ∀ failure, m.Ends (.crashed failure) → failure.fault.Arithmetic := by
  intro program registers
  have hload : Machine.load {} program registers =
      .ok ⟨⟨none, .standard, none⟩, ⟨program, registers, 0⟩, 0, #[]⟩ := rfl
  have hflip : Program.validate (program.map ToggleTable.standard.flip) 2 = .ok () := by cbv
  have hanalyze : analyze {} .any none program registers = .error .divisionByZero := by cbv
  exact ⟨_, hload, hflip, hanalyze, (load_only_arithmetic_faults hload (.inr hflip)).2.2.1⟩

end WordMachine

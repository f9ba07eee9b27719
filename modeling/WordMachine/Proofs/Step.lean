import WordMachine.Machine
import WordMachine.Proofs.Fallible

/-!
# What a step can do

One lemma for each part of a step says all that follows from its success: the counter is published,
an instruction is fetched, and it toggles an instruction, emits a register or writes one. Toggling
changes opcodes only, so every step keeps the operands at each address. The machine that steps is
the one that was loaded: its wired register exists and its program refers to no register outside
the file.
-/

namespace WordMachine

/-! ## Programs -/

namespace Program

theorem get_eq_ok_iff {p : Program} {index : Int} {ins : Instruction} :
    p.get index = .ok ins ↔ p.at? index = some ins := by
  unfold get
  cases p.at? index <;> simp

theorem mem_of_get {p : Program} {index : Int} {ins : Instruction}
    (h : p.get index = .ok ins) : ins ∈ p := by
  rw [get_eq_ok_iff, at?] at h
  generalize (if index < 0 then index + p.size else index) = i at h
  split at h
  · cases h
  · exact Array.mem_of_getElem? h

theorem exists_get {p : Program} {address : Int} (h : p.hasAddress address = true) :
    ∃ ins, p.get address = .ok ins := by
  obtain ⟨_, hlt⟩ := hasAddress_iff.1 h
  have hbound : address.toNat < p.size := by omega
  refine ⟨p[address.toNat], ?_⟩
  rw [get_eq_ok_iff, at?_of_hasAddress h, Array.getElem?_eq_getElem hbound]

/-! ## What toggling keeps -/

/-- The operands at each address. -/
def operands (p : Program) : Array (Int × Int × Int) := p.map fun ins => (ins.a, ins.b, ins.c)

theorem size_of_operands {p q : Program} (h : p.operands = q.operands) : p.size = q.size := by
  simpa [operands] using congrArg Array.size h

theorem operands_toggle (table : ToggleTable) (p : Program) (target : Int) :
    (p.toggle table target).operands = p.operands := by
  unfold toggle
  split
  · apply Array.ext
    · simp [operands]
    · intro i h1 h2
      simp only [operands, Array.getElem_map, Array.getElem_modify]
      split <;> rfl
  · rfl

/-- A program is its operands and its opcodes. -/
theorem ext_of_operands {p q : Program} (h : p.operands = q.operands)
    (hop : ∀ i (hp : i < p.size) (hq : i < q.size), p[i].op = q[i].op) : p = q := by
  apply Array.ext (size_of_operands h)
  intro i hp hq
  have hi : (p[i].a, p[i].b, p[i].c) = (q[i].a, q[i].b, q[i].c) := by
    simpa [operands, hp, hq] using congrArg (·[i]?) h
  have hi' := hop i hp hq
  cases hpi : p[i]
  cases hqi : q[i]
  simp_all

end Program

/-! ## The parts of a step -/

namespace State

variable {n : Nat} {w : Wiring n}

theorem publish_cases {s t : State n} (h : s.publish w = .ok t) :
    (w.ip = none ∧ t = s) ∨
      ∃ ip v, w.ip = some ip ∧ Registers.word s.pc = .ok v ∧
        t = { s with registers := s.registers.assign ip v } := by
  unfold publish at h
  split at h
  · next hip =>
    cases h
    exact .inl ⟨hip, rfl⟩
  · next ip hip =>
    obtain ⟨v, hv, rfl⟩ := Except.map_eq_ok_iff.1 h
    exact .inr ⟨ip, v, hip, hv, rfl⟩

theorem publish_program {s t : State n} (h : s.publish w = .ok t) : t.program = s.program := by
  obtain ⟨-, rfl⟩ | ⟨_, _, -, -, rfl⟩ := publish_cases h <;> rfl

theorem publish_pc {s t : State n} (h : s.publish w = .ok t) : t.pc = s.pc := by
  obtain ⟨-, rfl⟩ | ⟨_, _, -, -, rfl⟩ := publish_cases h <;> rfl

theorem fetch_eq_ok_iff {s t : State n} {ins : Instruction} :
    s.fetch w = .ok (t, ins) ↔ s.publish w = .ok t ∧ t.program.get t.pc = .ok ins := by
  unfold fetch
  constructor
  · intro h
    split at h
    · cases h
    · next t' hp =>
      split at h
      · cases h
      · next ins' hg =>
        cases h
        exact ⟨hp, hg⟩
  · rintro ⟨hp, hg⟩
    simp only [hp, hg]

theorem fetch_mem {s t : State n} {ins : Instruction} (h : s.fetch w = .ok (t, ins)) :
    ins ∈ s.program := by
  obtain ⟨hp, hget⟩ := fetch_eq_ok_iff.1 h
  rw [publish_program hp] at hget
  exact Program.mem_of_get hget

/-- Toggling changes nothing but the program. -/
theorem eq_of_toggle {s t : State n} {distance : Int} {event : Event}
    (h : (t, event) = s.toggle w distance) :
    t = { s with program := s.program.toggle w.toggles (s.pc + distance) } := by
  unfold toggle at h
  simp only at h
  split at h <;> exact congrArg Prod.fst h

theorem execute_cases {s t : State n} {ins : Instruction} {event : Event}
    (h : s.execute w ins = .ok (t, event)) :
    (ins.op = .tgl ∧ ∃ d, s.registers.read ins.a = .ok d ∧ (t, event) = s.toggle w d) ∨
    (ins.op = .out ∧ ∃ v, s.registers.read ins.a = .ok v ∧ t = s ∧ event = .output v) ∨
    (ins.op ≠ .tgl ∧ ins.op ≠ .out ∧ ∃ i v, s.registers.effect ins = .ok (i, v) ∧
      t = { s with registers := s.registers.assign i v } ∧
      event = if w.watched = some ins.c then .output v.toInt else .quiet) := by
  unfold execute at h
  split at h
  · next hop =>
    split at h
    · cases h
    · next d hd => exact .inl ⟨hop, d, hd, (Except.ok.inj h).symm⟩
  · next hop =>
    split at h
    · cases h
    · next v hv =>
      cases h
      exact .inr (.inl ⟨hop, v, hv, rfl, rfl⟩)
  · next htgl hout =>
    split at h
    · cases h
    · next i v he =>
      cases h
      exact .inr (.inr ⟨htgl, hout, i, v, he, rfl, rfl⟩)

/-- An instruction that fails leaves the state as it was. -/
theorem execute_error_cases {s : State n} {ins : Instruction} {failure : Failure (State n)}
    (h : s.execute w ins = .error failure) : failure.left = s ∧
      ((ins.op = .tgl ∨ ins.op = .out) ∧ s.registers.read ins.a = .error failure.fault ∨
        ins.op ≠ .tgl ∧ ins.op ≠ .out ∧ s.registers.effect ins = .error failure.fault) := by
  unfold execute at h
  split at h
  · next hop =>
    split at h
    · next fault hread =>
      cases h
      exact ⟨rfl, .inl ⟨.inl hop, hread⟩⟩
    · cases h
  · next hop =>
    split at h
    · next fault hread =>
      cases h
      exact ⟨rfl, .inl ⟨.inr hop, hread⟩⟩
    · cases h
  · next htgl hout =>
    split at h
    · next fault he =>
      cases h
      exact ⟨rfl, .inr ⟨htgl, hout, he⟩⟩
    · cases h

/-- An ALU instruction carries its effect out. -/
theorem execute_of_isAlu (s : State n) {ins : Instruction} (h : ins.op.isAlu = true) :
    s.execute w ins = match s.registers.effect ins with
      | .error fault => .error ⟨fault, s⟩
      | .ok (i, v) => .ok ({ s with registers := s.registers.assign i v },
          if w.watched = some ins.c then .output v.toInt else .quiet) := by
  unfold execute
  split
  · next hop => simp [hop, Opcode.isAlu, Opcode.signature] at h
  · next hop => simp [hop, Opcode.isAlu, Opcode.signature] at h
  · rfl

theorem execute_operands {s t : State n} {ins : Instruction} {event : Event}
    (h : s.execute w ins = .ok (t, event)) : t.program.operands = s.program.operands := by
  rcases execute_cases h with ⟨-, d, -, htoggle⟩ | ⟨-, v, -, rfl, -⟩ | ⟨-, -, i, v, -, rfl, -⟩
  · rw [eq_of_toggle htoggle]
    exact Program.operands_toggle ..
  · rfl
  · rfl

/-- Only `tgl` changes the program. -/
theorem execute_program {s t : State n} {ins : Instruction} {event : Event}
    (hop : ins.op ≠ .tgl) (h : s.execute w ins = .ok (t, event)) : t.program = s.program := by
  rcases execute_cases h with ⟨htgl, -⟩ | ⟨-, v, -, rfl, -⟩ | ⟨-, -, i, v, -, rfl, -⟩
  · exact absurd htgl hop
  · rfl
  · rfl

/-- Executing an instruction does not move the counter. -/
theorem execute_pc {s t : State n} {ins : Instruction} {event : Event}
    (h : s.execute w ins = .ok (t, event)) : t.pc = s.pc := by
  rcases execute_cases h with ⟨-, d, -, htoggle⟩ | ⟨-, v, -, rfl, -⟩ | ⟨-, -, i, v, -, rfl, -⟩
  · rw [eq_of_toggle htoggle]
  · rfl
  · rfl

theorem advance_program (w : Wiring n) (s : State n) : (s.advance w).program = s.program := by
  unfold advance
  split <;> rfl

theorem perform_eq_ok_iff {s : State n} {ins : Instruction} {next : Step n} :
    s.perform w ins = .ok next ↔
      ∃ u event, s.execute w ins = .ok (u, event) ∧ next = ⟨ins, event, u.advance w⟩ := by
  unfold perform
  constructor
  · intro h
    split at h
    · cases h
    · next u event he =>
      cases h
      exact ⟨u, event, he, rfl⟩
  · rintro ⟨u, event, he, rfl⟩
    simp only [he]

theorem perform_eq_error_iff {s : State n} {ins : Instruction} {failure : Failure (State n)} :
    s.perform w ins = .error failure ↔ s.execute w ins = .error failure := by
  unfold perform
  cases s.execute w ins <;> simp

theorem step_eq_ok_iff {s : State n} {next : Step n} :
    s.step w = .ok next ↔ ∃ t ins u event, s.fetch w = .ok (t, ins) ∧
      t.execute w ins = .ok (u, event) ∧ next = ⟨ins, event, u.advance w⟩ := by
  unfold step
  constructor
  · intro h
    split at h
    · cases h
    · next t ins hf =>
      obtain ⟨u, event, he, rfl⟩ := perform_eq_ok_iff.1 h
      exact ⟨t, ins, u, event, hf, he, rfl⟩
  · rintro ⟨t, ins, u, event, hf, he, rfl⟩
    simp only [hf]
    exact perform_eq_ok_iff.2 ⟨u, event, he, rfl⟩

/-- A program without `tgl` stays as it is. -/
theorem step_program {s : State n} {next : Step n} (hno : ∀ ins ∈ s.program, ins.op ≠ .tgl)
    (h : s.step w = .ok next) : next.next.program = s.program := by
  obtain ⟨t, ins, u, event, hf, he, rfl⟩ := step_eq_ok_iff.1 h
  obtain ⟨hp, -⟩ := fetch_eq_ok_iff.1 hf
  simp only [advance_program]
  rw [execute_program (hno ins (fetch_mem hf)) he, publish_program hp]

/-- A step keeps the operands at every address. -/
theorem step_operands {s : State n} {next : Step n} (h : s.step w = .ok next) :
    next.next.program.operands = s.program.operands := by
  obtain ⟨t, ins, u, event, hf, he, rfl⟩ := step_eq_ok_iff.1 h
  obtain ⟨hp, -⟩ := fetch_eq_ok_iff.1 hf
  simp only [advance_program]
  rw [execute_operands he, publish_program hp]

end State

/-! ## Loading -/

namespace Machine

variable {n : Nat}

theorem pointer_eq_ok_iff {ip : Option Int} {i : Option (Fin n)} :
    pointer n ip = .ok i ↔ ip = i.map fun j : Fin n => (j : Int) := by
  cases ip with
  | none => cases i <;> simp [pointer]
  | some reg =>
    cases i with
    | none => cases h : Registers.index? n reg <;> simp [pointer, h]
    | some j =>
      rw [Option.map_some, Option.some.injEq, ← Registers.index?_eq_some_iff]
      cases h : Registers.index? n reg <;> simp [pointer, h]

theorem load_eq_ok_iff {setup : Setup} {program : Program} {registers : Registers n}
    {m : Machine n} : load setup program registers = .ok m ↔
      ∃ ip : Option (Fin n), setup.ip = ip.map (fun j : Fin n => (j : Int)) ∧
        program.validate n = .ok () ∧
        m = ⟨⟨ip, setup.toggles, setup.watched⟩, ⟨program, registers, setup.pc⟩, 0, #[]⟩ := by
  simp only [load, Except.bind_eq_ok_iff, pointer_eq_ok_iff]
  constructor
  · rintro ⟨ip, hip, _, hvalid, hm⟩
    cases hm
    exact ⟨ip, hip, hvalid, rfl⟩
  · rintro ⟨ip, hip, hvalid, rfl⟩
    exact ⟨ip, hip, (), hvalid, rfl⟩

end Machine

end WordMachine

import WordMachine.Proofs.Addressing

/-!
# Halting values open their gates, in order

The forced run of a collection stands for a family of plain runs, one for each value of the gate
register. If only gates look at that register and nothing writes it, the plain run seeded with `v`
goes through the states of the forced run, with `v` in the gate register, as long as no gate
compares `v`: `State.seed g v` commutes with every step. The first gate that compares `v` is the
first that succeeds, so the values found succeed in the order in which they were found.
-/

namespace WordMachine

variable {n : Nat} {w : Wiring n}

/-- The program leaves register `g` to its gates: it does not toggle, no instruction writes `g`, and
what reads `g` is an `eqrr` of `g` and another register. -/
structure Program.GatedBy (p : Program) (g : Int) : Prop where
  no_tgl : ∀ ins ∈ p, ins.op ≠ .tgl
  unwritten : ∀ ins ∈ p, ins.writes g = false
  gates : ∀ ins ∈ p, g ∈ ins.sources →
    ins.op = .eqrr ∧ (ins.a = g ∧ ins.b ≠ g ∨ ins.a ≠ g ∧ ins.b = g)

namespace Program.GatedBy

variable {p : Program} {g : Int} {ins : Instruction}

/-- An instruction that is no gate does not read the gate register. -/
theorem not_mem_sources (h : p.GatedBy g) (hmem : ins ∈ p)
    (hgate : gateOperand? (some g) ins = none) : g ∉ ins.sources := by
  intro hread
  obtain ⟨hop, hab⟩ := h.gates ins hmem hread
  rcases hab with ⟨rfl, hb⟩ | ⟨-, rfl⟩
  · simp [gateOperand?, hop, Ne.symm hb] at hgate
  · simp [gateOperand?, hop] at hgate

/-- A gate reads the gate register and another one. -/
theorem gate_cases (h : p.GatedBy g) (hmem : ins ∈ p) {reg : Int}
    (hgate : gateOperand? (some g) ins = some reg) :
    ins.op = .eqrr ∧ reg ≠ g ∧ (ins.a = reg ∧ ins.b = g ∨ ins.a = g ∧ ins.b = reg) := by
  obtain ⟨hop, hcases⟩ := gateOperand?_cases hgate
  have hab := (h.gates ins hmem (mem_sources_of_gate hgate).1).2
  simp only [Option.some.injEq] at hcases
  refine ⟨hop, ?_⟩
  grind

end Program.GatedBy

/-! ## Effects of gates -/

namespace Registers

theorem word_toInt (x : Word) : word x.toInt = .ok x := by
  have hlow := Int64.le_toInt x
  have hhigh := Int64.toInt_lt x
  rw [word, Word.ofInt?, if_pos ⟨hlow, hhigh⟩, Int64.ofInt_toInt]

theorem effect_failedGate {r : Registers n} {ins : Instruction} {i : Fin n} {v : Word} :
    r.effect (failedGate ins) = .ok (i, v) ↔ ins.c = i ∧ v = 0 := by
  rw [effect_eq_ok_iff]
  constructor
  · rintro ⟨_, _, _, _, hop, ha, hb, hz, hc, hv⟩
    cases hop
    cases ha
    cases hb
    cases hz
    cases hv
    exact ⟨hc, rfl⟩
  · rintro ⟨hc, rfl⟩
    exact ⟨.first, 0, 0, 0, rfl, rfl, rfl, rfl, hc, rfl⟩

/-- A gate compares its other register with the gate register. -/
theorem effect_gate {p : Program} {g i : Fin n} {ins : Instruction} {reg x : Int} (r : Registers n)
    (v : Word) (hp : p.GatedBy g) (hmem : ins ∈ p)
    (hgate : gateOperand? (some (g : Int)) ins = some reg)
    (hx : r.read reg = .ok x) (hc : ins.c = i) :
    (r.assign g v).effect ins = .ok (i, if x = v.toInt then 1 else 0) := by
  obtain ⟨hop, hne, hab⟩ := hp.gate_cases hmem hgate
  have hreg : (r.assign g v).read reg = .ok x := by rw [read_assign_of_ne r v hne, hx]
  have hg := read_assign_self r g v
  have hword : word (if x = v.toInt then 1 else 0) = .ok (if x = v.toInt then 1 else 0) := by
    split <;> rfl
  rw [effect_eq_ok_iff, hop]
  rcases hab with ⟨ha, hb⟩ | ⟨ha, hb⟩
  · exact ⟨.equal, x, v.toInt, _, rfl, by rw [ha]; exact hreg, by rw [hb]; exact hg, rfl, hc, hword⟩
  · refine ⟨.equal, v.toInt, x, _, rfl, by rw [ha]; exact hg, by rw [hb]; exact hreg, rfl, hc, ?_⟩
    simpa only [eq_comm] using hword

end Registers

/-! ## Seeded states -/

namespace State

/-- The state with register `g` set to `v`. -/
def seed (g : Fin n) (v : Word) (s : State n) : State n :=
  { s with registers := s.registers.assign g v }

@[simp] theorem seed_pc (g : Fin n) (v : Word) (s : State n) : (s.seed g v).pc = s.pc := rfl

@[simp] theorem seed_registers (g : Fin n) (v : Word) (s : State n) :
    (s.seed g v).registers = s.registers.assign g v := rfl

variable {g : Fin n} {v : Word}

theorem fetch_seed {s t : State n} {ins : Instruction} (hg : w.ip ≠ some g)
    (h : s.fetch w = .ok (t, ins)) : (s.seed g v).fetch w = .ok (t.seed g v, ins) := by
  obtain ⟨hp, hget⟩ := fetch_eq_ok_iff.1 h
  refine fetch_eq_ok_iff.2 ⟨?_, hget⟩
  unfold publish at hp ⊢
  split at hp
  · cases hp
    rfl
  · next ip hip =>
    have hne : ip ≠ g := fun heq => hg (by rw [hip, heq])
    obtain ⟨x, hx, rfl⟩ := Except.map_eq_ok_iff.1 hp
    rw [seed_pc, hx]
    exact congrArg (fun r => Except.ok (State.mk s.program r s.pc))
      (Registers.assign_assign_of_ne s.registers v x hne)

theorem advance_seed {s : State n} (hg : w.ip ≠ some g) :
    (s.seed g v).advance w = (s.advance w).seed g v := by
  unfold advance
  split
  · rfl
  · next ip hip =>
    have hne : ip ≠ g := fun heq => hg (by rw [hip, heq])
    simp only [seed, Registers.assign_of_ne s.registers v hne]

/-- An instruction with an effect, executed. -/
theorem execute_of_effect {s : State n} {ins : Instruction} {i : Fin n} {x : Word}
    (h : s.registers.effect ins = .ok (i, x)) :
    s.execute w ins = .ok ({ s with registers := s.registers.assign i x },
      if w.watched = some ins.c then .output x.toInt else .quiet) := by
  rw [execute_of_isAlu s (Registers.effect_destination h).2, h]

/-- An instruction that neither reads nor writes register `g` does not see what is in it. -/
theorem execute_seed {s t : State n} {ins : Instruction} {event : Event} (htgl : ins.op ≠ .tgl)
    (hread : (g : Int) ∉ ins.sources) (hwrite : ins.writes g = false)
    (h : s.execute w ins = .ok (t, event)) :
    (s.seed g v).execute w ins = .ok (t.seed g v, event) := by
  rcases execute_cases h with ⟨hop, -⟩ | ⟨hop, x, hx, rfl, rfl⟩ | ⟨-, -, i, x, hx, rfl, rfl⟩
  · exact absurd hop htgl
  · have hne : ins.a ≠ g := by
      rintro heq
      exact hread (heq ▸ Instruction.mem_sources_a (by rw [hop]; rfl))
    have hx' : (t.seed g v).registers.read ins.a = .ok x := by
      rw [seed_registers, Registers.read_assign_of_ne _ v hne, hx]
    simp only [execute, hop, hx']
  · obtain ⟨hc, halu⟩ := Registers.effect_destination hx
    have hne : i ≠ g := by
      rintro rfl
      simp [Instruction.writes, halu, hc] at hwrite
    rw [execute_of_effect (i := i) (x := x)
      (by rw [seed_registers, Registers.effect_assign_of_not_mem _ v hread, hx])]
    simp only [seed, Registers.assign_assign_of_ne s.registers v x hne]

/-! ## From the forced run to seeded runs -/

/-- A gate that compares something else than the seed does what it is forced to do. -/
theorem execute_gate {s t : State n} {p : Program} {ins : Instruction} {event : Event}
    {reg x : Int} (hp : p.GatedBy g) (hmem : ins ∈ p)
    (hgate : gateOperand? (some (g : Int)) ins = some reg) (hx : s.registers.read reg = .ok x)
    (hne : x ≠ v.toInt) (he : s.execute w (failedGate ins) = .ok (t, event)) :
    (s.seed g v).execute w ins = .ok (t.seed g v, event) := by
  rcases execute_cases he with ⟨hop, -⟩ | ⟨hop, -⟩ | ⟨-, -, i, zero, heffect, rfl, rfl⟩
  · cases hop
  · cases hop
  · obtain ⟨hc, rfl⟩ := Registers.effect_failedGate.1 heffect
    have hseeded := Registers.effect_gate s.registers v hp hmem hgate hx hc
    rw [if_neg hne] at hseeded
    have hunwritten : i ≠ g := by
      rintro rfl
      have := hp.unwritten ins hmem
      simp [Instruction.writes, hc, (Registers.effect_destination hseeded).2] at this
    rw [execute_of_effect (s := s.seed g v) hseeded]
    simp only [seed, Registers.assign_assign_of_ne s.registers v 0 hunwritten]
    rfl

/-- A forced step, unless its gate compares `v`, is a plain step with `v` in the gate register. -/
theorem ForcedStep.seed {s u : State n} {v? : Option Int} (hp : s.program.GatedBy g)
    (hg : w.ip ≠ some g) (h : s.ForcedStep w (some (g : Int)) v? u) (hv : v? ≠ some v.toInt) :
    ∃ next, (s.seed g v).step w = .ok next ∧ next.next = u.seed g v := by
  obtain ⟨t, ins, next, hf, hvalue, hperform, rfl⟩ := h
  obtain ⟨u, event, he, rfl⟩ := perform_eq_ok_iff.1 hperform
  have hmem := fetch_mem hf
  have hseeded : (t.seed g v).execute w ins = .ok (u.seed g v, event) := by
    cases v? with
    | none =>
      have hgate := gateValue_eq_none_iff.1 hvalue
      rw [forced_of_not_gate hgate] at he
      exact execute_seed (hp.no_tgl ins hmem) (hp.not_mem_sources hmem hgate)
        (hp.unwritten ins hmem) he
    | some x =>
      obtain ⟨reg, hgate, hx⟩ := gateValue_eq_some_iff.1 hvalue
      rw [forced_of_gate hgate] at he
      exact execute_gate hp hmem hgate hx (fun heq => hv (by rw [heq])) he
  exact ⟨_, step_eq_ok_iff.2 ⟨_, ins, _, event, fetch_seed hg hf, hseeded, rfl⟩, advance_seed hg⟩

theorem ForcedStep.program_eq {s u : State n} {gate v? : Option Int}
    (hno : ∀ ins ∈ s.program, ins.op ≠ .tgl) (h : s.ForcedStep w gate v? u) :
    u.program = s.program := by
  obtain ⟨t, ins, next, hf, -, hperform, rfl⟩ := h
  obtain ⟨u, event, he, rfl⟩ := perform_eq_ok_iff.1 hperform
  obtain ⟨hpublish, -⟩ := fetch_eq_ok_iff.1 hf
  have hop : (forced gate ins).op ≠ .tgl := fun htgl =>
    hno ins (fetch_mem hf) (forced_of_tgl htgl ▸ htgl)
  rw [advance_program, execute_program hop he, publish_program hpublish]

theorem ForcedRun.program_eq {k : Nat} {s t : State n} {gate : Option Int} {vs : List Int}
    (h : ForcedRun w gate k s vs t) (hno : ∀ ins ∈ s.program, ins.op ≠ .tgl) :
    t.program = s.program := by
  induction h with
  | refl => rfl
  | step _ hs _ ih =>
    have heq := hs.program_eq hno
    rw [ih (heq ▸ hno), heq]

/-- The forced run is the plain run with `v` in the gate register, as long as no gate compares
`v`. -/
theorem ForcedRun.seed {k : Nat} {s t : State n} {vs : List Int}
    (h : ForcedRun w (some (g : Int)) k s vs t) (hp : s.program.GatedBy g) (hg : w.ip ≠ some g)
    (hv : v.toInt ∉ vs) : ∃ o, Run w k (s.seed g v) o (t.seed g v) := by
  induction h with
  | refl => exact ⟨[], .refl _⟩
  | @step k s t u v? vs hh hs _ ih =>
    have hv? : v? ≠ some v.toInt := by
      rintro rfl
      simp at hv
    obtain ⟨next, hstep, hnext⟩ := hs.seed hp hg hv?
    obtain ⟨o, hrun⟩ := ih (hs.program_eq hp.no_tgl ▸ hp) fun hmem =>
      hv (List.mem_append_right _ hmem)
    exact ⟨_, .step hh hstep (hnext ▸ hrun)⟩

/-! ## What gates write -/

/-- The next step executes a gate, and the gate writes `v`. -/
def GateWrites (w : Wiring n) (gate : Option Int) (s : State n) (v : Int) : Prop :=
  ∃ t ins i x, s.fetch w = .ok (t, ins) ∧ (gateOperand? gate ins).isSome = true ∧
    t.registers.effect ins = .ok (i, x) ∧ x.toInt = v

theorem GateWrites.det {s : State n} {gate : Option Int} {x y : Int}
    (h1 : s.GateWrites w gate x) (h2 : s.GateWrites w gate y) : x = y := by
  obtain ⟨t, ins, i, a, hf, -, he, rfl⟩ := h1
  obtain ⟨t', ins', i', b, hf', -, he', rfl⟩ := h2
  rw [hf] at hf'
  cases hf'
  rw [he] at he'
  cases he'
  rfl

/-- With `v` in the gate register, a gate writes whether it compares `v`. -/
theorem Meets.gateWrites {s : State n} {x : Int} (hp : s.program.GatedBy g)
    (hwithin : ∀ ins ∈ s.program, ins.Within n) (hg : w.ip ≠ some g)
    (h : s.Meets w (some (g : Int)) x) :
    (s.seed g v).GateWrites w (some (g : Int)) (if x = v.toInt then 1 else 0) := by
  obtain ⟨t, ins, hf, hvalue⟩ := h
  obtain ⟨reg, hgate, hx⟩ := gateValue_eq_some_iff.1 hvalue
  have hmem := fetch_mem hf
  have halu : ins.op.isAlu = true := by rw [(gateOperand?_cases hgate).1]; rfl
  obtain ⟨i, hi⟩ := Registers.exists_index ((hwithin ins hmem).destination halu)
  have hc := Registers.index_eq_ok_iff.1 hi
  refine ⟨t.seed g v, ins, i, _, fetch_seed hg hf, by simp [hgate],
    Registers.effect_gate t.registers v hp hmem hgate hx hc, ?_⟩
  split <;> rfl

/-- A gate that compares something else than the seed writes 0. -/
theorem ForcedStep.gate_shut {s u : State n} {v? : Option Int} {y : Int}
    (hp : s.program.GatedBy g) (hwithin : ∀ ins ∈ s.program, ins.Within n) (hg : w.ip ≠ some g)
    (h : s.ForcedStep w (some (g : Int)) v? u) (hv : v? ≠ some v.toInt)
    (hy : (s.seed g v).GateWrites w (some (g : Int)) y) : y = 0 := by
  cases v? with
  | none =>
    obtain ⟨t, ins, -, hf, hvalue, -⟩ := h
    obtain ⟨t', ins', -, -, hf', hgate, -⟩ := hy
    rw [fetch_seed hg hf] at hf'
    cases hf'
    rw [gateValue_eq_none_iff.1 hvalue] at hgate
    cases hgate
  | some x =>
    have hne : x ≠ v.toInt := fun heq => hv (by rw [heq])
    rw [hy.det (h.meets.gateWrites hp hwithin hg), if_neg hne]

/-- The same program and counter, and the same registers except perhaps register `g`. -/
def AgreesOff (g : Int) (s t : State n) : Prop :=
  t.program = s.program ∧ t.pc = s.pc ∧
    ∀ i : Fin n, (i : Int) ≠ g → t.registers.get i = s.registers.get i

theorem agreesOff_seed (g : Fin n) (v : Word) (s : State n) : AgreesOff g s (s.seed g v) := by
  refine ⟨rfl, rfl, fun i hi => Registers.assign_of_ne s.registers v fun heq => hi ?_⟩
  rw [heq]

end State

/-! ## Opening gates -/

namespace Machine

variable {m : Machine n} {gate : Option Int}

/-- The step after `k` others executes a gate that succeeds, and every gate before it fails. -/
structure OpensAt (m : Machine n) (gate : Option Int) (k : Nat) : Prop where
  opens : ∃ last, m.runFor k = .ok last ∧ last.steps = m.steps + k ∧ last.halted = false ∧
    last.state.GateWrites m.wiring gate 1
  shut : ∀ j < k, ∀ last, m.runFor j = .ok last → ∀ v, last.state.GateWrites m.wiring gate v → v = 0

theorem OpensAt.le {j k : Nat} (h1 : m.OpensAt gate j) (h2 : m.OpensAt gate k) : k ≤ j := by
  refine Nat.le_of_not_lt fun hlt => ?_
  obtain ⟨last, hrun, -, -, hopen⟩ := h1.opens
  have := h2.shut j hlt last hrun 1 hopen
  omega

theorem OpensAt.unique {j k : Nat} (h1 : m.OpensAt gate j) (h2 : m.OpensAt gate k) : j = k :=
  Nat.le_antisymm (h2.le h1) (h1.le h2)

/-- The machine with register `g` set to `v`. -/
def seeded (m : Machine n) (g : Fin n) (v : Word) : Machine n :=
  { m with state := m.state.seed g v }

theorem load_seeded {setup : Setup} {program : Program} {registers : Registers n} (g : Fin n)
    (v : Word) (h : load setup program registers = .ok m) :
    registers.write g v.toInt = .ok (registers.assign g v) ∧
      load setup program (registers.assign g v) = .ok (m.seeded g v) := by
  obtain ⟨ip, hip, hvalid, rfl⟩ := load_eq_ok_iff.1 h
  have hwrite : registers.write g v.toInt = .ok (registers.assign g v) := by
    rw [Registers.write, Registers.index_eq_ok_iff.2 rfl, Registers.word_toInt]
    rfl
  exact ⟨hwrite, load_eq_ok_iff.2 ⟨ip, hip, hvalid, rfl⟩⟩

section

variable {g : Fin n} {v : Word} (hp : m.state.program.GatedBy g) (hg : m.wiring.ip ≠ some g)
include hp hg

/-- The seeded machine follows the forced run while no gate compares the seed. -/
theorem runFor_seeded {k : Nat} {vs : List Int} {t : State n}
    (h : m.state.ForcedRun m.wiring (some (g : Int)) k vs t) (hv : v.toInt ∉ vs) :
    ∃ o, (m.seeded g v).runFor k = .ok ((m.seeded g v).moved k o (t.seed g v)) := by
  obtain ⟨o, hrun⟩ := h.seed hp hg hv
  exact ⟨o, runFor_of_run hrun⟩

theorem agrees_seeded {k : Nat} {vs : List Int} {t : State n}
    (h : m.state.ForcedRun m.wiring (some (g : Int)) k vs t) (hv : v.toInt ∉ vs) {j : Nat}
    (hj : j ≤ k) : ∃ xs s last, m.state.ForcedRun m.wiring (some (g : Int)) j xs s ∧
      (m.seeded g v).runFor j = .ok last ∧ last.steps = m.steps + j ∧
        s.AgreesOff g last.state := by
  obtain ⟨xs, s, hrun, hpre⟩ := h.exists_at hj
  obtain ⟨o, hseeded⟩ := runFor_seeded hp hg hrun fun hmem => hv (hpre.subset hmem)
  exact ⟨xs, s, _, hrun, hseeded, rfl, State.agreesOff_seed g v s⟩

/-- The first gate that compares the seed is the first that succeeds. -/
theorem opensAt_seeded (hwithin : ∀ ins ∈ m.state.program, ins.Within n) {k : Nat}
    {vs : List Int} (h : m.state.Records m.wiring (some (g : Int)) k vs v.toInt)
    (hv : v.toInt ∉ vs) : (m.seeded g v).OpensAt (some (g : Int)) k := by
  obtain ⟨t, hrun, ht, hmeets⟩ := h
  constructor
  · obtain ⟨o, hseeded⟩ := runFor_seeded hp hg hrun hv
    have hprogram := hrun.program_eq hp.no_tgl
    have hwrites := hmeets.gateWrites (v := v) (hprogram ▸ hp) (hprogram ▸ hwithin) hg
    rw [if_pos rfl] at hwrites
    exact ⟨_, hseeded, rfl, ht, hwrites⟩
  · intro j hj last hlast y hy
    obtain ⟨xs, s, v?, s', hrun', -, hstep, hpre⟩ := hrun.exists_step hj
    have hfresh : v.toInt ∉ xs ++ v?.toList := fun hmem => hv (hpre.subset hmem)
    have hxs : v.toInt ∉ xs := fun hmem => hfresh (List.mem_append_left _ hmem)
    have hv? : v? ≠ some v.toInt := by
      rintro rfl
      exact hfresh (List.mem_append_right _ (by simp))
    obtain ⟨o, hseeded⟩ := runFor_seeded hp hg hrun' hxs
    rw [hseeded] at hlast
    obtain rfl := Except.ok.inj hlast
    have hprogram := hrun'.program_eq hp.no_tgl
    exact hstep.gate_shut (hprogram ▸ hp) (hprogram ▸ hwithin) hg hv? hy

end

end Machine

/-- What a gate compares is a word, and the gate register is one of the file. -/
theorem State.Records.exists_word {s : State n} {g : Int} {k : Nat} {vs : List Int} {x : Int}
    (hno : ∀ ins ∈ s.program, ins.op ≠ .tgl) (hwithin : ∀ ins ∈ s.program, ins.Within n)
    (h : s.Records w (some g) k vs x) : ∃ (r : Fin n) (v : Word), g = r ∧ v.toInt = x := by
  obtain ⟨t, hrun, -, u, ins, hf, hvalue⟩ := h
  obtain ⟨reg, hgate, hx⟩ := State.gateValue_eq_some_iff.1 hvalue
  have hmem := fetch_mem hf
  rw [hrun.program_eq hno] at hmem
  have hread := (mem_sources_of_gate hgate).1
  obtain ⟨r, hr⟩ := Registers.exists_index ((hwithin ins hmem).source hread)
  obtain ⟨i, -, hi⟩ := Registers.read_eq_ok_iff.1 hx
  exact ⟨r, _, Registers.index_eq_ok_iff.1 hr, hi⟩

/-- The run with the gate register `g` set to `v` first succeeds at a gate after `k` steps. -/
def SeedOpens (setup : Setup) (program : Program) (registers : Registers n) (g v : Int) (k : Nat) :
    Prop :=
  ∃ seeded m, registers.write g v = .ok seeded ∧ Machine.load setup program seeded = .ok m ∧
    m.OpensAt (some g) k

theorem SeedOpens.unique {setup : Setup} {program : Program} {registers : Registers n} {g v : Int}
    {j k : Nat} (h1 : SeedOpens setup program registers g v j)
    (h2 : SeedOpens setup program registers g v k) : j = k := by
  obtain ⟨r, m, hr, hm, hopen⟩ := h1
  obtain ⟨r', m', hr', hm', hopen'⟩ := h2
  rw [hr] at hr'
  cases hr'
  rw [hm] at hm'
  cases hm'
  exact hopen.unique hopen'

theorem not_mem_take_of_nodup {vs : List Int} (h : vs.Nodup) {i : Nat} {v : Int}
    (hv : vs[i]? = some v) : v ∉ vs.take i := by
  intro hmem
  obtain ⟨hi, rfl⟩ := List.getElem?_eq_some_iff.1 hv
  obtain ⟨j, hj, hjv⟩ := List.mem_take_iff_getElem.1 hmem
  have := (List.Nodup.getElem_inj_iff h).1 hjv
  omega

/-- What a loaded machine keeps of a program that leaves a register to its gates. -/
theorem Machine.gated_of_load {setup : Setup} {program : Program} {registers : Registers n}
    {m : Machine n} {g : Int} (hload : Machine.load setup program registers = .ok m)
    (hprogram : program.GatedBy g) :
    m.state.program.GatedBy g ∧ ∀ ins ∈ m.state.program, ins.Within n := by
  obtain ⟨ip, -, hvalid, rfl⟩ := Machine.load_eq_ok_iff.1 hload
  exact ⟨hprogram, Program.validate_eq_ok_iff.1 hvalid⟩

theorem Machine.ip_ne_of_load {setup : Setup} {program : Program} {registers : Registers n}
    {m : Machine n} {r : Fin n} (hload : Machine.load setup program registers = .ok m)
    (hip : setup.ip ≠ some (r : Int)) : m.wiring.ip ≠ some r := by
  obtain ⟨ip, hipeq, -, rfl⟩ := Machine.load_eq_ok_iff.1 hload
  intro heq
  obtain rfl : ip = some r := heq
  exact hip hipeq

/-- The plain run seeded with a value that the forced run records for the first time. -/
theorem exists_seeded {setup : Setup} {program : Program} {registers : Registers n}
    {m : Machine n} {g x : Int} {k : Nat} {vs : List Int}
    (hload : Machine.load setup program registers = .ok m) (hip : setup.ip ≠ some g)
    (hprogram : program.GatedBy g) (h : m.state.Records m.wiring (some g) k vs x) (hx : x ∉ vs) :
    ∃ seeded m', registers.write g x = .ok seeded ∧ Machine.load setup program seeded = .ok m' ∧
      m'.OpensAt (some g) k ∧ ∀ j ≤ k, ∃ xs s last,
        m.state.ForcedRun m.wiring (some g) j xs s ∧ m'.runFor j = .ok last ∧ last.steps = j ∧
          s.AgreesOff g last.state := by
  obtain ⟨hp, hwithin⟩ := Machine.gated_of_load hload hprogram
  obtain ⟨r, v, rfl, rfl⟩ := h.exists_word hp.no_tgl hwithin
  have hg := Machine.ip_ne_of_load hload hip
  obtain ⟨hwrite, hseeded⟩ := Machine.load_seeded r v hload
  refine ⟨_, _, hwrite, hseeded, Machine.opensAt_seeded hp hg hwithin h hx, fun j hj => ?_⟩
  obtain ⟨t, hrun, -⟩ := h
  obtain ⟨xs, s, last, hrun', hlast, hsteps, hagrees⟩ := Machine.agrees_seeded hp hg hrun hx hj
  have hzero : m.steps = 0 := by
    obtain ⟨_, -, -, rfl⟩ := Machine.load_eq_ok_iff.1 hload
    rfl
  exact ⟨xs, s, last, hrun', hlast, by omega, hagrees⟩

/-- The values that a collection finds are real and in order. Seeded with the `i`-th of them, the
plain run agrees with the forced run, the gate register aside, until the forced run comes to the
gate where the value was recorded; every gate before it fails, and it succeeds. So the first value
is the one whose gate succeeds soonest, and the last the one whose gate succeeds latest. -/
theorem haltingValues_open_in_order {setup : Setup} {c : Collection} {g : Int} {program : Program}
    {registers : Registers n} {found : HaltingValues} (hgate : c.gate = some g)
    (hip : setup.ip ≠ some g) (hprogram : program.GatedBy g)
    (hfound : haltingValues setup c program registers = .ok found) :
    ∃ (m : Machine n) (step : Nat → Nat), Machine.load setup program registers = .ok m ∧
      (∀ i v, found.values[i]? = some v →
        m.state.Records m.wiring (some g) (step i) (found.values.toList.take i) v ∧
        ∃ seeded m', registers.write g v = .ok seeded ∧
          Machine.load setup program seeded = .ok m' ∧ m'.OpensAt (some g) (step i) ∧
          ∀ k ≤ step i, ∃ vs s last, m.state.ForcedRun m.wiring (some g) k vs s ∧
            m'.runFor k = .ok last ∧ last.steps = k ∧ s.AgreesOff g last.state) ∧
      (∀ i j, i < j → j < found.values.size → step i < step j) ∧
      (found.first? = found.values[0]? ∧
        ∀ first k, found.first? = some first → SeedOpens setup program registers g first k →
          ∀ v ∈ found.values, ∀ j, SeedOpens setup program registers g v j → k ≤ j) ∧
      found.last? = found.values.back? ∧
        ∀ last k, found.last? = some last → SeedOpens setup program registers g last k →
          ∀ v ∈ found.values, ∀ j, SeedOpens setup program registers g v j → j ≤ k := by
  obtain ⟨m, hload, hcollect⟩ := Except.bind_eq_ok_iff.1 hfound
  obtain ⟨hnodup, hrecords⟩ := (hcollect ▸ c.gathered_collect m).records
  rw [hgate] at hrecords
  have hstep : ∀ i, ∃ k, ∀ v, found.values[i]? = some v →
      m.state.Records m.wiring (some g) k (found.values.toList.take i) v := by
    intro i
    cases hv : found.values[i]? with
    | none => exact ⟨0, by simp⟩
    | some v =>
      obtain ⟨k, hk⟩ := hrecords i v hv
      exact ⟨k, fun u hu => Option.some.inj hu ▸ hk⟩
  choose step hstep using hstep
  have hseeded : ∀ i v, found.values[i]? = some v → _ := fun i v hv =>
    exists_seeded hload hip hprogram (hstep i v hv)
      (not_mem_take_of_nodup hnodup (by rwa [Array.getElem?_toList]))
  have hopens : ∀ i v k, found.values[i]? = some v →
      SeedOpens setup program registers g v k → k = step i := by
    intro i v k hv hk
    obtain ⟨seeded, m', hwrite, hload', hopen, -⟩ := hseeded i v hv
    exact hk.unique ⟨seeded, m', hwrite, hload', hopen⟩
  have hmono : ∀ i j, i < j → j < found.values.size → step i < step j := by
    intro i j hij hj
    have hi := hstep i _ (Array.getElem?_eq_getElem (Nat.lt_trans hij hj))
    refine hi.lt_of_length_lt (hstep j _ (Array.getElem?_eq_getElem hj)) ?_
    simp only [List.length_take, Array.length_toList]
    omega
  have hmono' : ∀ i j, i ≤ j → j < found.values.size → step i ≤ step j := by
    intro i j hij hj
    rcases Nat.lt_or_eq_of_le hij with hlt | rfl
    · exact Nat.le_of_lt (hmono i j hlt hj)
    · exact Nat.le_refl _
  refine ⟨m, step, hload, fun i v hv => ⟨hstep i v hv, hseeded i v hv⟩, hmono, ⟨rfl, ?_⟩, rfl, ?_⟩
  · intro first k hfirst hk v hv j hj
    obtain ⟨i, hi⟩ := Array.mem_iff_getElem?.1 hv
    obtain ⟨hlt, -⟩ := Array.getElem?_eq_some_iff.1 hi
    rw [hopens 0 first k hfirst hk, hopens i v j hi hj]
    exact hmono' 0 i (Nat.zero_le i) hlt
  · intro last k hlast hk v hv j hj
    obtain ⟨i, hi⟩ := Array.mem_iff_getElem?.1 hv
    obtain ⟨hlt, -⟩ := Array.getElem?_eq_some_iff.1 hi
    rw [HaltingValues.last?, Array.back?] at hlast
    rw [hopens _ last k hlast hk, hopens i v j hi hj]
    exact hmono' i _ (by omega) (by omega)

/-- A loop through numbers below 16, which its gate leaves at the number in the gate register. -/
def gatedGenerator : Program :=
  #[⟨.seti, 0, 0, 1⟩, ⟨.muli, 1, 5, 1⟩, ⟨.addi, 1, 3, 1⟩, ⟨.bani, 1, 15, 1⟩, ⟨.eqrr, 1, 0, 3⟩,
    ⟨.addr, 3, 5, 5⟩, ⟨.seti, 0, 0, 5⟩]

theorem haltingValues_open_in_order_generator :
    let registers : Registers 6 := #v[0, 0, 0, 0, 0, 0]
    gatedGenerator.GatedBy 0 ∧
      haltingValues { ip := some 5 } { budget := some 20 } gatedGenerator registers =
        .ok ⟨#[3, 2, 13], .budget, 20⟩ ∧
      ∃ step : Nat → Nat, step 0 < step 2 ∧
        SeedOpens { ip := some 5 } gatedGenerator registers 0 13 (step 2) := by
  intro registers
  have hgated : gatedGenerator.GatedBy 0 := ⟨by decide, by decide, by decide⟩
  have hfound : haltingValues { ip := some 5 } { budget := some 20 } gatedGenerator registers =
      .ok ⟨#[3, 2, 13], .budget, 20⟩ := by
    cbv
  obtain ⟨m, step, -, hopens, hmono, -⟩ :=
    haltingValues_open_in_order rfl (by decide) hgated hfound
  obtain ⟨-, seeded, m', hwrite, hload, hopen, -⟩ := hopens 2 13 rfl
  exact ⟨hgated, hfound, step, hmono 0 2 (by decide) (by decide), seeded, m', hwrite, hload, hopen⟩

end WordMachine

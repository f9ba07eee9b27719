import Mathlib
import WordMachine.Flow
import WordMachine.Proofs.Effect
import WordMachine.Proofs.Run
import WordMachine.Proofs.Search
import WordMachine.Proofs.Step

/-!
# The flow graph covers every step

The graph takes it that a register added to the counter holds the result of a comparison. Where that
is so, each step goes along an edge, to the sink if it leaves the program, or starts at an indirect
jump. So a run goes along a path of the graph, and where the search finds neither the sink nor an
indirect jump there is no run that halts. A program has a graph if its instructions can be written.

A step is matched with an edge in two parts. The counter is published before an instruction
executes, so the instruction reads the address it stands at from the wired register; what it writes
there is then, by the opcode, the value before one of the listed successors.
-/

namespace WordMachine

/-! ## Conditional skips -/

/-- The register that an `addr` adds to the counter, if it adds the counter and another register. -/
def Instruction.skip? (ip : Int) (ins : Instruction) : Option Int :=
  if ins.op = .addr ∧ ins.c = ip then
    if ins.a = ip ∧ ins.b ≠ ip then some ins.b
    else if ins.b = ip ∧ ins.a ≠ ip then some ins.a
    else none
  else none

theorem Instruction.skip?_ne {ip other : Int} {ins : Instruction} (h : ins.skip? ip = some other) :
    other ≠ ip := by
  unfold skip? at h
  split at h
  · split at h
    · next hb =>
      cases h
      exact hb.2
    · split at h
      · next ha =>
        cases h
        exact ha.2
      · cases h
  · cases h

namespace State

variable {n : Nat} {w : Wiring n}

/-- If the instruction that comes next is a conditional skip, its condition is 0 or 1. -/
def SkipsAtMostOne (w : Wiring n) (s : State n) : Prop :=
  ∀ ip ins other v, w.ip = some ip → s.program.get s.pc = .ok ins → ins.skip? ip = some other →
    s.registers.read other = .ok v → v = 0 ∨ v = 1

/-- The condition is 0 or 1 at each conditional skip among the next `k` instructions. -/
def SkipsWithin (w : Wiring n) (s : State n) (k : Nat) : Prop :=
  ∀ j < k, ∀ o t, Run w j s o t → t.SkipsAtMostOne w

theorem SkipsWithin.head {s : State n} {k : Nat} (h : s.SkipsWithin w (k + 1)) :
    s.SkipsAtMostOne w :=
  h 0 k.succ_pos [] s (.refl s)

theorem SkipsWithin.tail {s : State n} {k : Nat} {next : Step n} (h : s.SkipsWithin w (k + 1))
    (hh : s.halted = false) (hs : s.step w = .ok next) : next.next.SkipsWithin w k :=
  fun j hj _ t hrun => h (j + 1) (Nat.succ_lt_succ hj) _ t (.step hh hs hrun)

end State

/-! ## Jumps -/

/-- What an instruction writes to the wired register is the value before one of its successors. -/
theorem Registers.effect_mem_successors {n : Nat} {r : Registers n} {ip : Fin n} {pc : Int}
    {ins : Instruction} {v : Word} {targets : List Int} (hip : r.read ip = .ok pc)
    (hskip : ∀ other x, ins.skip? ip = some other → r.read other = .ok x → x = 0 ∨ x = 1)
    (heffect : r.effect ins = .ok (ip, v)) (htargets : successors (some ip) pc ins = some targets) :
    v.toInt + 1 ∈ targets := by
  obtain ⟨hc, halu⟩ := effect_destination heffect
  obtain ⟨operation, x, y, z, hop, hx, hy, hz, -, hv⟩ := effect_eq_ok_iff.1 heffect
  have hwrites : ins.writes ip = true := by simp [Instruction.writes, halu, hc]
  have hcounter : ∀ u, r.read ip = .ok u → u = pc := fun u hu => by
    rw [hip] at hu
    exact (Except.ok.inj hu).symm
  rw [toInt_of_word hv]
  simp only [successors, hwrites, Bool.not_true, Bool.false_eq_true, if_false] at htargets
  obtain ⟨op, a, b, c⟩ := ins
  simp only at hc hx hy hop
  -- Only the opcodes of the idioms have successors listed.
  cases op with
  | seti =>
    cases hop
    cases hx
    cases hz
    cases htargets
    exact List.mem_singleton_self _
  | setr =>
    cases hop
    cases hz
    obtain ⟨rfl, ⟨⟩⟩ := Option.ite_none_right_eq_some.1 htargets
    rw [hcounter _ hx]
    exact List.mem_singleton_self _
  | addi =>
    cases hop
    cases hy
    cases hz
    obtain ⟨rfl, ⟨⟩⟩ := Option.ite_none_right_eq_some.1 htargets
    rw [hcounter _ hx]
    exact List.mem_singleton_self _
  | addr =>
    cases hop
    cases hz
    simp only at htargets
    split at htargets
    · next hboth =>
      obtain ⟨rfl, rfl⟩ := hboth
      cases htargets
      rw [hcounter _ hx, hcounter _ hy, ← Int.two_mul]
      exact List.mem_singleton_self _
    · next hboth =>
      obtain ⟨hone, ⟨⟩⟩ := Option.ite_none_right_eq_some.1 htargets
      suffices h : x + y = pc ∨ x + y = pc + 1 by
        simp only [List.mem_cons, List.not_mem_nil, or_false]
        omega
      rcases hone with rfl | rfl
      · have hb : b ≠ ip := fun heq => hboth ⟨rfl, heq⟩
        have hy' := hskip b y (by simp [Instruction.skip?, hc, hb]) hy
        have hx' := hcounter x hx
        omega
      · have ha : a ≠ ip := fun heq => hboth ⟨heq, rfl⟩
        have hx' := hskip a x (by simp [Instruction.skip?, hc, ha]) hx
        have hy' := hcounter y hy
        omega
  | mulr =>
    cases hop
    cases hz
    obtain ⟨⟨rfl, rfl⟩, ⟨⟩⟩ := Option.ite_none_right_eq_some.1 htargets
    rw [hcounter _ hx, hcounter _ hy]
    exact List.mem_singleton_self _
  | muli =>
    cases hop
    cases hy
    cases hz
    obtain ⟨rfl, ⟨⟩⟩ := Option.ite_none_right_eq_some.1 htargets
    rw [hcounter _ hx]
    exact List.mem_singleton_self _
  | _ => cases htargets

namespace State

variable {n : Nat} {w : Wiring n}

/-- What an instruction does to one register: it writes its result there, or leaves it. -/
theorem execute_register {s t : State n} {ins : Instruction} {event : Event} (i : Fin n)
    (h : s.execute w ins = .ok (t, event)) :
    (ins.writes i = false ∧ t.registers.get i = s.registers.get i) ∨
      (ins.writes i = true ∧ s.registers.effect ins = .ok (i, t.registers.get i)) := by
  rcases execute_cases h with ⟨hop, d, -, htoggle⟩ | ⟨hop, v, -, rfl, -⟩ |
    ⟨-, -, j, v, heffect, rfl, -⟩
  · refine .inl ⟨by simp [Instruction.writes, Opcode.isAlu, Opcode.signature, hop], ?_⟩
    rw [eq_of_toggle htoggle]
  · exact .inl ⟨by simp [Instruction.writes, Opcode.isAlu, Opcode.signature, hop], rfl⟩
  · obtain ⟨hc, halu⟩ := Registers.effect_destination heffect
    by_cases hij : i = j
    · subst hij
      refine .inr ⟨by simp [Instruction.writes, halu, hc], ?_⟩
      rw [Registers.assign_self]
      exact heffect
    · refine .inl ⟨?_, Registers.assign_of_ne s.registers v hij⟩
      simp only [Instruction.writes, halu, hc, Bool.true_and, beq_eq_false_iff_ne, ne_eq]
      omega

/-- A step leads to one of the successors of its instruction, if these are known. -/
theorem step_mem_successors {s : State n} {next : Step n} (hs : s.step w = .ok next)
    (hskips : s.SkipsAtMostOne w) : ∃ ins, s.program.get s.pc = .ok ins ∧
      ∀ targets, successors (w.ip.map fun j : Fin n => (j : Int)) s.pc ins = some targets →
        next.next.pc ∈ targets := by
  obtain ⟨t, ins, u, event, hfetch, hexecute, rfl⟩ := step_eq_ok_iff.1 hs
  obtain ⟨hpublish, hget⟩ := fetch_eq_ok_iff.1 hfetch
  have hpc : u.pc = s.pc := (execute_pc hexecute).trans (publish_pc hpublish)
  rw [publish_program hpublish, publish_pc hpublish] at hget
  refine ⟨ins, hget, fun targets htargets => ?_⟩
  rcases publish_cases hpublish with ⟨hip, rfl⟩ | ⟨ip, v, hip, hv, rfl⟩
  · rw [hip] at htargets
    cases htargets
    simp [advance, hip, hpc]
  · simp only [hip, Option.map_some] at htargets
    simp only [advance, hip]
    -- The instruction reads its own address from the wired register.
    have hcounter : (s.registers.assign ip v).read ip = .ok s.pc := by
      rw [Registers.read_assign_self, Registers.toInt_of_word hv]
    rcases execute_register ip hexecute with ⟨hwrites, hkept⟩ | ⟨hwrites, heffect⟩
    · have htargets' : [s.pc + 1] = targets := by simpa [successors, hwrites] using htargets
      have hpublished : ((s.registers.assign ip v).get ip).toInt = s.pc := by
        rw [Registers.assign_self, Registers.toInt_of_word hv]
      rw [← htargets', hkept]
      exact List.mem_singleton.2 (congrArg (· + 1) hpublished)
    · refine Registers.effect_mem_successors hcounter (fun other x hother hx => ?_) heffect htargets
      rw [Registers.read_assign_of_ne _ _ (Instruction.skip?_ne hother)] at hx
      exact hskips ip ins other x hip hget hother hx

end State

/-! ## Labels -/

theorem Instruction.exists_text_iff {ins : Instruction} :
    (∃ text, ins.text = .ok text) ↔ ins.Writable := by
  unfold text
  split <;> simp [*]

namespace FlowGraph

/-- The graph that is built is that of the program, and it is built if every instruction can be
written. -/
theorem ofProgram_eq_ok_iff {program : Program} {ip : Option Int} {g : FlowGraph} :
    ofProgram program ip = .ok g ↔ (∀ ins ∈ program, ins.Writable) ∧ g = ⟨program, ip⟩ := by
  have hlabels : (∃ labels, program.toList.mapM Instruction.text = .ok labels) ↔
      ∀ ins ∈ program, ins.Writable := by
    simp only [Except.exists_mapM_eq_ok_iff, Instruction.exists_text_iff, Array.mem_toList_iff]
  rw [ofProgram, Except.map_eq_ok_iff, exists_and_right, hlabels, eq_comm]

theorem exists_ofProgram_iff {program : Program} {ip : Option Int} :
    (∃ g, ofProgram program ip = .ok g) ↔ ∀ ins ∈ program, ins.Writable := by
  simp [ofProgram_eq_ok_iff]

/-! ## Edges -/

variable {g : FlowGraph}

/-- There is an edge from an address to a target: to its address, or to the sink if it has none. -/
def HasEdge (g : FlowGraph) (address : Nat) (target : Int) : Prop :=
  if g.program.hasAddress target then target.toNat ∈ g.next address else g.leaves address = true

theorem hasEdge_of_mem_targets {address : Nat} {target : Int} (h : target ∈ g.targets address) :
    g.HasEdge address target := by
  unfold HasEdge
  split
  · next hin => exact List.mem_map_of_mem (List.mem_filter.2 ⟨h, hin⟩)
  · next hout => exact List.any_eq_true.2 ⟨target, h, by simp [hout]⟩

theorem lt_size_of_mem_next {address v : Nat} (h : v ∈ g.next address) : v < g.program.size := by
  obtain ⟨target, htarget, rfl⟩ := List.mem_map.1 h
  have hin := Program.hasAddress_iff.1 (List.mem_filter.1 htarget).2
  omega

theorem successors_nodup {ip : Option Int} {address : Int} {ins : Instruction} {targets : List Int}
    (h : successors ip address ins = some targets) : targets.Nodup := by
  unfold successors at h
  grind

theorem nodup_next (g : FlowGraph) (address : Nat) : (g.next address).Nodup := by
  have htargets : (g.targets address).Nodup := by
    unfold targets targets?
    split
    · cases h : successors g.ip address _ with
      | none => exact List.nodup_nil
      | some targets => exact successors_nodup h
    · exact List.nodup_nil
  refine List.Nodup.map_on (fun x hx y hy heq => ?_) (htargets.filter _)
  have hx' := Program.hasAddress_iff.1 (List.mem_filter.1 hx).2
  have hy' := Program.hasAddress_iff.1 (List.mem_filter.1 hy).2
  omega

/-- The targets of an address are the successors of its instruction. -/
theorem targets?_of_get {address : Int} {ins : Instruction}
    (hin : g.program.hasAddress address = true) (hget : g.program.get address = .ok ins) :
    g.targets? address.toNat = successors g.ip address ins := by
  rw [Program.get_eq_ok_iff, Program.at?_of_hasAddress hin] at hget
  have hcast : (address.toNat : Int) = address := by
    have := Program.hasAddress_iff.1 hin
    omega
  simp only [targets?, hget, hcast]

/-- No way from an address leads out of the program or to an indirect jump. -/
def Confined (g : FlowGraph) (address : Nat) : Prop :=
  ∀ v, Relation.ReflTransGen (fun u v => v ∈ g.next u) address v →
    g.leaves v = false ∧ g.indirect v = false

theorem Confined.next {address v : Nat} (h : g.Confined address) (hv : v ∈ g.next address) :
    g.Confined v :=
  fun u hpath => h u (hpath.head hv)

theorem confined_of_mayHalt {start : Int} (h : g.mayHalt start = false) :
    g.program.hasAddress start = true ∧ g.Confined start.toNat := by
  simp only [mayHalt, Bool.or_eq_false_iff, Bool.not_eq_false'] at h
  obtain ⟨hin, hreaches⟩ := h
  have hbounds := Program.hasAddress_iff.1 hin
  refine ⟨hin, fun v hpath => ?_⟩
  have hgoal := Flow.goal_eq_false_of_reaches g.nodup_next (fun _ _ => lt_size_of_mem_next)
    (by omega) hreaches hpath
  simpa using hgoal

end FlowGraph

/-! ## Runs along the graph -/

namespace State

variable {n : Nat} {w : Wiring n} {g : FlowGraph}

/-- A graph of the program that the state holds, for the machine's wiring. -/
def HasGraph (w : Wiring n) (s : State n) (g : FlowGraph) : Prop :=
  g.program = s.program ∧ g.ip = w.ip.map fun j : Fin n => (j : Int)

theorem HasGraph.step {s : State n} {next : Step n} (h : s.HasGraph w g)
    (hno : ∀ ins ∈ g.program, ins.op ≠ .tgl) (hs : s.step w = .ok next) :
    next.next.HasGraph w g := by
  obtain ⟨hprogram, hip⟩ := h
  rw [hprogram] at hno
  exact ⟨hprogram.trans (step_program hno hs).symm, hip⟩

theorem HasGraph.run {k : Nat} {s t : State n} {o : List Int} (h : s.HasGraph w g)
    (hno : ∀ ins ∈ g.program, ins.op ≠ .tgl) (hrun : Run w k s o t) : t.HasGraph w g := by
  induction hrun with
  | refl => exact h
  | step _ hs _ ih => exact ih (h.step hno hs)

/-- A step starts at an indirect jump or goes along an edge. -/
theorem HasGraph.follows {s : State n} {next : Step n} (h : s.HasGraph w g)
    (hh : s.halted = false) (hs : s.step w = .ok next) (hskips : s.SkipsAtMostOne w) :
    g.indirect s.pc.toNat = true ∨ g.HasEdge s.pc.toNat next.next.pc := by
  obtain ⟨hprogram, hip⟩ := h
  obtain ⟨ins, hget, hmem⟩ := step_mem_successors hs hskips
  have hin : s.program.hasAddress s.pc = true := by simpa [halted] using hh
  rw [← hprogram] at hin hget
  rw [← hip] at hmem
  have htargets := FlowGraph.targets?_of_get hin hget
  cases hsuccessors : successors g.ip s.pc ins with
  | none => exact .inl (by rw [FlowGraph.indirect, htargets, hsuccessors]; rfl)
  | some targets =>
    refine .inr (FlowGraph.hasEdge_of_mem_targets ?_)
    rw [FlowGraph.targets, htargets, hsuccessors]
    exact hmem targets hsuccessors

/-- A run from a confined address stays inside the program. -/
theorem HasGraph.not_halted {k : Nat} {s t : State n} {o : List Int} (h : s.HasGraph w g)
    (hno : ∀ ins ∈ g.program, ins.op ≠ .tgl) (hrun : Run w k s o t)
    (hin : g.program.hasAddress s.pc = true) (hconfined : g.Confined s.pc.toNat)
    (hskips : s.SkipsWithin w k) : t.halted = false := by
  induction hrun with
  | refl s => rw [halted, ← h.1, hin, Bool.not_true]
  | @step k s t next o hh hs _ ih =>
    obtain ⟨hleaves, hindirect⟩ := hconfined _ .refl
    have hedge : g.HasEdge s.pc.toNat next.next.pc :=
      (h.follows hh hs hskips.head).resolve_left (by simp [hindirect])
    unfold FlowGraph.HasEdge at hedge
    split at hedge
    · next hin' => exact ih (h.step hno hs) hin' (hconfined.next hedge) (hskips.tail hh hs)
    · simp [hleaves] at hedge

end State

/-- Without self-modification, and with conditions of 0 or 1 at the conditional skips, every step
of a loaded machine goes along an edge of the flow graph or starts at an indirect jump; and if the
graph rules halting out, no run halts. The graph is there if every instruction can be written. -/
theorem flowGraph_covers_runs {n : Nat} {setup : Setup} {program : Program}
    {registers : Registers n} {m : Machine n} (hload : Machine.load setup program registers = .ok m)
    (hno : ∀ ins ∈ program, ins.op ≠ .tgl) :
    ((∃ g, FlowGraph.ofProgram program setup.ip = .ok g) ↔ ∀ ins ∈ program, ins.Writable) ∧
    ∀ g, FlowGraph.ofProgram program setup.ip = .ok g →
      (∀ k o t next, State.Run m.wiring k m.state o t → t.halted = false →
        t.step m.wiring = .ok next → t.SkipsAtMostOne m.wiring →
        g.indirect t.pc.toNat = true ∨ g.HasEdge t.pc.toNat next.next.pc) ∧
      (g.mayHalt setup.pc = false → ∀ k o t,
        State.Run m.wiring k m.state o t → m.state.SkipsWithin m.wiring k → t.halted = false) := by
  refine ⟨FlowGraph.exists_ofProgram_iff, fun g hg => ?_⟩
  obtain ⟨-, rfl⟩ := FlowGraph.ofProgram_eq_ok_iff.1 hg
  obtain ⟨ip, hip, -, rfl⟩ := Machine.load_eq_ok_iff.1 hload
  have hgraph : State.HasGraph ⟨ip, setup.toggles, setup.watched⟩ ⟨program, registers, setup.pc⟩
      ⟨program, setup.ip⟩ := ⟨rfl, hip⟩
  refine ⟨fun k o t next hrun hh hs hskips => ?_, fun hmay k o t hrun hskips => ?_⟩
  · exact (hgraph.run hno hrun).follows hh hs hskips
  · obtain ⟨hin, hconfined⟩ := FlowGraph.confined_of_mayHalt hmay
    exact hgraph.not_halted hno hrun hin hconfined hskips

/-- A loop that adds one to the counter to skip an instruction, and then starts over. -/
def skippingLoop : Program := #[⟨.addr, 1, 2, 1⟩, ⟨.addi, 0, 1, 0⟩, ⟨.seti, -1, 0, 1⟩]

theorem flowGraph_covers_runs_skippingLoop :
    ∃ m g, Machine.load { ip := some 1 } skippingLoop (#v[0, -1, 1] : Registers 3) = .ok m ∧
      FlowGraph.ofProgram skippingLoop (some 1) = .ok g ∧ g.mayHalt 0 = false ∧ g.HasEdge 0 2 ∧
      ∀ k o t, State.Run m.wiring k m.state o t → t.halted = false := by
  let w : Wiring 3 := ⟨some 1, .standard, none⟩
  let skipping : State 3 := ⟨skippingLoop, #v[0, -1, 1], 0⟩
  let returning : State 3 := ⟨skippingLoop, #v[0, 1, 1], 2⟩
  have hload : Machine.load { ip := some 1 } skippingLoop (#v[0, -1, 1] : Registers 3) =
      .ok ⟨w, skipping, 0, #[]⟩ := rfl
  have hskip : skipping.step w = .ok ⟨⟨.addr, 1, 2, 1⟩, .quiet, returning⟩ := by cbv
  have hreturn : returning.step w = .ok ⟨⟨.seti, -1, 0, 1⟩, .quiet, skipping⟩ := by cbv
  have hruns : ∀ {k s o t}, State.Run w k s o t → s = skipping ∨ s = returning →
      t = skipping ∨ t = returning := by
    intro k s o t hrun hs
    induction hrun with
    | refl => exact hs
    | step _ hstep _ ih =>
      rcases hs with rfl | rfl
      · cases hskip.symm.trans hstep
        exact ih (.inr rfl)
      · cases hreturn.symm.trans hstep
        exact ih (.inl rfl)
  have hskips : skipping.SkipsAtMostOne w := by
    intro ip ins other v hip hget hother hv
    cases hip
    cases hget
    cases hother
    cases hv
    exact .inr rfl
  have hreturns : returning.SkipsAtMostOne w := by
    intro ip ins other v hip hget hother
    cases hip
    cases hget
    cases hother
  have hgraph : FlowGraph.ofProgram skippingLoop (some 1) = .ok ⟨skippingLoop, some 1⟩ :=
    FlowGraph.ofProgram_eq_ok_iff.2 ⟨by decide, rfl⟩
  obtain ⟨hedges, hhalts⟩ := (flowGraph_covers_runs hload (by decide)).2 _ hgraph
  have hmay : (FlowGraph.mk skippingLoop (some 1)).mayHalt 0 = false := by decide
  refine ⟨_, _, hload, hgraph, hmay, ?_,
    fun k o t hrun => hhalts hmay k o t hrun fun j _ p u hrun' => ?_⟩
  · exact (hedges 0 [] skipping _ (.refl _) rfl hskip hskips).resolve_left (by decide)
  · rcases hruns hrun' (.inl rfl) with rfl | rfl
    · exact hskips
    · exact hreturns

end WordMachine

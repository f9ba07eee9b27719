import Mathlib
import WordMachine.Proofs.Lasso
import WordMachine.Proofs.Loops
import WordMachine.Proofs.StaticFlow

/-!
# A graph without loops bounds every run

In a graph without loops an address is never ahead of itself, so each step along an edge leaves
fewer addresses ahead than there were before it. A run that goes along the graph and is still
inside the program has then taken fewer steps than the program has instructions: within that many
steps the run halts or fails, and no state comes twice.
-/

namespace WordMachine

namespace FlowGraph

variable {g : FlowGraph}

open Classical in
/-- The addresses that can be reached from an address, which is one of them. -/
noncomputable def ahead (g : FlowGraph) (address : Nat) : Finset Nat :=
  (Finset.range g.program.size).filter fun v =>
    Relation.ReflTransGen (fun u v => v ∈ g.next u) address v

theorem mem_ahead {address v : Nat} : v ∈ g.ahead address ↔
    v < g.program.size ∧ Relation.ReflTransGen (fun u v => v ∈ g.next u) address v := by
  simp [ahead]

theorem card_ahead_le (g : FlowGraph) (address : Nat) :
    (g.ahead address).card ≤ g.program.size := by
  have hsub : g.ahead address ⊆ Finset.range g.program.size :=
    fun v hv => Finset.mem_range.2 (mem_ahead.1 hv).1
  simpa using Finset.card_le_card hsub

/-- An edge of a graph without loops leaves its source behind. -/
theorem card_ahead_lt (hloops : g.loops = []) {address v : Nat}
    (haddress : address < g.program.size) (hv : v ∈ g.next address) :
    (g.ahead v).card < (g.ahead address).card := by
  refine Finset.card_lt_card ((Finset.ssubset_iff_of_subset fun u hu => ?_).2
    ⟨address, mem_ahead.2 ⟨haddress, .refl⟩, fun hback => ?_⟩)
  · obtain ⟨hu, hpath⟩ := mem_ahead.1 hu
    exact mem_ahead.2 ⟨hu, hpath.head hv⟩
  · have hwalk : Relation.TransGen (fun u v => v ∈ g.next u) address address :=
      .head' hv (mem_ahead.1 hback).2
    exact Flow.cycles_ne_nil g.nodup_next (fun _ _ => lt_size_of_mem_next) ⟨address, hwalk⟩ hloops

end FlowGraph

namespace State

variable {n : Nat} {w : Wiring n} {g : FlowGraph}

/-- A run that does not end halted does not start halted. -/
theorem Run.start_not_halted {k : Nat} {s t : State n} {o : List Int} (h : Run w k s o t)
    (ht : t.halted = false) : s.halted = false := by
  cases h with
  | refl => exact ht
  | step hh _ _ => exact hh

theorem HasGraph.inside {s : State n} (h : s.HasGraph w g) (hh : s.halted = false) :
    g.program.hasAddress s.pc = true ∧ s.pc.toNat < g.program.size := by
  have hin : g.program.hasAddress s.pc = true := by
    rw [h.1]
    simpa [halted] using hh
  have hbounds := Program.hasAddress_iff.1 hin
  exact ⟨hin, by omega⟩

/-- A run along a graph without loops and indirect jumps has more addresses ahead at its start than
it takes steps to a state that is not halted. -/
theorem HasGraph.lt_card_ahead {k : Nat} {s t : State n} {o : List Int} (h : s.HasGraph w g)
    (hno : ∀ ins ∈ g.program, ins.op ≠ .tgl) (hloops : g.loops = [])
    (hdirect : ∀ v, Relation.ReflTransGen (fun u v => v ∈ g.next u) s.pc.toNat v →
      g.indirect v = false)
    (hrun : Run w k s o t) (ht : t.halted = false) (hskips : s.SkipsWithin w k) :
    k < (g.ahead s.pc.toNat).card := by
  induction hrun with
  | refl s =>
    exact Finset.card_pos.2 ⟨_, FlowGraph.mem_ahead.2 ⟨(h.inside ht).2, .refl⟩⟩
  | @step k s t next o hh hs hrest ih =>
    have hnext := h.step hno hs
    have hin := (hnext.inside (hrest.start_not_halted ht)).1
    have hedge : g.HasEdge s.pc.toNat next.next.pc :=
      (h.follows hh hs hskips.head).resolve_left (by simp [hdirect _ .refl])
    rw [FlowGraph.HasEdge, if_pos hin] at hedge
    have hrest' := ih hnext (fun v hpath => hdirect v (hpath.head hedge)) ht (hskips.tail hh hs)
    have hfewer := FlowGraph.card_ahead_lt hloops (h.inside hh).2 hedge
    omega

end State

/-- **A flow graph without loops certifies termination.** Without self-modification, with no
indirect jump ahead and with conditions of 0 or 1 at the conditional skips that are executed, a run
halts or fails within as many steps as the program has instructions, and no analysis reports a
cycle. -/
theorem acyclic_flow_terminates {n : Nat} {setup : Setup} {program : Program}
    {registers : Registers n} {m : Machine n} (hload : Machine.load setup program registers = .ok m)
    (hno : ∀ ins ∈ program, ins.op ≠ .tgl) (hloops : (FlowGraph.mk program setup.ip).loops = [])
    (hdirect : ∀ v, Relation.ReflTransGen (fun u v => v ∈ (FlowGraph.mk program setup.ip).next u)
      setup.pc.toNat v → (FlowGraph.mk program setup.ip).indirect v = false)
    (hskips : ∀ k o t, m.state.Run m.wiring k o t → m.state.SkipsWithin m.wiring k) :
    ((∃ last, m.runFor program.size = .ok last ∧ last.halted = true) ∨
      ∃ failure, m.runFor program.size = .error failure) ∧
    ∀ (σ : Type) (check : Check σ) (budget : Option Int) (start length : Nat) (lap : List Int)
      (last : Machine n), analyze setup check budget program registers ≠
        .ok ⟨.cycle start length lap, last⟩ := by
  have hends : ∀ o t, m.state.Run m.wiring program.size o t → t.halted = true := by
    intro o t hrun
    have hwithin := hskips _ o t hrun
    obtain ⟨ip, hip, -, rfl⟩ := Machine.load_eq_ok_iff.1 hload
    have hgraph : State.HasGraph ⟨ip, setup.toggles, setup.watched⟩ ⟨program, registers, setup.pc⟩
        ⟨program, setup.ip⟩ := ⟨rfl, hip⟩
    by_contra ht
    have hlong := hgraph.lt_card_ahead hno hloops hdirect hrun (by simpa using ht) hwithin
    exact absurd hlong (Nat.not_lt_of_le (FlowGraph.card_ahead_le _ _))
  constructor
  · cases hfor : m.runFor program.size with
    | error failure => exact .inr ⟨failure, rfl⟩
    | ok last =>
      obtain ⟨j, o, t, hrun, rfl, rfl | ⟨-, ht⟩⟩ := Machine.exists_run_of_runFor_ok hfor
      · exact .inl ⟨_, rfl, hends o t hrun⟩
      · exact .inl ⟨_, rfl, ht⟩
  · intro σ check budget start length lap last hcycle
    obtain ⟨hsteps, houtputs⟩ := Machine.load_fresh hload
    rw [analyze_of_load hload] at hcycle
    obtain ⟨run, hcloses, -⟩ :=
      Machine.closes_of_analyze hsteps houtputs (Except.mapError_eq_ok_iff.1 hcycle)
    obtain ⟨o, t, hrun, hlast⟩ := hcloses.runs.exists_run program.size
    have hgo := (hcloses.runs program.size).2
    rw [hlast, Machine.moved_halted, hends o t hrun] at hgo
    cases hgo

/-- A comparison whose result is added to the counter, to skip the first of two additions. -/
def skippingBranch : Program :=
  #[⟨.eqrr, 0, 0, 2⟩, ⟨.addr, 1, 2, 1⟩, ⟨.addi, 0, 1, 0⟩, ⟨.addi, 0, 2, 0⟩]

theorem acyclic_flow_terminates_skippingBranch :
    ∃ m, Machine.load { ip := some 1 } skippingBranch (#v[7, 0, 0] : Registers 3) = .ok m ∧
      (FlowGraph.mk skippingBranch (some 1)).next 1 = [2, 3] ∧
      (FlowGraph.mk skippingBranch (some 1)).loops = [] ∧
      (∃ last, m.runFor 4 = .ok last ∧ last.halted = true) ∧
      ∀ start length lap last, analyze { ip := some 1 } .any none skippingBranch
        (#v[7, 0, 0] : Registers 3) ≠ .ok ⟨.cycle start length lap, last⟩ := by
  let w : Wiring 3 := ⟨some 1, .standard, none⟩
  let comparing : State 3 := ⟨skippingBranch, #v[7, 0, 0], 0⟩
  let skipping : State 3 := ⟨skippingBranch, #v[7, 0, 1], 1⟩
  let adding : State 3 := ⟨skippingBranch, #v[7, 2, 1], 3⟩
  let done : State 3 := ⟨skippingBranch, #v[9, 3, 1], 4⟩
  have hload : Machine.load { ip := some 1 } skippingBranch (#v[7, 0, 0] : Registers 3) =
      .ok ⟨w, comparing, 0, #[]⟩ := rfl
  have hcompare : comparing.step w = .ok ⟨⟨.eqrr, 0, 0, 2⟩, .quiet, skipping⟩ := by cbv
  have hskip : skipping.step w = .ok ⟨⟨.addr, 1, 2, 1⟩, .quiet, adding⟩ := by cbv
  have hadd : adding.step w = .ok ⟨⟨.addi, 0, 2, 0⟩, .quiet, done⟩ := by cbv
  have hruns : ∀ {k s o t}, State.Run w k s o t →
      s = comparing ∨ s = skipping ∨ s = adding ∨ s = done →
      t = comparing ∨ t = skipping ∨ t = adding ∨ t = done := by
    intro k s o t hrun hs
    induction hrun with
    | refl => exact hs
    | step hh hstep _ ih =>
      rcases hs with rfl | rfl | rfl | rfl
      · cases hcompare.symm.trans hstep
        exact ih (.inr (.inl rfl))
      · cases hskip.symm.trans hstep
        exact ih (.inr (.inr (.inl rfl)))
      · cases hadd.symm.trans hstep
        exact ih (.inr (.inr (.inr rfl)))
      · cases hh
  have hskips : ∀ t, t = comparing ∨ t = skipping ∨ t = adding ∨ t = done →
      t.SkipsAtMostOne w := by
    rintro t (rfl | rfl | rfl | rfl) ip ins other v ⟨⟩ hget hother hv
    · cases hget
      cases hother
    · cases hget
      cases hother
      cases hv
      exact .inr rfl
    · cases hget
      cases hother
    · cases hget
  have hdirect : ∀ v, (FlowGraph.mk skippingBranch (some 1)).indirect v = false := by
    intro v
    have hinside : ∀ v < 4, (FlowGraph.mk skippingBranch (some 1)).indirect v = false := by decide
    by_cases hv : v < 4
    · exact hinside v hv
    · have hnone : skippingBranch[v]? = none := Array.getElem?_eq_none (Nat.le_of_not_lt hv)
      simp [FlowGraph.indirect, FlowGraph.targets?, hnone]
  obtain ⟨hhalts, hcycle⟩ := acyclic_flow_terminates hload (by decide) (by decide)
    (fun v _ => hdirect v)
    (fun k o t _ j _ p u hrun => hskips u (hruns hrun (.inl rfl)))
  refine ⟨_, hload, by decide, by decide, hhalts.resolve_right ?_, hcycle Unit .any none⟩
  rintro ⟨failure, hfailure⟩
  have hfor : (Machine.mk w comparing 0 #[]).runFor 4 = .ok ⟨w, done, 3, #[]⟩ := by cbv
  cases hfor.symm.trans hfailure

end WordMachine

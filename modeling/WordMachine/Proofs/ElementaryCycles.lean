import Mathlib
import WordMachine.Proofs.Loops
import WordMachine.Proofs.StaticFlow

/-!
# The loops are the elementary cycles

An elementary cycle has no first node, so it is a list of nodes up to rotation. The sink has no edge
of its own and lies on no cycle; of the addresses on a cycle one is the lowest, and the list that
starts there is the one the enumeration gives: it lists the simple paths that close at their first
node and otherwise stay above it, all of them and nothing else. Paths come in lexicographic order
because each node is prolonged to its successors in ascending order, after the path that ends there.
-/

namespace WordMachine

namespace Flow

variable {next : Nat → List Nat} {home size : Nat} {free : NodeSet} {v : Nat} {path : List Nat}

/-! ## What is listed -/

/-- Everything the enumeration lists is a simple path that closes. -/
theorem closing_of_mem_closings {k : Nat} (h : path ∈ closings next home k free v) :
    Closing next home free v path := by
  induction k generalizing free v path with
  | zero => cases h
  | succ k ih =>
    rw [closings] at h
    rcases List.mem_append.1 h with h | h
    · split at h
      · next hcloses =>
        obtain rfl := List.mem_singleton.1 h
        exact .last (List.contains_iff_mem.1 hcloses)
      · cases h
    · obtain ⟨u, hu, h⟩ := List.mem_flatMap.1 h
      obtain ⟨tail, htail, rfl⟩ := List.mem_map.1 h
      have hahead : u ∈ (next v).filter free.contains := by
        split at hu
        · exact hu
        · exact (List.mem_filter.1 hu).1
      exact .cons (List.mem_filter.1 hahead) (ih htail)

/-- A simple path that closes is a chain of edges, back to `home`, along different free nodes. -/
theorem closing_iff : Closing next home free v path ↔ ∃ rest, path = v :: rest ∧
    (v :: (rest ++ [home])).IsChain (fun u w => w ∈ next u) ∧ rest.Nodup ∧
      ∀ u ∈ rest, free.contains u = true := by
  constructor
  · intro h
    induction h with
    | last hhome => exact ⟨[], rfl, by simpa using hhome, by simp, by simp⟩
    | @cons free v u path hedge _ ih =>
      obtain ⟨rest, rfl, hchain, hnodup, hfree⟩ := ih
      have hu : u ∉ rest := fun hmem => by simpa using hfree u hmem
      refine ⟨u :: rest, rfl, hchain.cons_cons hedge.1, List.nodup_cons.2 ⟨hu, hnodup⟩, ?_⟩
      exact List.forall_mem_cons.2 ⟨hedge.2, fun w hw => NodeSet.contains_of_erase (hfree w hw)⟩
  · rintro ⟨rest, rfl, hchain, hnodup, hfree⟩
    induction rest generalizing free v with
    | nil => exact .last (by simpa using hchain)
    | cons u rest ih =>
      obtain ⟨hedge, hchain⟩ := List.isChain_cons_cons.1 hchain
      obtain ⟨hu, hnodup⟩ := List.nodup_cons.1 hnodup
      obtain ⟨hfree', hrest⟩ := List.forall_mem_cons.1 hfree
      refine .cons ⟨hedge, hfree'⟩ (ih hchain hnodup fun w hw => ?_)
      have hne : w ≠ u := fun heq => hu (heq ▸ hw)
      simp [hrest w hw, hne]

theorem lt_of_isChain (hsize : ∀ v, ∀ u ∈ next v, u < size)
    (h : (v :: path).IsChain fun u w => w ∈ next u) : ∀ u ∈ path, u < size := by
  induction path generalizing v with
  | nil => simp
  | cons u path ih =>
    obtain ⟨hedge, hchain⟩ := List.isChain_cons_cons.1 h
    exact List.forall_mem_cons.2 ⟨hsize v u hedge, ih hchain⟩

/-- The loops are the closed simple paths that start at their lowest node. -/
theorem mem_cycles_iff (hnodup : ∀ v, (next v).Nodup) (hsize : ∀ v, ∀ u ∈ next v, u < size) :
    path ∈ cycles size next ↔ ∃ home rest, path = home :: rest ∧
      (home :: (rest ++ [home])).IsChain (fun u w => w ∈ next u) ∧ rest.Nodup ∧
        ∀ u ∈ rest, home < u := by
  constructor
  · intro h
    obtain ⟨home, -, h⟩ := List.mem_flatMap.1 h
    obtain ⟨rest, rfl, hchain, hrest, hfree⟩ := closing_iff.1 (closing_of_mem_closings h)
    exact ⟨home, rest, rfl, hchain, hrest, fun u hu =>
      (NodeSet.contains_between_iff.1 (hfree u hu)).1⟩
  · rintro ⟨home, rest, rfl, hchain, hrest, hlow⟩
    have hbelow := lt_of_isChain hsize hchain
    refine mem_cycles hnodup (hbelow home (by simp)) (closing_iff.2
      ⟨rest, rfl, hchain, hrest, fun u hu => ?_⟩)
    exact NodeSet.contains_between_iff.2 ⟨hlow u hu, hbelow u (by simp [hu])⟩

/-! ## In which order -/

theorem exists_eq_cons_of_mem_closings {k : Nat} (h : path ∈ closings next home k free v) :
    ∃ rest, path = v :: rest := by
  obtain ⟨rest, rfl, -⟩ := closing_iff.1 (closing_of_mem_closings h)
  exact ⟨rest, rfl⟩

/-- A path comes before those that go on from its end, and these come by the node they go to. -/
theorem pairwise_closings (hsorted : ∀ v, (next v).Pairwise (· < ·)) (k : Nat) (free : NodeSet)
    (v : Nat) : (closings next home k free v).Pairwise (List.Lex (· < ·)) := by
  induction k generalizing free v with
  | zero => exact .nil
  | succ k ih =>
    rw [closings, List.pairwise_append, List.pairwise_flatMap]
    refine ⟨?_, ⟨fun u _ => ?_, ?_⟩, ?_⟩
    · split
      · exact List.pairwise_singleton _ _
      · exact .nil
    · exact List.pairwise_map.2 ((ih (free.erase u) u).imp fun h => .cons h)
    · have hahead := (hsorted v).filter free.contains
      have hbranch : ∀ {u w : Nat}, u < w →
          ∀ x ∈ (closings next home k (free.erase u) u).map (v :: ·),
          ∀ y ∈ (closings next home k (free.erase w) w).map (v :: ·), List.Lex (· < ·) x y := by
        intro u w huw x hx y hy
        obtain ⟨x', hx', rfl⟩ := List.mem_map.1 hx
        obtain ⟨y', hy', rfl⟩ := List.mem_map.1 hy
        obtain ⟨xs, rfl⟩ := exists_eq_cons_of_mem_closings hx'
        obtain ⟨ys, rfl⟩ := exists_eq_cons_of_mem_closings hy'
        exact .cons (.rel huw)
      split
      · exact hahead.imp hbranch
      · exact (hahead.filter _).imp hbranch
    · intro x hx y hy
      obtain ⟨u, -, hy⟩ := List.mem_flatMap.1 hy
      obtain ⟨y', hy', rfl⟩ := List.mem_map.1 hy
      obtain ⟨ys, rfl⟩ := exists_eq_cons_of_mem_closings hy'
      split at hx
      · obtain rfl := List.mem_singleton.1 hx
        exact .cons .nil
      · cases hx

theorem pairwise_cycles (hsorted : ∀ v, (next v).Pairwise (· < ·)) (size : Nat) :
    (cycles size next).Pairwise (List.Lex (· < ·)) := by
  rw [cycles, List.pairwise_flatMap]
  refine ⟨fun home _ => pairwise_closings hsorted _ _ _, ?_⟩
  refine (List.pairwise_lt_range.filter _).imp fun {u w} huw x hx y hy => ?_
  obtain ⟨xs, rfl⟩ := exists_eq_cons_of_mem_closings hx
  obtain ⟨ys, rfl⟩ := exists_eq_cons_of_mem_closings hy
  exact .rel huw

end Flow

/-! ## Rotations -/

/-- A cycle may be written from any of its nodes on. -/
theorem exists_eq_cons_of_mem_cycle {α : Type} {c : Cycle α} {x : α} (h : x ∈ c) :
    ∃ rest : List α, c = ((x :: rest : List α) : Cycle α) := by
  induction c using Quotient.inductionOn' with
  | h nodes =>
    obtain ⟨front, back, rfl⟩ := List.append_of_mem (Cycle.mem_coe_iff.1 h)
    refine ⟨back ++ front, Cycle.coe_eq_coe.2 ?_⟩
    rw [← List.cons_append]
    exact List.isRotated_append

/-- Of the rotations of a list without repetitions only one starts with a given member. -/
theorem eq_of_isRotated_cons {α : Type} {x : α} {rest rest' : List α} (hnodup : (x :: rest).Nodup)
    (h : (x :: rest) ~r (x :: rest')) : rest = rest' := by
  obtain ⟨k, hk, hrotate⟩ := List.isRotated_iff_mod.1 h
  rw [List.rotate_eq_drop_append_take hk] at hrotate
  cases k with
  | zero => simpa using hrotate
  | succ k =>
    cases hdrop : rest.drop k with
    | nil =>
      -- The whole list is moved.
      rw [List.drop_succ_cons, hdrop, List.nil_append, List.take_succ_cons] at hrotate
      rw [← (List.cons.inj hrotate).2, List.take_of_length_le (List.drop_eq_nil_iff.1 hdrop)]
    | cons y ys =>
      rw [List.drop_succ_cons, hdrop, List.cons_append] at hrotate
      have hy : x ∈ rest.drop k := by simp [hdrop, (List.cons.inj hrotate).1]
      exact absurd (List.mem_of_mem_drop hy) (List.nodup_cons.1 hnodup).1

namespace FlowGraph

variable {g : FlowGraph}

/-! ## The graph with its sink -/

inductive Node where
  | address (a : Nat)
  | sink
  deriving DecidableEq, Repr

/-- Where a transfer to an integer leads: to the instruction there, or out of the program. -/
def node (g : FlowGraph) (target : Int) : Node :=
  if g.program.hasAddress target then .address target.toNat else .sink

/-- The edges: one from an address to the node of each of its targets. -/
inductive Edge (g : FlowGraph) : Node → Node → Prop where
  | mk {a : Nat} {target : Int} (h : target ∈ g.targets a) : Edge g (.address a) (g.node target)

/-- A closed path without repeated nodes, whichever node it is written from. -/
structure Elementary (g : FlowGraph) (c : Cycle Node) : Prop where
  nonempty : c ≠ Cycle.nil
  nodup : c.Nodup
  closed : c.Chain g.Edge

theorem edge_address_iff {a b : Nat} : g.Edge (.address a) (.address b) ↔ b ∈ g.next a := by
  constructor
  · intro h
    generalize hu : Node.address a = u, hw : Node.address b = w at h
    obtain ⟨htarget⟩ := h
    cases hu
    unfold node at hw
    split at hw
    · next hin =>
      cases hw
      exact List.mem_map_of_mem (List.mem_filter.2 ⟨htarget, hin⟩)
    · cases hw
  · intro h
    obtain ⟨target, htarget, rfl⟩ := List.mem_map.1 h
    obtain ⟨htarget, hin⟩ := List.mem_filter.1 htarget
    have hedge := Edge.mk htarget
    rwa [node, if_pos hin] at hedge

theorem successors_pairwise {ip : Option Int} {address : Int} {ins : Instruction}
    {targets : List Int} (h : successors ip address ins = some targets) :
    targets.Pairwise (· < ·) := by
  unfold successors at h
  grind

theorem pairwise_next (g : FlowGraph) (address : Nat) : (g.next address).Pairwise (· < ·) := by
  have htargets : (g.targets address).Pairwise (· < ·) := by
    unfold targets targets?
    split
    · cases h : successors g.ip address _ with
      | none => exact .nil
      | some targets => exact successors_pairwise h
    · exact .nil
  refine List.pairwise_map.2 ((htargets.filter _).imp_of_mem fun {x y} hx hy hxy => ?_)
  have hx' := Program.hasAddress_iff.1 (List.mem_filter.1 hx).2
  have hy' := Program.hasAddress_iff.1 (List.mem_filter.1 hy).2
  omega

/-- Every node of a cycle has an edge, which the sink has not. -/
theorem Elementary.sink_notMem {c : Cycle Node} (h : g.Elementary c) : Node.sink ∉ c := by
  intro hmem
  obtain ⟨rest, rfl⟩ := exists_eq_cons_of_mem_cycle hmem
  obtain ⟨u, hu⟩ : ∃ u, g.Edge .sink u := by
    have hchain := (Cycle.chain_coe_cons _ _ _).1 h.closed
    cases rest with
    | nil => exact ⟨_, List.isChain_pair.1 hchain⟩
    | cons u rest => exact ⟨u, (List.isChain_cons_cons.1 hchain).1⟩
  cases hu

/-- A cycle is a row of addresses, the lowest of them in front. -/
theorem Elementary.exists_lowest {c : Cycle Node} (h : g.Elementary c) :
    ∃ home rest, c = (((home :: rest).map Node.address : List Node) : Cycle Node) ∧
      ∀ u ∈ rest, home < u := by
  classical
  have haddress : ∀ x ∈ c, ∃ a, Node.address a = x := by
    intro x hx
    cases x with
    | address a => exact ⟨a, rfl⟩
    | sink => exact absurd hx h.sink_notMem
  have hexists : ∃ a, Node.address a ∈ c := by
    induction c using Cycle.induction_on with
    | nil => exact absurd rfl h.nonempty
    | cons x nodes _ =>
      obtain ⟨a, rfl⟩ := haddress x (by simp)
      exact ⟨a, by simp⟩
  obtain ⟨home, hhome, hlowest⟩ : ∃ home, Node.address home ∈ c ∧
      ∀ a, Node.address a ∈ c → home ≤ a :=
    ⟨Nat.find hexists, Nat.find_spec hexists, fun _ ha => Nat.find_min' hexists ha⟩
  obtain ⟨nodes, rfl⟩ := exists_eq_cons_of_mem_cycle hhome
  obtain ⟨rest, rfl⟩ : nodes ∈ Set.range (List.map Node.address) := by
    rw [Set.range_list_map]
    exact fun x hx => haddress x (by simp [hx])
  refine ⟨home, rest, rfl, fun u hu => ?_⟩
  have hle := hlowest u (by simp [hu])
  have hne : home ≠ u := by
    rintro rfl
    have hnodup := Cycle.nodup_coe_iff.1 h.nodup
    exact (List.nodup_cons.1 hnodup).1 (List.mem_map_of_mem hu)
  omega

/-! ## The loops -/

/-- The cycle that a row of addresses goes through. -/
def cycleOf (path : List Nat) : Cycle Node := ((path.map Node.address : List Node) : Cycle Node)

theorem elementary_cycleOf_iff {home : Nat} {rest : List Nat} :
    g.Elementary (cycleOf (home :: rest)) ↔ (home :: rest).Nodup ∧
      (home :: (rest ++ [home])).IsChain (fun u w => w ∈ g.next u) := by
  have hchain : (cycleOf (home :: rest)).Chain g.Edge ↔
      (home :: (rest ++ [home])).IsChain (fun u w => w ∈ g.next u) := by
    rw [cycleOf, ← Cycle.map_coe, Cycle.chain_map, Cycle.chain_coe_cons]
    simp only [edge_address_iff]
  have hnodup : (cycleOf (home :: rest)).Nodup ↔ (home :: rest).Nodup := by
    rw [cycleOf, Cycle.nodup_coe_iff, List.nodup_map_iff fun _ _ heq => Node.address.inj heq]
  exact ⟨fun h => ⟨hnodup.1 h.nodup, hchain.1 h.closed⟩,
    fun h => ⟨by simp [cycleOf], hnodup.2 h.1, hchain.2 h.2⟩⟩

/-- The loops are the elementary cycles, each written from its lowest address on. -/
theorem mem_loops_iff {path : List Nat} : path ∈ g.loops ↔ g.Elementary (cycleOf path) ∧
    ∃ home rest, path = home :: rest ∧ ∀ u ∈ rest, home < u := by
  rw [loops, Flow.mem_cycles_iff g.nodup_next fun _ _ => lt_size_of_mem_next]
  constructor
  · rintro ⟨home, rest, rfl, hchain, hnodup, hlow⟩
    have hhome : home ∉ rest := fun hmem => Nat.lt_irrefl home (hlow home hmem)
    exact ⟨elementary_cycleOf_iff.2 ⟨List.nodup_cons.2 ⟨hhome, hnodup⟩, hchain⟩,
      home, rest, rfl, hlow⟩
  · rintro ⟨helementary, home, rest, rfl, hlow⟩
    obtain ⟨hnodup, hchain⟩ := elementary_cycleOf_iff.1 helementary
    exact ⟨home, rest, rfl, hchain, (List.nodup_cons.1 hnodup).2, hlow⟩

/-- Two loops through the same nodes in the same order are written alike. -/
theorem eq_of_cycleOf_eq {path path' : List Nat} (h : path ∈ g.loops) (h' : path' ∈ g.loops)
    (heq : cycleOf path = cycleOf path') : path = path' := by
  obtain ⟨helementary, home, rest, rfl, hlow⟩ := mem_loops_iff.1 h
  obtain ⟨-, home', rest', rfl, hlow'⟩ := mem_loops_iff.1 h'
  have hrotated := Cycle.coe_eq_coe.1 heq
  have hinjective : Function.Injective Node.address := fun _ _ heq => Node.address.inj heq
  have hmem : ∀ a, a ∈ home :: rest ↔ a ∈ home' :: rest' := fun a => by
    rw [← List.mem_map_of_injective hinjective, hrotated.mem_iff,
      List.mem_map_of_injective hinjective]
  have hhome : home = home' := by
    have hle : home ≤ home' := by
      rcases List.mem_cons.1 ((hmem home').2 List.mem_cons_self) with heq | hin
      · exact Nat.le_of_eq heq.symm
      · exact Nat.le_of_lt (hlow home' hin)
    have hge : home' ≤ home := by
      rcases List.mem_cons.1 ((hmem home).1 List.mem_cons_self) with heq | hin
      · exact Nat.le_of_eq heq.symm
      · exact Nat.le_of_lt (hlow' home hin)
    exact Nat.le_antisymm hle hge
  subst hhome
  have hrest := eq_of_isRotated_cons (Cycle.nodup_coe_iff.1 helementary.nodup) hrotated
  rw [List.map_injective_iff.2 hinjective hrest]

end FlowGraph

/-- **The loops of a flow graph are its elementary cycles.** Each cycle is listed once, from its
lowest address on and along the edges; nothing else is listed; the list is in strict lexicographic
order; and no cycle goes through the sink. A program has a graph if every instruction can be
written. -/
theorem loops_elementary_cycles (program : Program) (ip : Option Int) :
    ((∃ g, FlowGraph.ofProgram program ip = .ok g) ↔ ∀ ins ∈ program, ins.Writable) ∧
    ∀ g, FlowGraph.ofProgram program ip = .ok g → g.program = program ∧ g.ip = ip ∧
      (∀ c, g.Elementary c → ∃! path, path ∈ g.loops ∧ FlowGraph.cycleOf path = c) ∧
      (∀ path ∈ g.loops, g.Elementary (FlowGraph.cycleOf path) ∧
        ∃ home rest, path = home :: rest ∧ ∀ u ∈ rest, home < u) ∧
      g.loops.Pairwise (List.Lex (· < ·)) ∧
      ∀ c, g.Elementary c → FlowGraph.Node.sink ∉ c := by
  refine ⟨FlowGraph.exists_ofProgram_iff, fun g hg => ?_⟩
  obtain ⟨-, rfl⟩ := FlowGraph.ofProgram_eq_ok_iff.1 hg
  refine ⟨rfl, rfl, fun c h => ?_, fun path hpath => FlowGraph.mem_loops_iff.1 hpath,
    Flow.pairwise_cycles (FlowGraph.pairwise_next _) _, fun c h => h.sink_notMem⟩
  obtain ⟨home, rest, rfl, hlow⟩ := h.exists_lowest
  have hmem := FlowGraph.mem_loops_iff.2 ⟨h, home, rest, rfl, hlow⟩
  exact ⟨home :: rest, ⟨hmem, rfl⟩, fun path ⟨hpath, heq⟩ =>
    FlowGraph.eq_of_cycleOf_eq hpath hmem heq⟩

/-- Two loops that overlap, a skip past the end of the program, and a jump to itself. -/
def overlappingLoops : Program :=
  #[⟨.addr, 1, 2, 1⟩, ⟨.addr, 1, 2, 1⟩, ⟨.seti, -1, 0, 1⟩, ⟨.addr, 1, 2, 1⟩, ⟨.seti, 3, 0, 1⟩]

theorem loops_elementary_cycles_overlappingLoops :
    FlowGraph.ofProgram overlappingLoops (some 1) = .ok ⟨overlappingLoops, some 1⟩ ∧
    (FlowGraph.mk overlappingLoops (some 1)).loops = [[0, 1, 2], [0, 2], [4]] ∧
    (FlowGraph.mk overlappingLoops (some 1)).Edge (.address 3) .sink ∧
    (FlowGraph.mk overlappingLoops (some 1)).Elementary (FlowGraph.cycleOf [2, 0]) ∧
    ∀ c, (FlowGraph.mk overlappingLoops (some 1)).Elementary c → ∃ path,
      (path = [0, 1, 2] ∨ path = [0, 2] ∨ path = [4]) ∧ FlowGraph.cycleOf path = c := by
  have hgraph : FlowGraph.ofProgram overlappingLoops (some 1) = .ok ⟨overlappingLoops, some 1⟩ :=
    FlowGraph.ofProgram_eq_ok_iff.2 ⟨by decide, rfl⟩
  obtain ⟨-, -, hlisted, hsound, -⟩ := (loops_elementary_cycles _ _).2 _ hgraph
  have hloops : (FlowGraph.mk overlappingLoops (some 1)).loops = [[0, 1, 2], [0, 2], [4]] := by
    decide
  refine ⟨hgraph, hloops, ?_, ?_, fun c hc => ?_⟩
  · exact .mk (by decide : (5 : Int) ∈ (FlowGraph.mk overlappingLoops (some 1)).targets 3)
  · have hrotated : FlowGraph.cycleOf [2, 0] = FlowGraph.cycleOf [0, 2] :=
      (Cycle.coe_cons_eq_coe_append _ _)
    rw [hrotated]
    exact (hsound [0, 2] (by simp [hloops])).1
  · obtain ⟨path, ⟨hpath, heq⟩, -⟩ := hlisted c hc
    rw [hloops] at hpath
    exact ⟨path, by simpa using hpath, heq⟩

end WordMachine

import WordMachine.Program

/-!
# Toggling

A toggle table is an involution on opcodes: toggling twice gives the opcode back, so a program
forgets how often an instruction was toggled except for the parity. Tables are built from entries
`x ↦ y`, which must form an involution, or from unordered pairs, which must be disjoint.
-/

namespace WordMachine

structure ToggleTable where
  partner : Opcode → Opcode
  involutive : ∀ op, partner (partner op) = op

namespace ToggleTable

/-- The opcode that a list of entries gives for `op`: the last entry for `op` counts, and an opcode
without entry stays itself. -/
def lookup (entries : List (Opcode × Opcode)) (op : Opcode) : Opcode :=
  entries.foldl (fun found e => if e.1 = op then e.2 else found) op

theorem foldl_lookup_of_ne {op : Opcode} :
    ∀ (entries : List (Opcode × Opcode)) (found : Opcode), (∀ e ∈ entries, e.1 ≠ op) →
      entries.foldl (fun found e => if e.1 = op then e.2 else found) found = found
  | [], _, _ => rfl
  | e :: es, found, h => by
    rw [List.foldl_cons, if_neg (h e List.mem_cons_self)]
    exact foldl_lookup_of_ne es found fun e' he' => h e' (List.mem_cons_of_mem e he')

theorem lookup_eq_self {entries : List (Opcode × Opcode)} {op : Opcode}
    (h : ∀ e ∈ entries, e.1 ≠ op) : lookup entries op = op :=
  foldl_lookup_of_ne entries op h

/-- The entry does not lead back to where it starts. -/
def oneWay (entries : List (Opcode × Opcode)) (e : Opcode × Opcode) : Bool :=
  lookup entries (lookup entries e.1) != e.1

theorem lookup_lookup {entries : List (Opcode × Opcode)}
    (h : ∀ e ∈ entries, oneWay entries e = false) (op : Opcode) :
    lookup entries (lookup entries op) = op := by
  by_cases hop : ∃ e ∈ entries, e.1 = op
  · obtain ⟨e, he, rfl⟩ := hop
    simpa [oneWay] using h e he
  · have hself : lookup entries op = op :=
      lookup_eq_self fun e he heq => hop ⟨e, he, heq⟩
    rw [hself, hself]

/-- The table with the given entries. The first entry that does not lead back is the fault. -/
def ofEntries (entries : List (Opcode × Opcode)) : Except Fault ToggleTable :=
  match h : entries.find? (oneWay entries) with
  | some e =>
    let partner := lookup entries e.1
    .error (.notInvolution e.1 partner (lookup entries partner))
  | none => .ok ⟨lookup entries, lookup_lookup (by simpa using h)⟩

/-- The entries of a list of pairs, in both directions, after the entries of the pairs before. -/
def pairEntries (entries : List (Opcode × Opcode)) :
    List (Opcode × Opcode) → Except Fault (List (Opcode × Opcode))
  | [] => .ok entries
  | (x, y) :: pairs =>
    if entries.any fun e => e.1 == x || e.1 == y then .error (.pairedTwice x y)
    else pairEntries (entries ++ [(x, y), (y, x)]) pairs

/-- The table that swaps the members of each pair. -/
def ofPairs (pairs : List (Opcode × Opcode)) : Except Fault ToggleTable := do
  ofEntries (← pairEntries [] pairs)

/-- Register and literal forms change places, and `tgl` with `out`. -/
def standard : ToggleTable where
  partner
    | .addr => .addi | .addi => .addr
    | .mulr => .muli | .muli => .mulr
    | .banr => .bani | .bani => .banr
    | .borr => .bori | .bori => .borr
    | .divr => .divi | .divi => .divr
    | .setr => .seti | .seti => .setr
    | .gtir => .gtri | .gtri => .gtir
    | .eqir => .eqri | .eqri => .eqir
    | .gtrr => .eqrr | .eqrr => .gtrr
    | .tgl => .out | .out => .tgl
  involutive op := by cases op <;> rfl

/-- The instruction with its opcode toggled and its operands as they are. -/
def flip (table : ToggleTable) (ins : Instruction) : Instruction :=
  { ins with op := table.partner ins.op }

theorem flip_flip (table : ToggleTable) (ins : Instruction) :
    table.flip (table.flip ins) = ins := by
  simp only [flip, table.involutive]

end ToggleTable

/-- Toggles the instruction at `target`; a target outside the program is ignored. -/
def Program.toggle (table : ToggleTable) (p : Program) (target : Int) : Program :=
  if p.hasAddress target then p.modify target.toNat table.flip else p

theorem Program.size_toggle (table : ToggleTable) (p : Program) (target : Int) :
    (p.toggle table target).size = p.size := by
  unfold Program.toggle
  split
  · exact Array.size_modify
  · rfl

theorem Program.hasAddress_toggle (table : ToggleTable) (p : Program) (target address : Int) :
    (p.toggle table target).hasAddress address = p.hasAddress address := by
  simp only [Program.hasAddress, Program.size_toggle]

end WordMachine

import WordMachine.Fault

/-!
# Programs

An array of instructions indexed by address. The length is fixed; only the instruction at an
address may be replaced.
-/

namespace WordMachine

abbrev Program := Array Instruction

namespace Program

/-- Whether an integer is the address of an instruction. -/
def hasAddress (p : Program) (address : Int) : Bool := 0 ≤ address && address < p.size

theorem hasAddress_iff {p : Program} {address : Int} :
    p.hasAddress address = true ↔ 0 ≤ address ∧ address < p.size := by
  simp [hasAddress]

/-- The instruction at an index; indices below zero count back from the end. -/
def at? (p : Program) (index : Int) : Option Instruction :=
  let i := if index < 0 then index + p.size else index
  if i < 0 then none else p[i.toNat]?

theorem at?_of_hasAddress {p : Program} {address : Int} (h : p.hasAddress address = true) :
    p.at? address = p[address.toNat]? := by
  obtain ⟨h0, _⟩ := hasAddress_iff.1 h
  simp only [at?]
  rw [if_neg (by omega), if_neg (by omega)]

/-- The instruction at an index. An index of more than 64 bits is a fault of its own. -/
def get (p : Program) (index : Int) : Except Fault Instruction :=
  match p.at? index with
  | some ins => .ok ins
  | none =>
    .error (if -0x8000000000000000 ≤ index ∧ index < 0x8000000000000000 then .noInstruction
      else .indexTooLarge)

/-- Replaces the instruction at an address, which here never counts from the end. -/
def put (p : Program) (address : Int) (ins : Instruction) : Except Fault Program :=
  if p.hasAddress address then .ok (p.modify address.toNat fun _ => ins)
  else .error (Fault.addressOutside address p.size).raised

/-- The first register index of an instruction that a file of `width` registers does not have. -/
def strayReference? (width : Int) (ins : Instruction) : Option Int :=
  ins.references.find? fun reg => !(0 ≤ reg && reg < width)

/-- The first instruction that refers to a register a file of `width` registers does not have. -/
def defect? (p : Program) (width : Int) : Option Fault :=
  p.toList.zipIdx.findSome? fun (ins, address) =>
    (strayReference? width ins).map fun reg => .badReference address ins reg width

def validate (p : Program) (width : Int) : Except Fault Unit :=
  match p.defect? width with
  | some fault => .error fault.raised
  | none => .ok ()

end Program

end WordMachine

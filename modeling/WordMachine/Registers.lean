import WordMachine.Fault

/-!
# Register files

A register file holds a fixed number of signed 64-bit words. Indices and values are integers of any
size: an index outside the file or a value that fits no word is a fault, and the index is looked at
first.
-/

namespace WordMachine

abbrev Word := Int64

/-- The word with the given value, if there is one: words go from -2^63 to 2^63 - 1. -/
def Word.ofInt? (v : Int) : Option Word :=
  if -0x8000000000000000 ≤ v ∧ v < 0x8000000000000000 then some (Int64.ofInt v) else none

theorem Word.toInt_of_ofInt? {v : Int} {w : Word} (h : Word.ofInt? v = some w) : w.toInt = v := by
  unfold Word.ofInt? at h
  split at h
  · rename_i hv
    obtain rfl := Option.some.inj h
    exact Int64.toInt_ofInt_of_le (by omega) (by omega)
  · cases h

theorem Word.ofInt?_isSome_iff {v : Int} :
    (Word.ofInt? v).isSome = true ↔ -0x8000000000000000 ≤ v ∧ v < 0x8000000000000000 := by
  unfold Word.ofInt?
  split <;> simp_all

/-- How many words fit into memory: those of 2^40 bytes. -/
def maxWords : Nat := 0x2000000000

/-- A file of `n` registers. -/
abbrev Registers (n : Nat) := Vector Word n

instance (n : Nat) : Hashable (Registers n) := ⟨fun r => hash r.toArray⟩

namespace Registers

variable {n : Nat}

def index? (n : Nat) (reg : Int) : Option (Fin n) :=
  if h : 0 ≤ reg ∧ reg < n then some ⟨reg.toNat, by omega⟩ else none

theorem index?_eq_some_iff {reg : Int} {i : Fin n} : index? n reg = some i ↔ reg = i := by
  unfold index?
  split
  · rw [Option.some.injEq, Fin.ext_iff]
    show reg.toNat = i.val ↔ reg = i
    omega
  · have := i.isLt
    simp only [reduceCtorEq, false_iff]
    omega

def index (n : Nat) (reg : Int) : Except Fault (Fin n) :=
  match index? n reg with
  | some i => .ok i
  | none => .error (Fault.registerOutside reg n).raised

def word (v : Int) : Except Fault Word :=
  match Word.ofInt? v with
  | some w => .ok w
  | none => .error .overflow

def read (r : Registers n) (reg : Int) : Except Fault Int :=
  (index n reg).map fun i => (r.get i).toInt

/-- Sets a register of the file. -/
@[inline]
def assign (r : Registers n) (i : Fin n) (w : Word) : Registers n := r.set i w i.isLt

def write (r : Registers n) (reg v : Int) : Except Fault (Registers n) := do
  let i ← index n reg
  let w ← word v
  return r.assign i w

def values (r : Registers n) : List Int := r.toList.map (·.toInt)

theorem length_values (r : Registers n) : r.values.length = n := by simp [values]

def text (r : Registers n) : String := "RegisterBank(" ++ Text.bracketed r.values ++ ")"

/-- A file has at least one register; the count must fit a word, the bytes of the file must be
countable in a word, and they must fit into memory. -/
def checkCount (count : Int) : Except Fault Unit :=
  if count ≤ 0 then .error (Fault.noRegisters count).raised
  else if 0x8000000000000000 ≤ count then .error .tooManyRegisters
  else if 0x8000000000000000 ≤ 8 * count then .error .registersTooBig
  else if maxWords < count then .error (.noRoomForRegisters count.toNat)
  else .ok ()

def zeros (count : Int) : Except Fault (Registers count.toNat) := do
  checkCount count
  return Vector.replicate _ 0

/-- All zeros but for one register. -/
def seeded (count reg v : Int) : Except Fault (Registers count.toNat) := do
  checkCount count
  let i ← index count.toNat reg
  let w ← word v
  let r : Registers count.toNat := Vector.replicate _ 0
  return r.assign i w

/-- The file that holds the given values. -/
def ofList (vs : List Int) : Except Fault (Registers vs.length) :=
  if vs.isEmpty then .error (.noRegisters 0)
  else if vs.all fun v => (Word.ofInt? v).isSome then
    .ok ⟨(vs.map Int64.ofInt).toArray, by simp⟩
  else .error .overflow

end Registers

/-- So many zeros, none for a count below zero. A count of more than 64 bits is a fault, whatever
its sign. -/
def zeroValues (count : Int) : Except Fault (List Int) :=
  if count < -0x8000000000000000 ∨ 0x8000000000000000 ≤ count then .error .tooManyZeros
  else if maxWords < count then .error .noRoomForZeros
  else .ok (List.replicate count.toNat 0)

/-- The given leading values, padded with zeros to a file of `count` registers. -/
def initialValues (count : Int) (vs : List Int) : Except Fault (List Int) :=
  if count < vs.length then .error (Fault.tooManyValues vs.length count).raised
  else (zeroValues (count - vs.length)).map (vs ++ ·)

end WordMachine

import WordMachine.Execution

/-!
# Blanks

Two dashes in the place of an option's value leave the option blank. A blank does no harm as long
as nobody needs the value: no register is the blank one, and no text is as good as a blank text.
Where a value is needed the command ends, with the words for an operation that cannot be done on an
empty list.
-/

namespace WordMachine.CommandLine

/-- The value of an option: given, or left blank. -/
inductive Given (α : Type) where
  | value (a : α)
  | blank
  deriving DecidableEq, Repr

def Given.toOption {α : Type} : Given α → Option α
  | .value a => some a
  | .blank => none

/-- What a value is needed for. -/
inductive Need where
  | sessionWidth
  | seededWidth
  | sampleWidth
  | budget
  | seedRegister
  | firstSeed
  | lastSeed
  | limit
  | seedRange
  | level
  | demonstration
  deriving DecidableEq, Repr

def Need.message : Need → String
  | .sessionWidth => "'>' not supported between instances of 'int' and 'list'"
  | .seededWidth => "'<=' not supported between instances of 'list' and 'int'"
  | .sampleWidth => "can't multiply sequence by non-int of type 'list'"
  | .budget => "'>=' not supported between instances of 'int' and 'list'"
  | .seedRegister => "'<=' not supported between instances of 'int' and 'list'"
  | .firstSeed => "a number is required"
  | .lastSeed => "can only concatenate list (not \"int\") to list"
  | .limit => "unsupported operand type(s) for +: 'int' and 'list'"
  | .seedRange => "'list' object cannot be interpreted as an integer"
  | .level => "Level not an integer or a valid string: []"
  | .demonstration => "unhashable type: 'list'"

/-- Why a command line gets no reply: its command was interrupted, or a blank stands where a value
is needed. -/
inductive Escape where
  | interrupt (cause : Interrupt)
  | blank (need : Need)
  deriving DecidableEq, Repr

/-- The steps an analysis may take. A blank budget is looked at when the first step is due. -/
def stepBudget : Option (Given Int) → Option Int
  | none => none
  | some (.value n) => some n
  | some .blank => some 0

/-- The first seed to try and how many, or why they cannot be told. -/
def seedRange : Given Int → Option (Given Int) → Except Need (Int × Option Int)
  | .value start, none => .ok (start, none)
  | .value start, some (.value limit) => .ok (start, some limit)
  | .value _, some .blank => .error .limit
  | .blank, none => .error .firstSeed
  | .blank, some (.value _) => .error .lastSeed
  | .blank, some .blank => .error .seedRange

end WordMachine.CommandLine

import WordMachine.Text.Blank
import WordMachine.Text.Digit

/-!
# Integers in decimal

`printInt` writes an integer with ASCII digits. `readInt` is more lenient: it takes digits of any
script, blanks around the numeral, a plus sign, leading zeros, and single underscores between
digits. A numeral of more than `maxDigits` digits is refused, whatever follows its digits; and an
integer of more digits than that is never written.
-/

namespace WordMachine.Text

def printInt : Int → List Char
  | .ofNat n => Nat.toDigits 10 n
  | .negSucc n => '-' :: Nat.toDigits 10 (n + 1)

/-- Why a text is not read as an integer. -/
inductive Misread where
  | notANumber
  | tooLong (digits : Nat)
  deriving DecidableEq, Repr

/-- The most digits that a numeral may have, read or written. -/
def maxDigits : Nat := 4300

/-- How many digits an integer is printed with. -/
def digitCount (x : Int) : Nat := (Nat.toDigits 10 x.natAbs).length

/-- The blanks allowed around a numeral: all but the four information separators. -/
def isMargin (c : Char) : Bool := isBlank c && !(28 ≤ c.toNat && c.toNat ≤ 31)

/-- The number written by a row of digits; a character that is no digit counts as zero. -/
def natOfDigits (cs : List Char) : Nat :=
  cs.foldl (fun n c => 10 * n + (digitValue? c).getD 0) 0

/-- An unsigned numeral: digits in groups separated by single underscores. -/
def readNat (cs : List Char) : Except Misread Nat :=
  let inNumeral := fun c => isDigit c || c == '_'
  let groups := (cs.takeWhile inNumeral).splitOn '_'
  if groups.any (·.isEmpty) then .error .notANumber
  else if maxDigits < groups.flatten.length then .error (.tooLong groups.flatten.length)
  else if (cs.dropWhile inNumeral).isEmpty then .ok (natOfDigits groups.flatten)
  else .error .notANumber

def readInt (cs : List Char) : Except Misread Int :=
  match trimBy isMargin cs with
  | '-' :: rest => (readNat rest).map fun n => -(n : Int)
  | '+' :: rest => (readNat rest).map fun n => (n : Int)
  | rest => (readNat rest).map fun n => (n : Int)

/-- A row of integers in brackets, as in `[1, -2]`. -/
def bracketed (xs : List Int) : String :=
  "[" ++ ", ".intercalate (xs.map toString) ++ "]"

end WordMachine.Text

/-!
# Amounts of memory

A number of bytes is shown in the largest binary unit it reaches, with three significant digits, or
with all its digits from a thousand on. Only the first 53 binary digits of the number count. A value
halfway between two digits goes to the even one, and a value that would round up to a whole larger
unit is shown in that unit.
-/

namespace WordMachine.Text

/-- The integer nearest to `n / d`, of two the even one. -/
def roundDiv (n d : Nat) : Nat :=
  let q := n / d
  if 2 * (n % d) < d ∨ (2 * (n % d) = d ∧ q % 2 = 0) then q else q + 1

/-- The nearest number with at most 53 binary digits before its zeros. -/
def leading53 (n : Nat) : Nat :=
  let rest := 1 <<< (n.log2 - 52)
  roundDiv n rest * rest

def byteUnits : List String := ["bytes", "KiB", "MiB", "GiB", "TiB", "PiB", "EiB"]

/-- How many steps of 1024 the unit of an amount is above a byte. -/
def byteUnit (bytes : Nat) : Nat :=
  let unit := bytes.log2 / 10
  if roundDiv bytes (1 <<< (10 * unit)) = 1024 then unit + 1 else unit

/-- `n / d` with `places` digits after the point, which is there even if they are none. -/
def fixedPoint (places n d : Nat) : String :=
  let digits := toString (roundDiv (n * Nat.pow 10 places) d)
  let whole := digits.length - places
  String.ofList (digits.toList.take whole ++ '.' :: digits.toList.drop whole)

/-- `n / d` with three significant digits, and more only before the point. -/
def threeDigits (n d : Nat) : String :=
  if roundDiv (100 * n) d < 1000 then fixedPoint 2 n d
  else if roundDiv (10 * n) d < 1000 then fixedPoint 1 n d
  else fixedPoint 0 n d

def byteSize (count : Nat) : String :=
  let bytes := leading53 count
  let unit := byteUnit bytes
  let amount := if unit = 0 then toString bytes else threeDigits bytes (1 <<< (10 * unit))
  amount ++ " " ++ byteUnits.getD unit "EiB"

end WordMachine.Text

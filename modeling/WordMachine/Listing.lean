import WordMachine.Instruction.Reader
import WordMachine.Program
import WordMachine.Text.Line

/-!
# Listings

A listing has an instruction on each line and at most one directive `#ip N`, which wires register
`N` to the program counter. A semicolon starts a comment; blank lines mean nothing. Faults name
the line, counted from 1.
-/

namespace WordMachine

structure Listing where
  ip : Option Int := none
  program : Program := #[]
  deriving DecidableEq

namespace Listing

/-! ## Writing -/

def printLines (l : Listing) : List (List Char) :=
  (match l.ip with
    | some ip => ["#ip ".toList ++ Text.printInt ip]
    | none => []) ++ l.program.toList.map Instruction.print

def print (l : Listing) : List Char := ['\n'].intercalate l.printLines ++ ['\n']

/-- Whether every integer of the listing can be written. -/
def legible (l : Listing) : Bool :=
  l.ip.all (fun ip => Text.digitCount ip ≤ Text.maxDigits) && l.program.all fun ins => ins.Writable

def text (l : Listing) : Except Fault (List Char) :=
  if l.legible then .ok l.print else .error .unwritable

/-! ## Reading -/

/-- A line without its comment and the blanks around it. -/
def content (line : List Char) : List Char := Text.trim (line.takeWhile (· != ';'))

/-- The digits of a directive that wires a register, if the line is one. -/
def directiveDigits? (line : List Char) : Option (List Char) :=
  match line with
  | '#' :: 'i' :: 'p' :: c :: rest =>
    let digits := rest.dropWhile Text.isBlank
    if Text.isBlank c && !digits.isEmpty && digits.all Text.isDigit then some digits else none
  | _ => none

def readDirective (number : Nat) (l : Listing) (line : List Char) : Except Fault Listing :=
  match directiveDigits? line with
  | none => .error (.atLine number (.badDirective line))
  | some digits =>
    if l.ip.isSome then .error (.atLine number .boundTwice)
    else (readNumber digits).map fun ip => { l with ip := some ip }

/-- Adds what a line says to the listing of the lines before it. -/
def readLine (number : Nat) (l : Listing) (line : List Char) : Except Fault Listing :=
  match content line with
  | [] => .ok l
  | '#' :: rest => readDirective number l ('#' :: rest)
  | text =>
    match Instruction.read text with
    | .ok ins => .ok { l with program := l.program.push ins }
    | .error fault => .error (.atLine number fault)

def readLines : Nat → Listing → List (List Char) → Except Fault Listing
  | _, l, [] => .ok l
  | number, l, line :: lines =>
    match readLine number l line with
    | .ok l => readLines (number + 1) l lines
    | .error fault => .error fault

def read (text : List Char) : Except Fault Listing := readLines 1 {} (Text.lines text)

end Listing

end WordMachine

import WordMachine.Sample
import WordMachine.Text.Line

/-!
# Sample files

A sample takes three lines; the rows of a program follow, or stand between samples.

    Before: [3, 2, 1, 1]
    9 2 1 2
    After:  [3, 2, 2, 1]

Blank lines may stand anywhere but inside a sample.
-/

namespace WordMachine

structure SampleFile where
  samples : List Sample := []
  rows : List Row := []
  deriving DecidableEq, Repr

/-! ## Writing -/

def Row.print (row : Row) : List Char :=
  Text.printInt row.number ++ ' ' :: Text.printInt row.a ++ ' ' :: Text.printInt row.b ++
    ' ' :: Text.printInt row.c

namespace Sample

def printValues (vs : List Int) : List Char :=
  '[' :: [',', ' '].intercalate (vs.map Text.printInt) ++ [']']

def printLines (s : Sample) : List (List Char) :=
  ["Before: ".toList ++ printValues s.before, s.row.print, "After:  ".toList ++ printValues s.after]

end Sample

namespace SampleFile

/-- The samples, then the rows. -/
def printLines (file : SampleFile) : List (List Char) :=
  file.samples.flatMap Sample.printLines ++ file.rows.map Row.print

def print (file : SampleFile) : List Char := file.printLines.flatMap (· ++ ['\n'])

/-! ## Reading -/

/-- The four numerals of a row, if the line is one: digits with an optional minus sign. -/
def rowWords? (line : List Char) : Option (List Char × List Char × List Char × List Char) :=
  let isNumeral : List Char → Bool
    | '-' :: digits => !digits.isEmpty && digits.all Text.isDigit
    | digits => !digits.isEmpty && digits.all Text.isDigit
  match Text.words line with
  | [number, a, b, c] =>
    if isNumeral number && isNumeral a && isNumeral b && isNumeral c then some (number, a, b, c)
    else none
  | _ => none

/-- What stands in brackets after a label, if it could be a list of numbers. -/
def bracketText? (label line : List Char) : Option (List Char) :=
  if label.isPrefixOf line then
    match (line.drop label.length).dropWhile Text.isBlank with
    | '[' :: rest =>
      let text := rest.dropLast
      if rest.getLast? == some ']' && !text.isEmpty &&
          text.all fun c => c == '-' || c == ',' || Text.isDigit c || Text.isBlank c
      then some text else none
    | _ => none
  else none

def readRow : List Char × List Char × List Char × List Char → Except Fault Row
  | (number, a, b, c) =>
    return ⟨← readNumber number, ← readNumber a, ← readNumber b, ← readNumber c⟩

def readValues (text : List Char) : Except Fault (List Int) := (text.splitOn ',').mapM readNumber

/-- The sample whose first line has the given number and the values `before`. -/
def readSample (number : Nat) (before row after : List Char) : Except Fault Sample :=
  match rowWords? row, bracketText? "After:".toList after with
  | some row, some after =>
    return ⟨← readValues before, ← readRow row, ← readValues after⟩
  | _, _ => .error (.atLine number .malformedSample)

/-- Reads trimmed lines, the first of which has the given number. -/
def readLines : Nat → List (List Char) → Except Fault SampleFile
  | _, [] => .ok {}
  | number, line :: rest =>
    match bracketText? "Before:".toList line with
    | some before =>
      match rest with
      | row :: after :: rest => do
        let sample ← readSample number before row after
        let file ← readLines (number + 3) rest
        return { file with samples := sample :: file.samples }
      | _ => .error (.atLine number .truncatedSample)
    | none =>
      match rowWords? line with
      | some row => do
        let row ← readRow row
        let file ← readLines (number + 1) rest
        return { file with rows := row :: file.rows }
      | none =>
        if line.isEmpty then readLines (number + 1) rest
        else .error (.atLine number (.unexpectedText line))

def read (text : List Char) : Except Fault SampleFile :=
  readLines 1 ((Text.lines text).map Text.trim)

end SampleFile

end WordMachine

import WordMachine.Text.Quoted

/-!
# UTF-8

Bytes to characters. `decode` stops at the first byte that opens no character, or whose followers
do not complete it, and says where and why.
-/

namespace WordMachine.Text

inductive Utf8.Reason where
  | invalidStart
  | invalidContinuation
  | unexpectedEnd
  deriving DecidableEq, Repr

/-- The bytes that do not decode: the value of the first, where it stands, and how many there
are. -/
structure Utf8.Defect where
  byte : Nat
  position : Nat
  length : Nat
  reason : Utf8.Reason
  deriving DecidableEq, Repr

def Utf8.Reason.text : Utf8.Reason → String
  | .invalidStart => "invalid start byte"
  | .invalidContinuation => "invalid continuation byte"
  | .unexpectedEnd => "unexpected end of data"

def Utf8.Defect.message (d : Utf8.Defect) : String :=
  let place :=
    if d.length == 1 then
      "byte 0x" ++ String.ofList (hex 2 d.byte) ++ s!" in position {d.position}"
    else s!"bytes in position {d.position}-{d.position + d.length - 1}"
  "'utf-8' codec can't decode " ++ place ++ ": " ++ d.reason.text

namespace Utf8

/-- What a first byte promises: how many bytes follow, and the range of the first of them, which
keeps out overlong forms, surrogates and code points past the last plane. -/
def followers (a : Nat) : Option (Nat × Nat × Nat) :=
  if a < 0x80 then some (0, 0, 0)
  else if a < 0xC2 then none
  else if a < 0xE0 then some (1, 0x80, 0xBF)
  else if a < 0xF0 then
    some (2, if a == 0xE0 then 0xA0 else 0x80, if a == 0xED then 0x9F else 0xBF)
  else if a < 0xF5 then
    some (3, if a == 0xF0 then 0x90 else 0x80, if a == 0xF4 then 0x8F else 0xBF)
  else none

/-- How many of the `k` bytes after the first are there and in range, up to the first that is
not. -/
def matched : Nat → Nat → Nat → List Nat → Nat
  | k + 1, lo, hi, b :: bs => if lo ≤ b && b ≤ hi then matched k 0x80 0xBF bs + 1 else 0
  | _, _, _, _ => 0

def codePoint (a k : Nat) (tail : List Nat) : Nat :=
  tail.foldl (fun n b => n * 64 + b % 64) (if k == 0 then a else a % (1 <<< (6 - k)))

/-- Decodes what is left of the bytes from `position` on, at most `fuel` characters of it. -/
def decodeFrom : Nat → Nat → List Nat → Except Defect (List Char)
  | 0, _, _ => .ok []
  | _, _, [] => .ok []
  | fuel + 1, position, a :: bs =>
    match followers a with
    | none => .error ⟨a, position, 1, .invalidStart⟩
    | some (k, lo, hi) =>
      let good := matched k lo hi bs
      if good == k then
        (decodeFrom fuel (position + k + 1) (bs.drop k)).map
          (Char.ofNat (codePoint a k (bs.take k)) :: ·)
      else if bs.length == good then .error ⟨a, position, good + 1, .unexpectedEnd⟩
      else .error ⟨a, position, good + 1, .invalidContinuation⟩

/-- Every character takes a byte at least, so the bytes are fuel enough. -/
def decode (bytes : List Nat) : Except Defect (List Char) :=
  decodeFrom bytes.length 0 bytes

end Utf8

end WordMachine.Text

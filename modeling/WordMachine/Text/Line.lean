/-!
# Lines

A text is cut into lines at line breaks. A carriage return with the line feed after it is one
break, and a break at the very end opens no further line.
-/

namespace WordMachine.Text

/-- Line feed, vertical tab, form feed, carriage return, the file, group and record separators,
next line, and the Unicode line and paragraph separators. The unit separator is blank but breaks
no line. -/
def isLineBreak (c : Char) : Bool :=
  let n := c.toNat
  (10 ≤ n && n ≤ 13) || (28 ≤ n && n ≤ 30) || n == 0x85 || n == 0x2028 || n == 0x2029

def lines : List Char → List (List Char)
  | [] => []
  | '\r' :: '\n' :: cs => [] :: lines cs
  | c :: cs =>
    if isLineBreak c then [] :: lines cs
    else
      match lines cs with
      | l :: ls => (c :: l) :: ls
      | [] => [[c]]

end WordMachine.Text

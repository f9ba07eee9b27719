import WordMachine.CommandLine.Blank
import WordMachine.Text.Numeral
import WordMachine.Text.Quoted

/-!
# Words of a command line

A grammar has options and at most one operand. Each word is first given a role on its own:

- a word that starts with a dash is an option, unless it is a lone dash, a negative number or has a
  space in it;
- a long option may be cut short as long as one option only starts that way, and may carry its value
  after `=`;
- a short option may carry its value directly or after `=`; short flags may stand together behind
  one dash;
- after `--` every word is an operand; attached to an option it leaves the option blank.

Then the options take their values and the operand its word, from left to right. What nobody takes
is left over.
-/

namespace WordMachine.CommandLine

/-- What an option asks for. -/
inductive Action where
  | help
  | version
  | flag
  | text
  | choice (values : List String)
  | integer
  deriving DecidableEq, Repr

def Action.takesValue : Action → Bool
  | .help | .version | .flag => false
  | .text | .choice _ | .integer => true

/-- An option, under all its names. -/
structure Switch where
  names : List String
  action : Action
  deriving DecidableEq, Repr

/-- The operand of a grammar: none, a single word, or one of several words with all that follows. -/
inductive Operand where
  | absent
  | single (name : String)
  | command (name : String) (choices : List String)
  deriving DecidableEq, Repr

structure Grammar where
  switches : List Switch
  operand : Operand

inductive Value where
  | set
  | blank
  | text (value : String)
  | integer (value : Int)
  deriving DecidableEq, Repr

/-- What was read: the options given, the last one first, the words of the operand, and the words
left over. -/
structure Reading where
  settings : List (Switch × Value) := []
  operand : List String := []
  extras : List String := []

/-- Why reading stops before the end. -/
inductive Early where
  | help
  | version
  | refused (message : String)
  deriving DecidableEq, Repr

/-! ## Messages -/

def quotedWord (word : String) : String := Text.quoted word.toList

def Switch.label (s : Switch) : String := "/".intercalate s.names

def refuse {α : Type} (label message : String) : Except Early α :=
  .error (.refused ("argument " ++ label ++ ": " ++ message))

def refuseChoice {α : Type} (label word : String) (choices : List String) : Except Early α :=
  refuse label ("invalid choice: " ++ quotedWord word ++ " (choose from " ++
    ", ".intercalate (choices.map quotedWord) ++ ")")

def refuseAttached {α : Type} (s : Switch) (value : List Char) : Except Early α :=
  refuse s.label ("ignored explicit argument " ++ Text.quoted value)

/-! ## The role of a word -/

/-- An option as a word gives it: under which name, and the text attached to it, if any. -/
structure Use where
  switch : Switch
  name : String
  attached : Option (List Char)

inductive Role where
  | operand
  | divider
  | option (use : Use)
  | unknownOption

namespace Grammar

/-- Every name with its switch, in order. -/
def names (g : Grammar) : List (String × Switch) :=
  g.switches.flatMap fun s => s.names.map fun name => (name, s)

def find? (g : Grammar) (name : String) : Option Switch := g.names.lookup name

/-- The ways to read a word as an option that is not given by its full name. -/
def readings (g : Grammar) (word : List Char) : List Use :=
  match word with
  | '-' :: '-' :: _ =>
    let start := word.takeWhile (· != '=')
    let attached := match word.dropWhile (· != '=') with
      | _ :: value => some value
      | [] => none
    g.names.filterMap fun (name, s) =>
      if start.isPrefixOf name.toList then some ⟨s, name, attached⟩ else none
  | _ =>
    g.names.filterMap fun (name, s) =>
      if name.toList == word.take 2 then some ⟨s, name, some (word.drop 2)⟩
      else if word.isPrefixOf name.toList then some ⟨s, name, none⟩
      else none

/-- A minus sign with digits, which may have a point among or before them. -/
def isNegativeNumber (word : List Char) : Bool :=
  let word := if word.getLast? == some '\n' then word.dropLast else word
  match word with
  | '-' :: digits =>
    let whole := digits.takeWhile Text.isDigit
    match digits.dropWhile Text.isDigit with
    | [] => !whole.isEmpty
    | '.' :: places => !places.isEmpty && places.all Text.isDigit
    | _ => false
  | _ => false

/-- The role of a word that starts with a dash. -/
def optionRole (g : Grammar) (word : String) : Except Early Role :=
  match g.find? word with
  | some s => .ok (.option ⟨s, word, none⟩)
  | none =>
    let cs := word.toList
    let name := String.ofList (cs.takeWhile (· != '='))
    if cs.length == 1 then .ok .operand
    else
      match cs.contains '=', g.find? name with
      | true, some s => .ok (.option ⟨s, name, some ((cs.dropWhile (· != '=')).drop 1)⟩)
      | _, _ =>
        match g.readings cs with
        | [use] => .ok (.option use)
        | [] => .ok (if isNegativeNumber cs || cs.contains ' ' then .operand else .unknownOption)
        | uses => .error (.refused ("ambiguous option: " ++ word ++ " could match " ++
            ", ".intercalate (uses.map (·.name))))

def role (g : Grammar) (word : String) : Except Early Role :=
  match word.toList with
  | '-' :: _ => g.optionRole word
  | _ => .ok .operand

def roles (g : Grammar) : List String → Except Early (List (String × Role))
  | [] => .ok []
  | word :: words =>
    if word == "--" then .ok ((word, .divider) :: words.map fun w => (w, .operand))
    else do
      let role ← g.role word
      return (word, role) :: (← g.roles words)

/-! ## Options at work -/

/-- The switches that a word sets, each with its value. The last may still wait for one from the
next word. -/
structure Cluster where
  settings : List (Switch × Option String) := []
  waiting : Option Switch := none

def isLongName (name : String) : Bool := "--".toList.isPrefixOf name.toList

/-- Takes the text attached to a switch apart: it is the value of the switch or, behind a short
flag, further short switches. What is neither is refused. -/
def cluster (g : Grammar) (before : List (Switch × Option String)) (s : Switch) (name : String) :
    List Char → Except Early Cluster
  | [] =>
    if s.action.takesValue then .ok { settings := before ++ [(s, some "")] }
    else refuseAttached s []
  | c :: rest =>
    let short := String.ofList ['-', c]
    if s.action.takesValue then
      .ok { settings := before ++ [(s, some (String.ofList (c :: rest)))] }
    else if isLongName name then refuseAttached s (c :: rest)
    else
      match g.find? short, rest with
      | none, _ => refuseAttached s (c :: rest)
      | some next, [] => .ok { settings := before ++ [(s, none)], waiting := some next }
      | some next, d :: rest => g.cluster (before ++ [(s, none)]) next short (d :: rest)

def takeApart (g : Grammar) (use : Use) : Except Early Cluster :=
  match use.attached with
  | none => .ok { waiting := some use.switch }
  | some value => g.cluster [] use.switch use.name value

/-- The value of a switch. -/
def value (s : Switch) (word : Option String) : Except Early Value :=
  match s.action, word with
  | .help, _ => .error .help
  | .version, _ => .error .version
  | _, some "--" => .ok .blank
  | .choice values, some word =>
    if values.contains word then .ok (.text word) else refuseChoice s.label word values
  | .integer, some word =>
    match Text.readInt word.toList with
    | .ok v => .ok (.integer v)
    | .error _ => refuse s.label ("invalid int value: " ++ quotedWord word)
  | _, some word => .ok (.text word)
  | _, none => .ok .set

def apply (r : Reading) : List (Switch × Option String) → Except Early Reading
  | [] => .ok r
  | (s, word) :: more => do
    let v ← value s word
    apply { r with settings := (s, v) :: r.settings } more

def leave (r : Reading) (word : String) : Reading := { r with extras := r.extras ++ [word] }

/-- Whether the operand still waits for its word. -/
def wantsOperand (g : Grammar) (r : Reading) : Bool := g.operand != .absent && r.operand.isEmpty

/-- Gives the operand its word, and a command all words after it. -/
def takeOperand (g : Grammar) (r : Reading) (word : String) (rest : List (String × Role)) :
    Except Early (Reading × List (String × Role)) :=
  match g.operand with
  | .command name choices =>
    if choices.contains word then .ok ({ r with operand := word :: rest.map (·.1) }, [])
    else refuseChoice name word choices
  | _ => .ok ({ r with operand := [word] }, rest)

/-- Gives every word to an option, to the operand, or to the words left over; one word at least in
each of `k` rounds. -/
def assign (g : Grammar) : Nat → Reading → List (String × Role) → Except Early Reading
  | 0, r, _ => .ok r
  | _, r, [] => .ok r
  | k + 1, r, (word, .unknownOption) :: rest => g.assign k (leave r word) rest
  | k + 1, r, (_, .option use) :: rest => do
    let c ← g.takeApart use
    match c.waiting, rest with
    | none, rest => g.assign k (← apply r c.settings) rest
    | some s, rest =>
      if s.action.takesValue then
        match rest with
        | (next, .operand) :: rest =>
          g.assign k (← apply r (c.settings ++ [(s, some next)])) rest
        | _ => refuse s.label "expected one argument"
      else g.assign k (← apply r (c.settings ++ [(s, none)])) rest
  | k + 1, r, (word, .divider) :: rest =>
    match g.wantsOperand r, g.operand, rest with
    | true, .command name choices, _ :: _ => refuseChoice name word choices
    | true, _, (next, .operand) :: rest => g.assign k { r with operand := [next] } rest
    | _, _, rest => g.assign k (leave r word) rest
  | k + 1, r, (word, .operand) :: rest =>
    if g.wantsOperand r then do
      let (r, rest) ← g.takeOperand r word rest
      match rest with
      | (_, .divider) :: rest => g.assign k r rest
      | rest => g.assign k r rest
    else g.assign k (leave r word) rest

/-- Reads a command line. A single operand must be there. -/
def read (g : Grammar) (words : List String) : Except Early Reading := do
  let r ← g.assign words.length {} (← g.roles words)
  match g.operand, r.operand with
  | .single name, [] => .error (.refused ("the following arguments are required: " ++ name))
  | _, _ => return r

end Grammar

/-! ## Results -/

namespace Reading

/-- The last value given for an option. -/
def value? (r : Reading) (name : String) : Option Value :=
  (r.settings.find? fun (s, _) => s.names.contains name).map (·.2)

def isSet (r : Reading) (name : String) : Bool := (r.value? name).isSome

def text? (r : Reading) (name : String) : Option (Given String) :=
  match r.value? name with
  | some (.text value) => some (.value value)
  | some .blank => some .blank
  | _ => none

def integer? (r : Reading) (name : String) : Option (Given Int) :=
  match r.value? name with
  | some (.integer value) => some (.value value)
  | some .blank => some .blank
  | _ => none

end Reading

end WordMachine.CommandLine

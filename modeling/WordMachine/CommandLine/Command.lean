import WordMachine.CommandLine.Grammar
import WordMachine.Journal
import WordMachine.Sample.Solution

/-!
# Commands

The commands of the program with their options, and how a command line names one. Options of the
program itself stand before the command.
-/

namespace WordMachine.CommandLine

inductive Command where
  | run (source : String) (leading : String) (width : Given Int)
  | analyze (source : String) (leading : String) (width : Given Int) (watched : Option Int)
      (budget : Option (Given Int))
  | halting (source : String) (leading : String) (width : Given Int) (gate : Option Int)
      (firstOnly : Bool) (budget : Option (Given Int))
  | clock (source : String) (width register start : Given Int) (limit budget : Option (Given Int))
  | flow (source : String)
  | opcodes (source : String) (width : Given Int)
  | demo (name : Given String)
  | test
  | info

/-- The file a command reads. -/
def Command.source? : Command → Option String
  | .run source .. | .analyze source .. | .halting source .. | .clock source .. | .flow source
  | .opcodes source _ => some source
  | .demo _ | .test | .info => none

/-- A command line as understood: the level of the journal, and the command, if there is one. -/
structure Invocation where
  level : Given Level
  command : Option Command

/-- A command line that asks for no command: for help, for the version, or for what cannot be. The
words name the program, with the command that refused. -/
inductive Dismissal where
  | help
  | commandHelp (command : String)
  | version
  | refused (program message : String)
  deriving DecidableEq, Repr

/-! ## Options -/

def programName : String := "regmachine"

def helpSwitch : Switch := ⟨["-h", "--help"], .help⟩

def versionSwitch : Switch := ⟨["--version", "-V"], .version⟩

def levelSwitch : Switch := ⟨["--log-level"], .choice (Level.all.map Level.name)⟩

def registersSwitch : Switch := ⟨["--registers", "-r"], .text⟩

def widthSwitch : Switch := ⟨["--register-count", "-n"], .integer⟩

def watchedSwitch : Switch := ⟨["--output-register"], .integer⟩

def budgetSwitch : Switch := ⟨["--max-steps"], .integer⟩

def gateSwitch : Switch := ⟨["--gate-register"], .integer⟩

def firstOnlySwitch : Switch := ⟨["--first-only"], .flag⟩

def seedSwitch : Switch := ⟨["--seed-register"], .integer⟩

def startSwitch : Switch := ⟨["--start"], .integer⟩

def limitSwitch : Switch := ⟨["--limit"], .integer⟩

def exampleSwitch : Switch :=
  ⟨["--example", "-e"], .choice ["worked", "toggle", "halting", "clock", "all"]⟩

def verboseSwitch : Switch := ⟨["--verbose", "-v"], .flag⟩

def coverageSwitch : Switch := ⟨["--coverage", "-c"], .flag⟩

/-! ## Grammars -/

/-- A command with its options beside help, and whether it reads a file. -/
structure CommandForm where
  name : String
  switches : List Switch
  reads : Bool

def commandForms : List CommandForm :=
  [⟨"run", [registersSwitch, widthSwitch], true⟩,
   ⟨"analyze", [registersSwitch, widthSwitch, watchedSwitch, budgetSwitch], true⟩,
   ⟨"halting", [registersSwitch, widthSwitch, gateSwitch, firstOnlySwitch, budgetSwitch], true⟩,
   ⟨"clock", [widthSwitch, seedSwitch, startSwitch, limitSwitch, budgetSwitch], true⟩,
   ⟨"flow", [], true⟩,
   ⟨"opcodes", [widthSwitch], true⟩,
   ⟨"demo", [exampleSwitch], false⟩,
   ⟨"test", [verboseSwitch, coverageSwitch], false⟩,
   ⟨"info", [], false⟩]

def CommandForm.grammar (form : CommandForm) : Grammar :=
  ⟨helpSwitch :: form.switches, if form.reads then .single "input" else .absent⟩

def programGrammar : Grammar :=
  ⟨[helpSwitch, versionSwitch, levelSwitch], .command "command" (commandForms.map (·.name))⟩

/-! ## Understanding a command line -/

def Switch.integerIn (s : Switch) (r : Reading) : Option (Given Int) :=
  r.integer? (s.names.headD "")

def Switch.textIn (s : Switch) (r : Reading) : Option (Given String) := r.text? (s.names.headD "")

def Command.ofReading (name : String) (r : Reading) : Command :=
  let source := r.operand.headD ""
  let leading := ((registersSwitch.textIn r).bind Given.toOption).getD ""
  let width := (widthSwitch.integerIn r).getD (.value defaultWidth)
  let budget := budgetSwitch.integerIn r
  match name with
  | "run" => .run source leading width
  | "analyze" =>
    .analyze source leading width ((watchedSwitch.integerIn r).bind Given.toOption) budget
  | "halting" =>
    .halting source leading width ((gateSwitch.integerIn r).getD (.value 0)).toOption
      (r.isSet "--first-only") budget
  | "clock" =>
    .clock source width ((seedSwitch.integerIn r).getD (.value 0))
      ((startSwitch.integerIn r).getD (.value 0)) (limitSwitch.integerIn r) budget
  | "flow" => .flow source
  | "opcodes" => .opcodes source ((widthSwitch.integerIn r).getD (.value SampleFile.defaultWidth))
  | "demo" => .demo ((exampleSwitch.textIn r).getD (.value "all"))
  | "test" => .test
  | _ => .info

/-- An early end of reading, in the grammar of the program or of one of its commands. -/
def Early.dismissal (command : Option String) : Early → Dismissal
  | .help => match command with
    | some name => .commandHelp name
    | none => .help
  | .version => .version
  | .refused message => match command with
    | some name => .refused (programName ++ " " ++ name) message
    | none => .refused programName message

/-- Words that nobody took are refused by the program, whichever command they followed. -/
def refuseExtras (extras : List String) (invocation : Invocation) : Except Dismissal Invocation :=
  if extras.isEmpty then .ok invocation
  else .error (.refused programName ("unrecognized arguments: " ++ " ".intercalate extras))

/-- The level a command line asks for. -/
def levelIn (r : Reading) : Given Level :=
  match levelSwitch.textIn r with
  | some .blank => .blank
  | some (.value name) => .value ((Level.ofName? name).getD .warning)
  | none => .value .warning

def Invocation.read (words : List String) : Except Dismissal Invocation := do
  let r ← (programGrammar.read words).mapError (Early.dismissal none)
  let level := levelIn r
  match r.operand with
  | [] => refuseExtras r.extras ⟨level, none⟩
  | name :: rest =>
    match commandForms.find? fun form => form.name == name with
    | none => refuseExtras r.extras ⟨level, none⟩
    | some form =>
      let inner ← (form.grammar.read rest).mapError (Early.dismissal (some name))
      refuseExtras (r.extras ++ inner.extras) ⟨level, some (Command.ofReading name inner)⟩

end WordMachine.CommandLine

import WordMachine.CommandLine.Command
import WordMachine.CommandLine.Report
import WordMachine.CommandLine.Source
import WordMachine.Demo

/-!
# Answering a command line

A command line is answered by an exit status, what is printed, and the journal. Malformed input is
an answer too, an error message with status 1; any other fault escapes, and so does a blank where a
value is needed.
-/

namespace WordMachine.CommandLine

structure Reply where
  exit : Nat
  stdout : String
  stderr : String
  deriving DecidableEq, Repr

/-- What a command prints, with its journal for when it is asked for. -/
structure Printout where
  exit : Nat
  lines : List String
  journal : Unit → Journal

def unlines (lines : List String) : String := String.join (lines.map (· ++ "\n"))

/-! ## Commands on a text -/

/-- Why a command prints no result. The journal up to there is kept. -/
structure Trouble where
  cause : Escape
  journal : Unit → Journal

def clean {α : Type} (r : Except Fault α) : Except Trouble α :=
  r.mapError fun f => ⟨.interrupt (.fault f), fun _ => []⟩

def lacking {α : Type} (need : Need) : Except Trouble α := .error ⟨.blank need, fun _ => []⟩

def Given.require {α : Type} (need : Need) : Given α → Except Trouble α
  | .value a => .ok a
  | .blank => lacking need

/-- The session of a listing, with its leading register values as they were typed. -/
def openSession (text : List Char) (leading : String) (width : Given Int) :
    Except Trouble Session := do
  let values ← clean (readLeading leading.toList)
  let listing ← clean (Listing.read text)
  clean (Session.ofListing listing (← width.require .sessionWidth) values)

def runCommand (s : Session) : Except Trouble Printout :=
  match s.run with
  | .ok values => .ok ⟨0, runLines values, fun _ => .ofRun s⟩
  | .error interrupt => .error ⟨.interrupt interrupt, fun _ => .ofRun s⟩

def analyzeCommand (s : Session) (watched : Option Int) (budget : Option (Given Int)) :
    Except Trouble Printout := do
  let steps := stepBudget budget
  let r ← clean (s.analyze { watched := watched } steps)
  if budget = some .blank ∧ r.verdict = .stepLimit then lacking .budget
  else return ⟨0, analysisLines r, fun _ => .ofSessionAnalysis s { watched := watched } steps⟩

def haltingCommand (s : Session) (gate : Option Int) (firstOnly : Bool)
    (budget : Option (Given Int)) : Except Trouble Printout := do
  let c : Collection := ⟨gate, firstOnly, stepBudget budget⟩
  let h ← clean (s.haltingValues c)
  let journal := fun _ => Journal.ofSessionCollection s c h
  if budget = some .blank ∧ h.stop = .budget then lacking .budget
  else if h.stop = .endless then .error ⟨.interrupt .endless, journal⟩
  else if h.values.isEmpty then return ⟨1, ["No gate instruction was reached"], journal⟩
  else return ⟨0, haltingLines firstOnly h, journal⟩

/-- Sees to it that a first attempt of a search finds a value where it needs one. -/
def requireForSearch (search : SeedSearch) (register : Given Int) (budget : Option (Given Int)) :
    Except Trouble Unit := do
  clean (Registers.checkCount search.width)
  if register = .blank then lacking .seedRegister
  else if budget = some .blank ∧ !search.program.isEmpty then
    let _ ← clean (search.test search.start)
    lacking .budget
  else return ()

def clockCommand (listing : Listing) (width register start : Given Int)
    (limit budget : Option (Given Int)) : Except Trouble Printout := do
  let (start, limit) ← (seedRange start limit).mapError fun need => ⟨.blank need, fun _ => []⟩
  let search := { listing.seedSearch ((width.toOption).getD 0) {} with
    register := register.toOption.getD 0, start := start, limit := limit
    budget := stepBudget budget }
  if search.attempts ≠ 0 then
    let _ ← width.require .seededWidth
    requireForSearch search register budget
  match ← clean search.find with
  | some seed => return ⟨0, [s!"Seed: {seed}"], fun _ => .ofSearch search⟩
  | none => return ⟨1, ["No seed produced a clock signal"], fun _ => .ofSearch search⟩

def opcodesCommand (file : SampleFile) (width : Given Int) : Except Trouble Printout := do
  let _ ← clean file.examine
  match file.solve (← width.require .sampleWidth) with
  | .ok solution => return ⟨0, solutionLines solution, fun _ => []⟩
  | .error interrupt => .error ⟨.interrupt interrupt, fun _ => []⟩

/-- A command that reads no text gets none. -/
def Command.perform (text : List Char) : Command → Except Trouble Printout
  | .run _ leading width => do runCommand (← openSession text leading width)
  | .analyze _ leading width watched budget => do
    analyzeCommand (← openSession text leading width) watched budget
  | .halting _ leading width gate firstOnly budget => do
    haltingCommand (← openSession text leading width) gate firstOnly budget
  | .clock _ width register start limit budget => do
    clockCommand (← clean (Listing.read text)) width register start limit budget
  | .flow _ => do
    let listing ← clean (Listing.read text)
    return ⟨0, flowLines (← clean (FlowGraph.ofProgram listing.program listing.ip)), fun _ => []⟩
  | .opcodes _ width => do opcodesCommand (← clean (SampleFile.read text)) width
  | .demo name => do
    match Demo.present (← name.require .demonstration) with
    | .ok s => .ok ⟨if s.passed then 0 else 1, s.lines, fun _ => s.journal⟩
    | .error interrupt => .error ⟨.interrupt interrupt, fun _ => []⟩
  | .test => .ok ⟨1, ["Test directory not found: tests"], fun _ => []⟩
  | .info => .ok ⟨0, infoLines, fun _ => []⟩

/-! ## Replies -/

/-- No command has anything to tell above the level of information. -/
def renderJournal (level : Level) (journal : Unit → Journal) : String :=
  if level.rank ≤ Level.info.rank then (journal ()).render level else ""

def Printout.reply (level : Level) (p : Printout) : Reply :=
  ⟨p.exit, unlines p.lines, renderJournal level p.journal⟩

def errorReply (message : String) (stderr : String) : Reply :=
  ⟨1, unlines ["Error: " ++ message], stderr⟩

/-- Malformed input is answered; any other trouble is not. -/
def Trouble.reply (level : Level) (t : Trouble) : Except Escape Reply :=
  match t.cause with
  | .interrupt (.fault f) =>
    if f.kind = .malformed then .ok (errorReply f.message (renderJournal level t.journal))
    else .error t.cause
  | _ => .error t.cause

def versionLine : String := "regmachine 1.0.0"

/-- The options of a command, a line each. -/
def commandHelpLines (name : String) : List String :=
  ("usage: " ++ programName ++ " " ++ name) ::
    (commandForms.filter fun form => form.name == name).flatMap fun form =>
      form.grammar.switches.map fun s => "  " ++ ", ".intercalate s.names

def Dismissal.reply : Dismissal → Reply
  | .help => ⟨0, unlines helpLines, ""⟩
  | .commandHelp name => ⟨0, unlines (commandHelpLines name), ""⟩
  | .version => ⟨0, unlines [versionLine], ""⟩
  | .refused program message => ⟨2, "", unlines [program ++ ": error: " ++ message]⟩

def Command.answer (files : Files) (input : List Nat) (level : Level) (command : Command) :
    Except Escape Reply :=
  let text := match command.source? with
    | some path => readSource files input path
    | none => .ok []
  match text with
  | .error fault => .ok (errorReply fault.message "")
  | .ok text =>
    match command.perform text with
    | .ok printout => .ok (printout.reply level)
    | .error trouble => trouble.reply level

/-- The level of the journal is needed before anything else. -/
def Invocation.answer (files : Files) (input : List Nat) (invocation : Invocation) :
    Except Escape Reply :=
  match invocation.level, invocation.command with
  | .blank, _ => .error (.blank .level)
  | .value _, none => .ok ⟨0, unlines helpLines, ""⟩
  | .value level, some command => command.answer files input level

/-- The answer to a command line, given the files and the bytes of standard input. -/
def answer (files : Files) (input : List Nat) (words : List String) : Except Escape Reply :=
  match Invocation.read words with
  | .ok invocation => invocation.answer files input
  | .error dismissal => .ok dismissal.reply

end WordMachine.CommandLine

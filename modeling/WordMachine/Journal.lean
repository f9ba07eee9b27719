import WordMachine.Session

/-!
# Journals

What a run has to tell beside its answer, as records of different weight. A journal is read off a
run after the fact: the events of a machine are those of its trace, so keeping a journal changes
nothing about the run.
-/

namespace WordMachine

inductive Level where
  | debug
  | info
  | warning
  | error
  deriving DecidableEq, Repr

/-- A record, under the name of the part it comes from. -/
structure Record where
  level : Level
  origin : String
  message : String
  deriving DecidableEq, Repr

namespace Level

def rank : Level → Nat
  | .debug => 0
  | .info => 1
  | .warning => 2
  | .error => 3

def name : Level → String
  | .debug => "DEBUG"
  | .info => "INFO"
  | .warning => "WARNING"
  | .error => "ERROR"

def all : List Level := [.debug, .info, .warning, .error]

def ofName? (name : String) : Option Level := all.find? fun level => level.name == name

end Level

abbrev Journal := List Record

namespace Journal

/-- The records of at least the given level, a line each. -/
def render (level : Level) (journal : Journal) : String :=
  let shown := journal.filter fun r => level.rank ≤ r.level.rank
  String.join (shown.map fun r => s!"{r.level.name} {r.origin}: {r.message}\n")

/-! ## Machines -/

def ofMachine : String := "regmachine.vm.vm"

def ofEvent (pc : Int) : Event → Journal
  | .quiet => []
  | .output value => [⟨.debug, ofMachine, s!"pc={pc} output {value}"⟩]
  | .toggled target ins =>
    match ins.text with
    | .ok text => [⟨.debug, ofMachine, s!"pc={pc} toggled {target} to {text}"⟩]
    | .error _ => []
  | .missed target => [⟨.debug, ofMachine, s!"pc={pc} toggle target {target} outside program"⟩]

/-- The events of the next `k` steps from a state, after the records of `past`. -/
def eventsFrom {n : Nat} (w : Wiring n) (past : Array Record) : Nat → State n → Array Record
  | 0, _ => past
  | k + 1, s =>
    let pc := s.pc
    match s.step w with
    | .error _ => past
    | .ok step => eventsFrom w (past ++ ofEvent pc step.event) k step.next

/-- The events of the next `k` steps of a machine. -/
def ofSteps {n : Nat} (k : Nat) (m : Machine n) : Journal :=
  (eventsFrom m.wiring #[] k m.state).toList

/-! ## Runs to the end -/

def ofRun (s : Session) : Journal :=
  let ip := match s.listing.ip with
    | some ip => toString ip
    | none => "None"
  let opening : Record := ⟨.info, "regmachine.api.listing",
    s!"Running {s.listing.program.size} instructions, ip bound to {ip}"⟩
  opening ::
    match Registers.ofList s.values with
    | .error _ => []
    | .ok registers =>
      match Machine.load (s.setup {}) s.listing.program registers with
      | .error _ => []
      | .ok m =>
        match m.complete with
        | .halted last => ofSteps last.steps m
        | _ => []

/-! ## Analyses -/

def ofCycles : String := "regmachine.analysis.cycles"

/-- The journal of the analysis of machine `m` that led to a report. -/
def ofReport {n : Nat} (m : Machine n) (r : Report n) : Journal :=
  let refused := match r.verdict, r.machine.outputs.back? with
    | .rejected, some value =>
      [⟨.debug, ofCycles, s!"Output {value} rejected at step {r.machine.steps - 1}"⟩]
    | _, _ => []
  ofSteps r.machine.steps m ++ refused ++
    [⟨.info, ofCycles, s!"Run ended: {r.verdict.name} after {r.machine.steps} steps"⟩]

/-- The journal of an analysis from the start. -/
def ofAnalysis {n : Nat} {σ : Type} (setup : Setup) (check : Check σ) (budget : Option Int)
    (program : Program) (registers : Registers n) : Journal :=
  match Machine.load setup program registers with
  | .error _ => []
  | .ok m =>
    match m.analyze check budget with
    | .ok r => ofReport m r
    | .error _ => []

def ofSessionAnalysis (s : Session) (base : Setup) (budget : Option Int) : Journal :=
  match Registers.ofList s.values with
  | .error _ => []
  | .ok registers => ofAnalysis (s.setup base) Check.any budget s.listing.program registers

def ofSignal : String := "regmachine.analysis.signal"

/-- Of each seed tried, up to the one found, after the records of `past`. -/
def seedsFrom (s : SeedSearch) (past : Array Record) : Nat → Int → Array Record
  | 0, _ => past
  | k + 1, seed =>
    match Registers.seeded s.width s.register seed with
    | .error _ => past
    | .ok registers =>
      let past := past ++ ofAnalysis s.setup Clock.check s.budget s.program registers
      match isClock s.setup s.budget s.program registers with
      | .ok true => past.push ⟨.info, ofSignal, s!"Seed {seed} produces a clock signal"⟩
      | .ok false => seedsFrom s past k (seed + 1)
      | .error _ => past

def ofSearch (s : SeedSearch) : Journal := (seedsFrom s #[] s.attempts s.start).toList

/-! ## Halting values -/

def ofHalting : String := "regmachine.analysis.halting"

def ofGate {n : Nat} (c : Collection) (steps : Nat) (s : State n) (ins : Instruction) : Journal :=
  match s.gateValue c.gate ins with
  | .ok (some value) =>
    [⟨.debug, ofHalting, s!"Gate at pc={s.pc} compared {value} (step {steps})"⟩]
  | _ => []

/-- The gates met and the events shown in `k` steps of a collection, the first of which is number
`steps`, after the records of `past`; with `closing` also the gate it ends at. -/
def gatesFrom {n : Nat} (c : Collection) (w : Wiring n) (closing : Bool) (past : Array Record) :
    Nat → Nat → State n → Array Record
  | 0, steps, s =>
    match s.fetch w with
    | .error _ => past
    | .ok (t, ins) => if closing then past ++ ofGate c steps t ins else past
  | k + 1, steps, s =>
    match s.fetch w with
    | .error _ => past
    | .ok (t, ins) =>
      let past := past ++ ofGate c steps t ins
      let pc := t.pc
      match t.perform w (forced c.gate ins) with
      | .error _ => past
      | .ok step => gatesFrom c w closing (past ++ ofEvent pc step.event) k (steps + 1) step.next

/-- The journal of the collection that led to halting values. -/
def ofCollection {n : Nat} (c : Collection) (m : Machine n) (h : HaltingValues) : Journal :=
  let spent := match h.stop, c.budget with
    | .budget, some budget =>
      [⟨.info, ofHalting, s!"Step budget of {budget} reached with {h.values.size} values"⟩]
    | _, _ => []
  (gatesFrom c m.wiring (h.stop == .firstFound) #[] h.steps 0 m.state).toList ++ spent ++
    [⟨.info, ofHalting, s!"Collected {h.values.size} halting values in {h.steps} steps"⟩]

def ofSessionCollection (s : Session) (c : Collection) (h : HaltingValues) : Journal :=
  match Registers.ofList s.values with
  | .error _ => []
  | .ok registers =>
    match Machine.load (s.setup {}) s.listing.program registers with
    | .error _ => []
    | .ok m => ofCollection c m h

end Journal

end WordMachine

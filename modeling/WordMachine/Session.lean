import WordMachine.Clock
import WordMachine.Execution
import WordMachine.Halting
import WordMachine.Listing

/-!
# Sessions

A session is a listing with the values its registers start from, and the questions to ask of it.
The listing says which register is wired to the counter; the width of the register file and its
leading values are given apart.
-/

namespace WordMachine

/-- The width of a register file unless another is asked for. -/
def defaultWidth : Int := 6

/-- Register values separated by commas; pieces that are blank are skipped. -/
def readLeading (text : List Char) : Except Fault (List Int) :=
  (((text.splitOn ',').map Text.trim).filter (!·.isEmpty)).mapM readNumber

/-- A listing with the values its registers start from. -/
structure Session where
  listing : Listing
  values : List Int

namespace Session

def ofListing (listing : Listing) (width : Int) (leading : List Int) : Except Fault Session :=
  (initialValues width leading).map fun values => ⟨listing, values⟩

def read (text : List Char) (width : Int) (leading : List Int) : Except Fault Session := do
  ofListing (← Listing.read text) width leading

/-- The listing's wiring in an otherwise given setup. -/
def setup (s : Session) (base : Setup) : Setup := { base with ip := s.listing.ip }

def run (s : Session) : Except Interrupt (List Int) :=
  finalValues (s.setup {}) s.listing.program s.values

def analyze (s : Session) (base : Setup) (budget : Option Int) :
    Except Fault (Report s.values.length) := do
  let registers ← Registers.ofList s.values
  WordMachine.analyze (s.setup base) Check.any budget s.listing.program registers

def haltingValues (s : Session) (c : Collection) : Except Fault HaltingValues := do
  let registers ← Registers.ofList s.values
  WordMachine.haltingValues (s.setup {}) c s.listing.program registers

end Session

/-- A seed search on a listing. -/
def Listing.seedSearch (l : Listing) (width : Int) (base : Setup) : SeedSearch :=
  { setup := { base with ip := l.ip }, program := l.program, width := width }

end WordMachine

import WordMachine.Main
import WordMachine.Proofs.Run
import WordMachine.Proofs.StateSpace
import WordMachine.Proofs.Fallible
import WordMachine.Proofs.Step
import WordMachine.Proofs.Lasso
import WordMachine.Proofs.Decision
import WordMachine.Proofs.ClockSignal
import WordMachine.Proofs.Elimination
import WordMachine.Proofs.Resolution
import WordMachine.Proofs.Effect
import WordMachine.Proofs.ForcedRun
import WordMachine.Proofs.Addressing
import WordMachine.Proofs.HaltingSeeds
import WordMachine.Proofs.Search
import WordMachine.Proofs.StaticFlow
import WordMachine.Proofs.Numerals
import WordMachine.Proofs.RoundTrip
import WordMachine.Proofs.SelfModification
import WordMachine.Proofs.StraightLine
import WordMachine.Proofs.Settlement
import WordMachine.Proofs.Truthful
import WordMachine.Proofs.Loops
import WordMachine.Proofs.Acyclic
import WordMachine.Proofs.HaltingCoverage
import WordMachine.Proofs.FailedRun
import WordMachine.Proofs.Observation
import WordMachine.Proofs.Truncation
import WordMachine.Proofs.StaleRegister
import WordMachine.Proofs.Resumption
import WordMachine.Proofs.LeastSeed
import WordMachine.Proofs.EndlessCollection
import WordMachine.Proofs.CollectionBudget
import WordMachine.Proofs.ElementaryCycles
import WordMachine.Proofs.Entries
import WordMachine.Proofs.Concatenation
import WordMachine.Proofs.Layout
import WordMachine.Proofs.SampleRoundTrip
import WordMachine.Proofs.Arrangement
import WordMachine.Proofs.Overflow
import WordMachine.Proofs.Involutions
import WordMachine.Proofs.OnePass

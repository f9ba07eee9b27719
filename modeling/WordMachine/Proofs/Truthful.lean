import WordMachine.Proofs.Settlement
import WordMachine.Proofs.StraightLine
import WordMachine.Sample.Solution

/-!
# Truthful samples

`Truthful samples σ`: the samples were observed on a machine that numbers its opcodes by `σ`. The
true opcode of a number is then a candidate in each of its samples, and no round of elimination
strikes it. So the samples are never found to be inconsistent: either elimination finds the
numbering of the machine, or it names the numbers it cannot tell. With the numbering the rows of a
file decode to what the machine would run, and solving the file runs it.

There is a third outcome for integers of more digits than can be written. Such an operand may be a
literal to the true opcode and a register index to another, and such a number may be left open; in
both cases there is no text to tell of it.
-/

namespace WordMachine

structure Truthful (samples : List Sample) (σ : Int → Option Opcode) : Prop where
  base : ∀ ⦃number op⦄, σ number = some op → op ∈ Opcode.base
  injective : ∀ ⦃m n op⦄, σ m = some op → σ n = some op → m = n
  observed : ∀ s ∈ samples, ∃ op before after, σ s.row.number = some op ∧
    Registers.ofList s.before = .ok before ∧ before.apply (s.row.instruction op) = .ok after ∧
      after.values = s.after

/-- A base opcode that explains every sample of a number that occurs. -/
def Candidate (samples : List Sample) (number : Int) (op : Opcode) : Prop :=
  (∃ s ∈ samples, s.row.number = number) ∧ op ∈ Opcode.base ∧
    ∀ s ∈ samples, s.row.number = number → ∃ ops, s.candidates = .ok ops ∧ op ∈ ops

/-- The numbers for which the samples leave two candidates or more, in ascending order. -/
structure LeavesOpen (samples : List Sample) (numbers : List Int) : Prop where
  ne_nil : numbers ≠ []
  sorted : numbers.Pairwise (· < ·)
  mem_iff : ∀ number, number ∈ numbers ↔ ∃ op other, op ≠ other ∧
    Unsettled (Candidate samples) number op ∧ Unsettled (Candidate samples) number other

/-! ## Observations -/

namespace Truthful

variable {samples : List Sample} {σ : Int → Option Opcode}

theorem wellFormed (h : Truthful samples σ) : ∀ s ∈ samples, s.WellFormed := by
  intro s hs
  obtain ⟨_, before, -, -, hbefore, -⟩ := h.observed s hs
  obtain ⟨hne, hfits⟩ := Registers.fits_of_ofList hbefore
  exact ⟨hne, hfits⟩

theorem exists_candidates (h : Truthful samples σ) (hlegible : ∀ s ∈ samples, s.Legible) :
    ∀ s ∈ samples, ∃ ops, s.candidates = .ok ops :=
  fun s hs => Sample.exists_candidates (h.wellFormed s hs) (hlegible s hs)

/-- The true opcode of a number explains its samples. -/
theorem mem_candidates (h : Truthful samples σ) (hlegible : ∀ s ∈ samples, s.Legible) {s : Sample}
    {op : Opcode} (hs : s ∈ samples) (hop : σ s.row.number = some op) :
    ∃ ops, s.candidates = .ok ops ∧ op ∈ ops := by
  obtain ⟨op', before, after, hop', hbefore, happly, hafter⟩ := h.observed s hs
  obtain rfl : op = op' := Option.some.inj (hop.symm.trans hop')
  obtain ⟨ops, hops⟩ := h.exists_candidates hlegible s hs
  exact ⟨ops, hops, (Sample.mem_candidates_iff hbefore hops).2 ⟨h.base hop, after, happly, hafter⟩⟩

theorem consistent (h : Truthful samples σ) (hlegible : ∀ s ∈ samples, s.Legible) :
    Consistent samples (restrict samples σ) := by
  refine ⟨fun number => ⟨fun hsome => ?_, ?_⟩, fun number op hop => ?_, fun m n op hm hn => ?_,
    fun s op hs hop => ?_⟩
  · obtain ⟨op, hop⟩ := Option.isSome_iff_exists.1 hsome
    exact (restrict_eq_some_iff.1 hop).1
  · rintro ⟨s, hs, rfl⟩
    obtain ⟨op, _, _, hop, -⟩ := h.observed s hs
    rw [restrict_eq_some_iff.2 ⟨⟨s, hs, rfl⟩, hop⟩]
    rfl
  · exact h.base (restrict_eq_some_iff.1 hop).2
  · exact h.injective (restrict_eq_some_iff.1 hm).2 (restrict_eq_some_iff.1 hn).2
  · exact h.mem_candidates hlegible hs (restrict_eq_some_iff.1 hop).2

end Truthful

/-! ## Resolution -/

namespace Possibilities

variable {samples : List Sample} {possible : Possibilities}

theorem Summarizes.allows_eq (h : Summarizes samples possible) :
    possible.Allows = Candidate samples := by
  funext number op
  refine propext ⟨?_, ?_⟩
  · rintro ⟨ops, hmem, hop⟩
    exact ⟨(h.number_iff number).1 ⟨ops, hmem⟩, (h.mem_iff hmem op).1 hop⟩
  · rintro ⟨hoccurs, hop⟩
    obtain ⟨ops, hmem⟩ := (h.number_iff number).2 hoccurs
    exact ⟨ops, hmem, (h.mem_iff hmem op).2 hop⟩

theorem pairwise_numbers (observations : List (Int × List Opcode)) :
    (numbers observations).Pairwise (· < ·) := by
  have hle : (numbers observations).Pairwise (· ≤ ·) := pairwise_mergeSort_key id _
  exact (hle.and (nodup_numbers observations)).imp fun h => by omega

theorem pairwise_ofSamples (h : ofSamples samples = .ok possible) :
    (possible.map (·.1)).Pairwise (· < ·) := by
  obtain ⟨observations, -, h⟩ := Except.bind_eq_ok_iff.1 h
  cases h
  simpa [Function.comp_def] using pairwise_numbers observations

end Possibilities

/-- Truthful samples give the numbering of the machine and leave no number open, or elimination
fails for the numbers they leave open. -/
theorem Truthful.ofSamples_cases {samples : List Sample} {σ : Int → Option Opcode}
    (h : Truthful samples σ) (hlegible : ∀ s ∈ samples, s.Legible) :
    (∃ numbering, Numbering.ofSamples samples = .ok numbering ∧
      (numbering.map (·.1)).Pairwise (· < ·) ∧
      (∀ number, numbering.lookup number = restrict samples σ number) ∧
      ∀ numbers, ¬ LeavesOpen samples numbers) ∨
    ∃ numbers, Numbering.ofSamples samples = .error (Fault.unresolved numbers).raised ∧
      LeavesOpen samples numbers := by
  have hconsistent := h.consistent hlegible
  obtain ⟨possible, hpossible, hsum⟩ :=
    Possibilities.exists_ofSamples (h.exists_candidates hlegible)
  obtain ⟨τ, hτ, -⟩ := hsum.exists_solves hconsistent
  rcases Numbering.ofSamples_cases h.wellFormed with ⟨numbering, hok, hsorted, hiff⟩ |
    ⟨fault, herror, -⟩
  · have heliminate := hok
    rw [Numbering.ofSamples_eq hpossible] at heliminate
    obtain ⟨found, hfound, -⟩ := Except.map_eq_ok_iff.1 heliminate
    refine .inl ⟨numbering, hok, hsorted,
      fun number => (congrFun ((hiff _).1 hconsistent) number).symm, fun numbers hopen => ?_⟩
    obtain ⟨number, hnumber⟩ := List.exists_mem_of_ne_nil numbers hopen.ne_nil
    obtain ⟨op, -, -, hunsettled, -⟩ := (hopen.mem_iff number).1 hnumber
    rw [← hsum.allows_eq] at hunsettled
    exact Possibilities.not_unsettled_of_eliminate_ok hsum.regular hτ hfound hunsettled
  · have heliminate := herror
    rw [Numbering.ofSamples_eq hpossible, Except.map_eq_error_iff] at heliminate
    obtain ⟨numbers, rfl, hne, hsub, hiff⟩ :=
      Possibilities.unresolved_of_eliminate_error hsum.regular hτ heliminate
    rw [hsum.allows_eq] at hiff
    exact .inr ⟨numbers, herror, hne, (Possibilities.pairwise_ofSamples hpossible).sublist hsub,
      hiff⟩

/-- A file of zeros. -/
def Registers.blank (n : Nat) : Registers n := Vector.replicate n 0

end WordMachine

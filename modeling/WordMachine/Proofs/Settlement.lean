import WordMachine.Proofs.Resolution

/-!
# What elimination leaves open

An opcode is settled for a number if every other candidate of the number is settled for another
number. This is all that can be found out about the numbers without a guess, and it speaks of no
rounds and no order. `unsettled_iff_strike` says that a round of elimination changes nothing about
it: where elimination gets stuck nothing is settled any more, so the numbers it gives up on are
those with two or more candidates that are settled for no number.
-/

namespace WordMachine

inductive Settled (candidate : Int → Opcode → Prop) : Int → Opcode → Prop where
  | intro {number : Int} {op : Opcode} (holder : Opcode → Int) : candidate number op →
      (∀ other, candidate number other → other ≠ op → holder other ≠ number) →
      (∀ other, candidate number other → other ≠ op → Settled candidate (holder other) other) →
      Settled candidate number op

/-- A candidate of a number that is settled for no number. -/
def Unsettled (candidate : Int → Opcode → Prop) (number : Int) (op : Opcode) : Prop :=
  candidate number op ∧ ∀ m, ¬ Settled candidate m op

theorem Settled.candidate {candidate : Int → Opcode → Prop} {number : Int} {op : Opcode}
    (h : Settled candidate number op) : candidate number op := by
  cases h with
  | intro _ hop => exact hop

/-- The holders of the other candidates need not be chosen all at once. -/
theorem Settled.of_exists {candidate : Int → Opcode → Prop} {number : Int} {op : Opcode}
    (hop : candidate number op)
    (h : ∀ other, candidate number other → other ≠ op →
      ∃ m, m ≠ number ∧ Settled candidate m other) : Settled candidate number op := by
  have hholder : ∀ other, ∃ m, candidate number other → other ≠ op →
      m ≠ number ∧ Settled candidate m other := by
    intro other
    by_cases hother : candidate number other ∧ other ≠ op
    · obtain ⟨m, hm⟩ := h other hother.1 hother.2
      exact ⟨m, fun _ _ => hm⟩
    · exact ⟨0, fun hcandidate hne => absurd ⟨hcandidate, hne⟩ hother⟩
  choose holder hholder using hholder
  exact .intro holder hop (fun other ho hne => (hholder other ho hne).1)
    fun other ho hne => (hholder other ho hne).2

namespace Possibilities

variable {possible : Possibilities} {σ : Int → Opcode} {number : Int} {op : Opcode}

/-- The opcode is possible for the number. -/
def Allows (possible : Possibilities) (number : Int) (op : Opcode) : Prop :=
  ∃ ops, (number, ops) ∈ possible ∧ op ∈ ops

/-- What is settled holds in every assignment. -/
theorem Solves.eq_of_settled (hσ : possible.Solves σ) (h : Settled possible.Allows number op) :
    σ number = op := by
  induction h with
  | @intro number op holder hop hne hheld ih =>
    obtain ⟨ops, hmem, -⟩ := hop
    by_contra hother
    -- The opcode of the number is settled for another one, which then has the same opcode.
    have hallows : possible.Allows number (σ number) := ⟨ops, hmem, hσ.mem hmem⟩
    obtain ⟨ops', hmem', -⟩ := (hheld _ hallows hother).candidate
    exact hne _ hallows hother (hσ.injective hmem' hmem (ih _ hallows hother))

/-! ## One round -/

theorem settled_of_solved (hreg : possible.Regular) (h : (number, op) ∈ possible.solved) :
    Settled possible.Allows number op := by
  have hmem := mem_solved_iff.1 h
  refine .of_exists ⟨_, hmem, List.mem_singleton_self op⟩ ?_
  rintro other ⟨ops, hops, hother⟩ hne
  rw [hreg.eq_of_number hops hmem, List.mem_singleton] at hother
  exact absurd hother hne

theorem strike_allows_iff : possible.strike.Allows number op ↔
    (∃ all, (number, all) ∈ possible ∧ all.length ≠ 1 ∧ op ∈ all) ∧
      ∀ m, (m, op) ∉ possible.solved := by
  constructor
  · rintro ⟨ops, hmem, hop⟩
    obtain ⟨all, hall, hlen, rfl⟩ := mem_strike_iff.1 hmem
    obtain ⟨hop, hfree⟩ := List.mem_filter.1 hop
    exact ⟨⟨all, hall, hlen, hop⟩, not_taken_iff.1 hfree⟩
  · rintro ⟨⟨all, hall, hlen, hop⟩, hfree⟩
    exact ⟨_, mem_strike_iff.2 ⟨all, hall, hlen, rfl⟩,
      List.mem_filter.2 ⟨hop, not_taken_iff.2 hfree⟩⟩

theorem allows_of_strike (h : possible.strike.Allows number op) : possible.Allows number op := by
  obtain ⟨⟨all, hall, -, hop⟩, -⟩ := strike_allows_iff.1 h
  exact ⟨all, hall, hop⟩

/-- A candidate of a number that is not solved goes on to the next round unless it is taken. -/
theorem strike_allows_of_not_solved (h : possible.Allows number op)
    (hnumber : ∀ other, (number, other) ∉ possible.solved)
    (hfree : ∀ m, (m, op) ∉ possible.solved) : possible.strike.Allows number op := by
  obtain ⟨all, hall, hop⟩ := h
  refine strike_allows_iff.2 ⟨⟨all, hall, fun hlen => ?_, hop⟩, hfree⟩
  obtain ⟨other, rfl⟩ := List.length_eq_one_iff.1 hlen
  exact hnumber other (mem_solved_iff.2 hall)

theorem not_solved_of_strike (hreg : possible.Regular) (h : possible.strike.Allows number op)
    (m : Int) (other : Opcode) (hm : (m, other) ∈ possible.solved) : m ≠ number := by
  obtain ⟨ops, hmem, -⟩ := h
  exact (hreg.ne_of_solved hm hmem).symm

/-- What is settled is solved in the round or settled in what it leaves. -/
theorem settled_iff_strike (hreg : possible.Regular) (hσ : possible.Solves σ) :
    Settled possible.Allows number op ↔
      (number, op) ∈ possible.solved ∨ Settled possible.strike.Allows number op := by
  constructor
  · intro h
    induction h with
    | @intro number op holder hop hne hheld ih =>
      have hnumber : σ number = op := hσ.eq_of_settled (.intro holder hop hne hheld)
      by_cases hsolved : ∃ other, (number, other) ∈ possible.solved
      · obtain ⟨other, hother⟩ := hsolved
        rw [hσ.eq_of_solved hother] at hnumber
        exact .inl (hnumber ▸ hother)
      · refine .inr (.of_exists ?_ fun other hother hdiffers => ?_)
        · -- A number that took the opcode would be this one.
          refine strike_allows_of_not_solved hop (fun other ho => hsolved ⟨other, ho⟩) ?_
          intro m hm
          obtain ⟨ops, hmem, -⟩ := hop
          have heq := hσ.injective (mem_solved_iff.1 hm) hmem
            ((hσ.eq_of_solved hm).trans hnumber.symm)
          exact hsolved ⟨op, heq ▸ hm⟩
        · have hallows := allows_of_strike hother
          refine ⟨holder other, hne other hallows hdiffers, ?_⟩
          exact (ih other hallows hdiffers).resolve_left ((strike_allows_iff.1 hother).2 _)
  · rintro (h | h)
    · exact settled_of_solved hreg h
    · induction h with
      | @intro number op holder hop hne _ ih =>
        refine .of_exists (allows_of_strike hop) fun other hother hdiffers => ?_
        by_cases htaken : ∃ m, (m, other) ∈ possible.solved
        · obtain ⟨m, hm⟩ := htaken
          exact ⟨m, not_solved_of_strike hreg hop m other hm, settled_of_solved hreg hm⟩
        · have hnumber : ∀ o, (number, o) ∉ possible.solved := fun o ho =>
            not_solved_of_strike hreg hop number o ho rfl
          have hstrike := strike_allows_of_not_solved hother hnumber fun m hm => htaken ⟨m, hm⟩
          exact ⟨holder other, hne other hstrike hdiffers, ih other hstrike hdiffers⟩

/-- A round keeps what is unsettled. -/
theorem unsettled_iff_strike (hreg : possible.Regular) (hσ : possible.Solves σ) :
    Unsettled possible.Allows number op ↔ Unsettled possible.strike.Allows number op := by
  constructor
  · rintro ⟨hop, hunsettled⟩
    have hfree : ∀ m, (m, op) ∉ possible.solved := fun m hm =>
      hunsettled m (settled_of_solved hreg hm)
    refine ⟨strike_allows_of_not_solved hop (fun other hother => ?_) hfree, fun m hm =>
      hunsettled m ((settled_iff_strike hreg hσ).2 (.inr hm))⟩
    -- A solved number has no other candidate.
    obtain ⟨ops, hmem, hin⟩ := hop
    rw [hreg.eq_of_number hmem (mem_solved_iff.1 hother), List.mem_singleton] at hin
    exact hfree number (hin ▸ hother)
  · rintro ⟨hop, hunsettled⟩
    refine ⟨allows_of_strike hop, fun m hm => ?_⟩
    rcases (settled_iff_strike hreg hσ).1 hm with hsolved | hsettled
    · exact (strike_allows_iff.1 hop).2 m hsolved
    · exact hunsettled m hsettled

/-! ## Stuck rounds -/

theorem length_ne_one_of_stuck {ops : List Opcode} (hsolved : possible.solved = [])
    (h : (number, ops) ∈ possible) : ops.length ≠ 1 := by
  intro hlen
  obtain ⟨op, rfl⟩ := List.length_eq_one_iff.1 hlen
  simpa [hsolved] using mem_solved_iff.2 h

/-- Where no number is solved, nothing is settled. -/
theorem not_settled_of_stuck (hreg : possible.Regular) (hsolved : possible.solved = []) :
    ¬ Settled possible.Allows number op := by
  intro h
  induction h with
  | @intro number op holder hop _ _ ih =>
    obtain ⟨ops, hmem, hin⟩ := hop
    have hlen := length_ne_one_of_stuck hsolved hmem
    obtain ⟨other, hother, hne⟩ := exists_ne_mem (hreg.opcodes_nodup hmem) hlen hin
    exact ih other ⟨ops, hmem, hother⟩ hne

/-- The numbers of a stuck round have two unsettled candidates each. -/
theorem mem_stuck_iff (hreg : possible.Regular) (hσ : possible.Solves σ)
    (hsolved : possible.solved = []) : number ∈ possible.map (·.1) ↔
      ∃ op other, op ≠ other ∧ Unsettled possible.Allows number op ∧
        Unsettled possible.Allows number other := by
  constructor
  · intro h
    obtain ⟨⟨_, ops⟩, hmem, rfl⟩ := List.mem_map.1 h
    have hlen := length_ne_one_of_stuck hsolved hmem
    obtain ⟨other, hother, hne⟩ := exists_ne_mem (hreg.opcodes_nodup hmem) hlen (hσ.mem hmem)
    exact ⟨_, other, hne.symm,
      ⟨⟨ops, hmem, hσ.mem hmem⟩, fun m => not_settled_of_stuck hreg hsolved⟩,
      ⟨⟨ops, hmem, hother⟩, fun m => not_settled_of_stuck hreg hsolved⟩⟩
  · rintro ⟨op, -, -, ⟨⟨ops, hmem, -⟩, -⟩, -⟩
    exact List.mem_map.2 ⟨_, hmem, rfl⟩

/-! ## All rounds -/

/-- The numbers that elimination names stay in their order. -/
theorem sublist_of_eliminate_unresolved {numbers : List Int}
    (h : possible.eliminate = .error (.unresolved numbers)) :
    numbers.Sublist (possible.map (·.1)) := by
  fun_induction eliminate possible with
  | case1 => cases h
  | case2 => cases h
  | case3 possible =>
    by_cases hwritable : (Fault.unresolved (possible.map (·.1))).Writable
    · rw [Fault.raised_of_writable hwritable] at h
      cases h
      exact .refl _
    · rw [Fault.raised_of_not_writable hwritable] at h
      cases h
  | case4 => cases h
  | case5 => cases h
  | case6 possible _ _ _ fault herror ih =>
    cases h
    exact (ih herror).trans possible.strike_numbers_sublist

/-- Where there is an assignment elimination fails for the numbers with two unsettled candidates
only, taken in their order. -/
theorem unresolved_of_eliminate_error {fault : Fault} (hreg : possible.Regular)
    (hσ : possible.Solves σ) (h : possible.eliminate = .error fault) :
    ∃ numbers, fault = (Fault.unresolved numbers).raised ∧ numbers ≠ [] ∧
      numbers.Sublist (possible.map (·.1)) ∧
      ∀ number, number ∈ numbers ↔ ∃ op other, op ≠ other ∧
        Unsettled possible.Allows number op ∧ Unsettled possible.Allows number other := by
  fun_induction eliminate possible with
  | case1 => cases h
  | case2 possible _ _ hany => exact absurd hany hσ.not_any_isEmpty
  | case3 possible hempty hsolved hany =>
    cases h
    exact ⟨_, rfl, by simpa using hempty, .refl _, fun number =>
      mem_stuck_iff hreg hσ (List.isEmpty_iff.1 hsolved)⟩
  | case4 possible _ _ hshared => exact absurd hshared (hσ.not_shared hreg)
  | case5 => cases h
  | case6 possible hempty hsolved hshared _ herror ih =>
    cases h
    have hopcodes := hσ.solved_opcodes_nodup hreg
    obtain ⟨numbers, hfault, hne, hsub, hiff⟩ :=
      ih hreg.strike ((solves_iff_strike hreg hopcodes).1 hσ).2 herror
    refine ⟨numbers, hfault, hne, hsub.trans possible.strike_numbers_sublist, fun number => ?_⟩
    simp only [hiff, unsettled_iff_strike hreg hσ]

/-- Elimination that comes to an end leaves nothing unsettled. -/
theorem not_unsettled_of_eliminate_ok {numbering : Numbering} (hreg : possible.Regular)
    (hσ : possible.Solves σ) (h : possible.eliminate = .ok numbering) :
    ¬ Unsettled possible.Allows number op := by
  fun_induction eliminate possible generalizing numbering with
  | case1 possible hempty =>
    obtain rfl := List.isEmpty_iff.1 hempty
    rintro ⟨⟨ops, hmem, -⟩, -⟩
    simp at hmem
  | case2 => cases h
  | case3 => cases h
  | case4 => cases h
  | case5 possible hempty hsolved hshared rest hrest ih =>
    have hopcodes := hσ.solved_opcodes_nodup hreg
    rw [unsettled_iff_strike hreg hσ]
    exact ih hreg.strike ((solves_iff_strike hreg hopcodes).1 hσ).2 hrest
  | case6 => cases h

end Possibilities

end WordMachine

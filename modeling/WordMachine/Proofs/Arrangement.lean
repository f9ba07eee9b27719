import WordMachine.Proofs.Truthful

/-!
# The order of samples

Samples are told apart by their elements only: a list with the same ones, in another order or with
repetitions, leaves the same candidates for the same numbers. These may be kept in any order too.
Two arrangements of the same possibilities go through the same rounds of elimination: each round
solves the same numbers, by the same opcodes, and leaves arrangements of the same possibilities. So
elimination ends at the same exit, with the same numbers in some order, and in ascending order they
are equal.
-/

namespace WordMachine

namespace Possibilities

variable {p q : Possibilities}

/-! ## Arrangements -/

/-- Every number has the same opcodes in `q` as in `p`. -/
def Inside (p q : Possibilities) : Prop :=
  ∀ ⦃number ops⦄, (number, ops) ∈ p → ∃ ops', (number, ops') ∈ q ∧ ops'.Perm ops

/-- The same numbers with the same opcodes, all of them in any order. -/
structure Rearranges (p q : Possibilities) : Prop where
  regular_left : p.Regular
  regular_right : q.Regular
  inside : p.Inside q
  covers : q.Inside p

theorem Rearranges.symm (h : Rearranges p q) : Rearranges q p :=
  ⟨h.regular_right, h.regular_left, h.covers, h.inside⟩

theorem Inside.mem_solved (h : p.Inside q) {number : Int} {op : Opcode}
    (hmem : (number, op) ∈ p.solved) : (number, op) ∈ q.solved := by
  obtain ⟨ops, hops, hperm⟩ := h (mem_solved_iff.1 hmem)
  rw [List.perm_singleton.1 hperm] at hops
  exact mem_solved_iff.2 hops

theorem Inside.mem_numbers (h : p.Inside q) {number : Int} (hmem : number ∈ p.map (·.1)) :
    number ∈ q.map (·.1) := by
  obtain ⟨⟨_, ops⟩, he, rfl⟩ := List.mem_map.1 hmem
  obtain ⟨ops', hops, -⟩ := h he
  exact List.mem_map.2 ⟨_, hops, rfl⟩

theorem Inside.any_isEmpty (h : p.Inside q)
    (hany : (p.any fun (_, ops) => ops.isEmpty) = true) :
    (q.any fun (_, ops) => ops.isEmpty) = true := by
  obtain ⟨⟨number, ops⟩, hmem, hops⟩ := List.any_eq_true.1 hany
  obtain rfl := List.isEmpty_iff.1 hops
  obtain ⟨ops', hmem', hperm⟩ := h hmem
  obtain rfl := List.perm_nil.1 hperm
  exact List.any_eq_true.2 ⟨_, hmem', rfl⟩

/-! ## One round -/

/-- A round solves the same numbers by the same opcodes. -/
theorem Rearranges.solved_perm (h : Rearranges p q) : p.solved.Perm q.solved := by
  refine (List.perm_ext_iff_of_nodup (.of_map _ h.regular_left.solved_numbers_nodup)
    (.of_map _ h.regular_right.solved_numbers_nodup)).2 fun e => ?_
  exact ⟨h.inside.mem_solved, h.covers.mem_solved⟩

theorem Rearranges.numbers_perm (h : Rearranges p q) : (p.map (·.1)).Perm (q.map (·.1)) :=
  (List.perm_ext_iff_of_nodup h.regular_left.numbers_nodup h.regular_right.numbers_nodup).2
    fun _ => ⟨h.inside.mem_numbers, h.covers.mem_numbers⟩

theorem Rearranges.isEmpty_eq (h : Rearranges p q) : p.isEmpty = q.isEmpty := by
  simpa using h.numbers_perm.isEmpty_eq

theorem Rearranges.solved_isEmpty_eq (h : Rearranges p q) :
    p.solved.isEmpty = q.solved.isEmpty :=
  h.solved_perm.isEmpty_eq

theorem Rearranges.shared_iff (h : Rearranges p q) :
    (p.solved.map (·.2)).eraseDups.length < p.solved.length ↔
      (q.solved.map (·.2)).eraseDups.length < q.solved.length := by
  have hnodup := (h.solved_perm.map (·.2)).nodup_iff
  rw [nodup_iff_length_eraseDups, nodup_iff_length_eraseDups, not_iff_not] at hnodup
  simpa only [List.length_map] using hnodup

theorem Rearranges.strike_inside (h : Rearranges p q) : p.strike.Inside q.strike := by
  intro number ops hmem
  obtain ⟨all, hall, hlen, rfl⟩ := mem_strike_iff.1 hmem
  obtain ⟨all', hall', hperm⟩ := h.inside hall
  refine ⟨_, mem_strike_iff.2 ⟨all', hall', by rwa [hperm.length_eq], rfl⟩, ?_⟩
  -- What a round strikes is the same for both.
  have htaken : ∀ op, (q.solved.map (·.2)).contains op = (p.solved.map (·.2)).contains op :=
    fun op => (h.solved_perm.symm.map _).contains_eq
  simp only [htaken]
  exact hperm.filter _

theorem Rearranges.strike (h : Rearranges p q) : Rearranges p.strike q.strike :=
  ⟨h.regular_left.strike, h.regular_right.strike, h.strike_inside, h.symm.strike_inside⟩

/-! ## All rounds -/

/-- Two outcomes of elimination are the same but for the order of the numbers. -/
inductive Agree : Except Fault Numbering → Except Fault Numbering → Prop where
  | ok {found found' : Numbering} : found.Perm found' → Agree (.ok found) (.ok found')
  | unresolved {numbers numbers' : List Int} : numbers.Perm numbers' →
      Agree (.error (Fault.unresolved numbers).raised) (.error (Fault.unresolved numbers').raised)
  | error (fault : Fault) : Agree (.error fault) (.error fault)

theorem Rearranges.agree_eliminate (h : Rearranges p q) : Agree p.eliminate q.eliminate := by
  fun_induction eliminate p generalizing q with
  | case1 p hempty =>
    rw [h.isEmpty_eq] at hempty
    rw [eliminate, if_pos hempty]
    exact .ok (.refl _)
  | case2 p hempty hsolved hany =>
    rw [h.isEmpty_eq] at hempty
    rw [h.solved_isEmpty_eq] at hsolved
    rw [eliminate, if_neg hempty, dif_pos hsolved, if_pos (h.inside.any_isEmpty hany)]
    exact .error _
  | case3 p hempty hsolved hany =>
    rw [h.isEmpty_eq] at hempty
    rw [h.solved_isEmpty_eq] at hsolved
    rw [eliminate, if_neg hempty, dif_pos hsolved,
      if_neg fun hany' => hany (h.covers.any_isEmpty hany')]
    exact .unresolved h.numbers_perm
  | case4 p hempty hsolved hshared =>
    rw [h.isEmpty_eq] at hempty
    rw [h.solved_isEmpty_eq] at hsolved
    rw [h.shared_iff] at hshared
    rw [eliminate, if_neg hempty, dif_neg hsolved, if_pos hshared]
    exact .error _
  | case5 p hempty hsolved hshared found hfound ih =>
    rw [h.isEmpty_eq] at hempty
    rw [h.solved_isEmpty_eq] at hsolved
    rw [h.shared_iff] at hshared
    have hnext := ih h.strike
    rw [hfound] at hnext
    rw [eliminate, if_neg hempty, dif_neg hsolved, if_neg hshared]
    generalize q.strike.eliminate = rest at hnext
    cases hnext with
    | ok hperm => exact .ok (h.solved_perm.append hperm)
  | case6 p hempty hsolved hshared fault hfault ih =>
    rw [h.isEmpty_eq] at hempty
    rw [h.solved_isEmpty_eq] at hsolved
    rw [h.shared_iff] at hshared
    have hnext := ih h.strike
    rw [hfault] at hnext
    rw [eliminate, if_neg hempty, dif_neg hsolved, if_neg hshared]
    generalize q.strike.eliminate = rest at hnext
    cases hnext with
    | unresolved hperm => exact .unresolved hperm
    | error => exact .error fault

/-! ## Samples -/

variable {samples samples' : List Sample}

/-- Samples with the same elements leave the same possibilities. -/
theorem Summarizes.inside (hp : Summarizes samples p) (hq : Summarizes samples' q)
    (hsame : ∀ s, s ∈ samples ↔ s ∈ samples') : p.Inside q := by
  intro number ops hmem
  have hoccurs := (hp.number_iff number).1 ⟨ops, hmem⟩
  simp only [hsame] at hoccurs
  obtain ⟨ops', hmem'⟩ := (hq.number_iff number).2 hoccurs
  refine ⟨ops', hmem', (List.perm_ext_iff_of_nodup (hq.regular.opcodes_nodup hmem')
    (hp.regular.opcodes_nodup hmem)).2 fun op => ?_⟩
  rw [hq.mem_iff hmem' op, hp.mem_iff hmem op]
  simp only [hsame]

theorem Summarizes.rearranges (hp : Summarizes samples p) (hq : Summarizes samples' q)
    (hsame : ∀ s, s ∈ samples ↔ s ∈ samples') : Rearranges p q :=
  ⟨hp.regular, hq.regular, hp.inside hq hsame, hq.inside hp fun s => (hsame s).symm⟩

end Possibilities

namespace Numbering

/-- A numbering is sorted in one way only. -/
theorem mergeSort_eq_of_perm {found found' : Numbering} (hnodup : (found.map (·.1)).Nodup)
    (hperm : found.Perm found') :
    (found.mergeSort fun x y => decide (x.1 ≤ y.1)) =
      found'.mergeSort fun x y => decide (x.1 ≤ y.1) := by
  have hnodup' : (found'.map (·.1)).Nodup := (hperm.map _).nodup_iff.1 hnodup
  have hsorted := List.pairwise_map.1 (pairwise_sorted hnodup)
  have hsorted' := List.pairwise_map.1 (pairwise_sorted hnodup')
  refine List.Perm.eq_of_pairwise (fun x y _ _ hxy hyx => ?_) hsorted hsorted' ?_
  · omega
  · exact (List.mergeSort_perm found _).trans (hperm.trans (List.mergeSort_perm found' _).symm)

/-- In ascending order the numbers that cannot be told apart make the same fault. -/
theorem raised_unresolved_congr {p q : Possibilities} {numbers numbers' : List Int}
    (hp : (p.map (·.1)).Pairwise (· < ·)) (hq : (q.map (·.1)).Pairwise (· < ·))
    (hleft : p.eliminate = .error (Fault.unresolved numbers).raised)
    (hright : q.eliminate = .error (Fault.unresolved numbers').raised)
    (hperm : numbers.Perm numbers') :
    (Fault.unresolved numbers).raised = (Fault.unresolved numbers').raised := by
  have hiff : (Fault.unresolved numbers).Writable ↔ (Fault.unresolved numbers').Writable := by
    simp only [Fault.Writable, Fault.numbers, hperm.mem_iff]
  by_cases hwritable : (Fault.unresolved numbers).Writable
  · rw [Fault.raised_of_writable hwritable] at hleft
    rw [Fault.raised_of_writable (hiff.1 hwritable)] at hright
    have hsorted := hp.sublist (Possibilities.sublist_of_eliminate_unresolved hleft)
    have hsorted' := hq.sublist (Possibilities.sublist_of_eliminate_unresolved hright)
    rw [hperm.eq_of_pairwise (fun m n _ _ hmn hnm => by omega) hsorted hsorted']
  · rw [Fault.raised_of_not_writable hwritable,
      Fault.raised_of_not_writable (mt hiff.2 hwritable)]

theorem ofSamples_congr {samples samples' : List Sample} (hformed : ∀ s ∈ samples, s.WellFormed)
    (hsame : ∀ s, s ∈ samples ↔ s ∈ samples') : ofSamples samples = ofSamples samples' := by
  have hformed' : ∀ s ∈ samples', s.WellFormed := fun s hs => hformed s ((hsame s).2 hs)
  rcases Possibilities.ofSamples_cases hformed with ⟨p, hp, hsum⟩ | ⟨s, hs, hlegible⟩
  swap
  · -- The sample that cannot be told is in both lists.
    rw [ofSamples_of_not_legible hformed ⟨s, hs, hlegible⟩,
      ofSamples_of_not_legible hformed' ⟨s, (hsame s).1 hs, hlegible⟩]
  obtain ⟨q, hq, hsum'⟩ :=
    Possibilities.exists_ofSamples fun s hs => hsum.told s ((hsame s).2 hs)
  have hagree := (hsum.rearranges hsum' hsame).agree_eliminate
  have htells := Possibilities.tells_eliminate hsum.regular
  rw [ofSamples_eq hp, ofSamples_eq hq]
  generalize hleft : p.eliminate = left at hagree htells
  generalize hright : q.eliminate = right at hagree
  cases hagree with
  | ok hperm =>
    have hnodup := htells.1.nodup_iff.2 hsum.regular.numbers_nodup
    exact congrArg Except.ok (mergeSort_eq_of_perm hnodup hperm)
  | unresolved hperm =>
    exact congrArg Except.error (raised_unresolved_congr (Possibilities.pairwise_ofSamples hp)
      (Possibilities.pairwise_ofSamples hq) hleft hright hperm)
  | error fault => rfl

/-- Whatever the order in which the possibilities are kept, elimination ends as for the samples. -/
theorem agree_ofSamples {samples samples' : List Sample}
    (hsame : ∀ s, s ∈ samples ↔ s ∈ samples') {possible : Possibilities}
    (h : Possibilities.Summarizes samples' possible) :
    Possibilities.Agree (ofSamples samples) possible.eliminate := by
  obtain ⟨p, hp, hsum⟩ :=
    Possibilities.exists_ofSamples fun s hs => h.told s ((hsame s).1 hs)
  have hagree := (hsum.rearranges h hsame).agree_eliminate
  rw [ofSamples_eq hp]
  generalize p.eliminate = left at hagree
  generalize possible.eliminate = right at hagree
  cases hagree with
  | ok hperm => exact .ok ((List.mergeSort_perm _ _).trans hperm)
  | unresolved hperm => exact .unresolved hperm
  | error fault => exact .error fault

/-- How resolving the numbers can fail. -/
theorem ofSamples_error_cases {samples : List Sample} {fault : Fault}
    (hformed : ∀ s ∈ samples, s.WellFormed) (h : ofSamples samples = .error fault) :
    ((fault = .noCandidates ∨ fault = .sharedOpcode) ∧ ¬ ∃ σ, Consistent samples σ) ∨
      (∃ numbers, fault = .unresolved numbers) ∨ fault = .unwritable := by
  rcases Possibilities.ofSamples_cases hformed with ⟨possible, hpossible, hsum⟩ | hillegible
  · rw [ofSamples_eq hpossible, Except.map_eq_error_iff] at h
    have htells := Possibilities.tells_eliminate hsum.regular
    rw [h] at htells
    rcases htells with ⟨hfault, hnone⟩ | ⟨⟨numbers, rfl⟩, -⟩
    · refine .inl ⟨hfault, ?_⟩
      rintro ⟨σ, hσ⟩
      obtain ⟨τ, hτ, -⟩ := hsum.exists_solves hσ
      exact hnone τ hτ
    · exact .inr ((ite_eq_or_eq _ _ _).imp_left fun hraised => ⟨numbers, hraised⟩)
  · rw [ofSamples_of_not_legible hformed hillegible] at h
    exact .inr (.inr (Except.error.inj h).symm)

end Numbering

/-! ## Messages -/

/-- The text says that the samples are inconsistent. -/
def SaysInconsistent (text : String) : Prop :=
  text = "Samples are inconsistent: an opcode number has no candidates" ∨
    text = "Samples are inconsistent: two numbers resolve to one opcode"

theorem SaysInconsistent.head?_toList {text : String} (h : SaysInconsistent text) :
    text.toList.head? = some 'S' := by
  rcases h with rfl | rfl <;> rfl

namespace Fault

theorem head?_message_unresolved (numbers : List Int) :
    (unresolved numbers).message.toList.head? = some 'C' := by
  have hmessage : (unresolved numbers).message =
      "Cannot resolve opcode numbers " ++ Text.bracketed numbers := rfl
  rw [hmessage, String.toList_append, List.head?_append]
  rfl

theorem head?_message_unwritable : unwritable.message.toList.head? = some 'E' := by
  show ("Exceeds the limit (" ++ _ ++ _ ++ _).toList.head? = _
  simp only [String.toList_append, List.head?_append]
  rfl

/-- Of the faults of resolving numbers, two say that the samples are inconsistent. -/
theorem saysInconsistent_iff {fault : Fault} (h : (fault = .noCandidates ∨ fault = .sharedOpcode) ∨
      (∃ numbers, fault = .unresolved numbers) ∨ fault = .unwritable) :
    SaysInconsistent fault.message ↔ fault = .noCandidates ∨ fault = .sharedOpcode := by
  rcases h with (rfl | rfl) | ⟨numbers, rfl⟩ | rfl
  · exact iff_of_true (.inl rfl) (.inl rfl)
  · exact iff_of_true (.inr rfl) (.inr rfl)
  · refine ⟨fun hsays => ?_, by simp⟩
    have hhead := hsays.head?_toList
    rw [head?_message_unresolved] at hhead
    exact absurd hhead (by decide)
  · refine ⟨fun hsays => ?_, by simp⟩
    have hhead := hsays.head?_toList
    rw [head?_message_unwritable] at hhead
    exact absurd hhead (by decide)

end Fault

/-- Neither the order of samples nor their repetition matters. Two lists with the same elements give
the same numbering, or the same fault; and so does elimination, whatever the order in which it keeps
the numbers and their opcodes. Two faults say that the samples are inconsistent, and where one of
them is raised, no assignment is consistent with the samples. -/
theorem sample_order_irrelevant {samples samples' : List Sample}
    (hformed : ∀ s ∈ samples, s.WellFormed) (hsame : ∀ s, s ∈ samples ↔ s ∈ samples') :
    ((∃ numbering, Numbering.ofSamples samples = .ok numbering ∧
      Numbering.ofSamples samples' = .ok numbering) ∨
    ∃ fault, Numbering.ofSamples samples = .error fault ∧
      Numbering.ofSamples samples' = .error fault ∧ fault.kind = .malformed) ∧
    (∀ fault, Numbering.ofSamples samples = .error fault →
      (SaysInconsistent fault.message ↔ fault = .noCandidates ∨ fault = .sharedOpcode) ∧
      (fault = .noCandidates ∨ fault = .sharedOpcode → ¬ ∃ σ, Consistent samples σ)) ∧
    ∀ possible, Possibilities.Summarizes samples' possible →
      Possibilities.Agree (Numbering.ofSamples samples) possible.eliminate := by
  refine ⟨?_, fun fault herror => ?_, fun possible h => Numbering.agree_ofSamples hsame h⟩
  · rw [← Numbering.ofSamples_congr hformed hsame]
    rcases Numbering.ofSamples_cases hformed with ⟨numbering, hok, -⟩ | ⟨fault, herror, hkind, -⟩
    · exact .inl ⟨numbering, hok, hok⟩
    · exact .inr ⟨fault, herror, herror, hkind⟩
  · have hcases := Numbering.ofSamples_error_cases hformed herror
    refine ⟨Fault.saysInconsistent_iff (hcases.imp_left And.left), fun hfault => ?_⟩
    rcases hcases with ⟨-, hnone⟩ | ⟨numbers, rfl⟩ | rfl
    · exact hnone
    · simp at hfault
    · simp at hfault

/-- Two numbers that both can only add a literal: in any order, and told three times, the samples
are found to be inconsistent. -/
theorem sample_order_irrelevant_shared_opcode :
    let first : Sample := ⟨[3, 5], ⟨4, 0, 1, 1⟩, [3, 4]⟩
    let second : Sample := ⟨[3, 5], ⟨9, 0, 1, 1⟩, [3, 4]⟩
    (∀ s ∈ [first, second], s.WellFormed) ∧
      Numbering.ofSamples [second, first, second] = .error .sharedOpcode ∧
      ¬ ∃ σ, Consistent [first, second] σ := by
  intro first second
  have hformed : ∀ s ∈ [first, second], s.WellFormed := by
    simp only [first, second, List.forall_mem_cons, List.not_mem_nil, false_imp_iff, implies_true,
      and_true]
    exact ⟨⟨by decide, by decide⟩, ⟨by decide, by decide⟩⟩
  have hsame : ∀ s, s ∈ [first, second] ↔ s ∈ [second, first, second] := by
    intro s
    simp only [List.mem_cons, List.not_mem_nil, or_false]
    tauto
  have herror : Numbering.ofSamples [first, second] = .error .sharedOpcode := by cbv
  obtain ⟨hcases, hnone, -⟩ := sample_order_irrelevant hformed hsame
  refine ⟨hformed, ?_, (hnone _ herror).2 (.inr rfl)⟩
  rcases hcases with ⟨numbering, hok, -⟩ | ⟨fault, herror', hother, -⟩
  · rw [herror] at hok
    cases hok
  · rw [herror] at herror'
    cases herror'
    exact hother

end WordMachine

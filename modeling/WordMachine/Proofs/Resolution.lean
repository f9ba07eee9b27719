import Mathlib
import WordMachine.Proofs.Candidates
import WordMachine.Proofs.Elimination

/-!
# Uniquely determined numberings

`Consistent samples σ`: `σ` gives a base opcode to every number that occurs in the samples and to
no other, no two numbers the same, and the opcode of each number explains every sample of it.
Elimination finds the consistent assignment if there is exactly one, and fails otherwise. A sample
whose candidates cannot be told is explained by no opcode, so with such a sample among them there is
no consistent assignment, and there is nothing to eliminate.
-/

namespace WordMachine

structure Consistent (samples : List Sample) (σ : Int → Option Opcode) : Prop where
  domain : ∀ number, (σ number).isSome = true ↔ ∃ s ∈ samples, s.row.number = number
  base : ∀ ⦃number op⦄, σ number = some op → op ∈ Opcode.base
  injective : ∀ ⦃m n op⦄, σ m = some op → σ n = some op → m = n
  explains : ∀ ⦃s op⦄, s ∈ samples → σ s.row.number = some op →
    ∃ ops, s.candidates = .ok ops ∧ op ∈ ops

/-! ## What is possible at first -/

namespace Possibilities

/-- The possibilities that the samples leave, read off their candidates. -/
structure Summarizes (samples : List Sample) (possible : Possibilities) : Prop where
  told : ∀ s ∈ samples, ∃ ops, s.candidates = .ok ops
  regular : possible.Regular
  number_iff : ∀ number, (∃ ops, (number, ops) ∈ possible) ↔ ∃ s ∈ samples, s.row.number = number
  mem_iff : ∀ ⦃number ops⦄, (number, ops) ∈ possible → ∀ op, op ∈ ops ↔
    op ∈ Opcode.base ∧ ∀ s ∈ samples, s.row.number = number →
      ∃ all, s.candidates = .ok all ∧ op ∈ all

theorem mem_surviving_iff {observations : List (Int × List Opcode)} {number : Int} {op : Opcode} :
    op ∈ surviving observations number ↔
      op ∈ Opcode.base ∧ ∀ ops, (number, ops) ∈ observations → op ∈ ops := by
  rw [surviving, List.mem_filter, List.all_eq_true]
  refine and_congr_right fun _ => ⟨fun h ops hmem => ?_, fun h e hmem => ?_⟩
  · simpa using h _ hmem
  · obtain ⟨m, ops⟩ := e
    by_cases hm : m = number
    · subst hm
      simpa using h ops hmem
    · simp [hm]

theorem mem_numbers_iff {observations : List (Int × List Opcode)} {number : Int} :
    number ∈ numbers observations ↔ ∃ ops, (number, ops) ∈ observations := by
  simp [numbers]

theorem nodup_numbers (observations : List (Int × List Opcode)) :
    (numbers observations).Nodup :=
  (List.mergeSort_perm _ _).nodup_iff.2 (nodup_eraseDups _)

theorem nodup_base : Opcode.base.Nodup := by decide

theorem exists_ofSamples {samples : List Sample}
    (h : ∀ s ∈ samples, ∃ ops, s.candidates = .ok ops) :
    ∃ possible, ofSamples samples = .ok possible ∧ Summarizes samples possible := by
  obtain ⟨observations, hobs⟩ := Except.exists_mapM_eq_ok_iff
    (f := fun s : Sample => s.candidates.map fun ops => (s.row.number, ops)) (l := samples) |>.2
    fun s hs => by
      obtain ⟨ops, hops⟩ := h s hs
      exact ⟨_, Except.map_eq_ok_iff.2 ⟨ops, hops, rfl⟩⟩
  have hmem : ∀ {number ops}, (number, ops) ∈ observations ↔
      ∃ s ∈ samples, s.candidates = .ok ops ∧ s.row.number = number := by
    intro number ops
    rw [Except.mem_iff_of_mapM_eq_ok hobs]
    simp [Except.map_eq_ok_iff]
  refine ⟨_, Except.bind_eq_ok_iff.2 ⟨observations, hobs, rfl⟩, h, ⟨?_, ?_⟩, ?_, ?_⟩
  · simpa [Function.comp_def] using nodup_numbers observations
  · intro number ops hin
    obtain ⟨_, -, heq⟩ := List.mem_map.1 hin
    cases heq
    exact nodup_base.filter _
  · intro number
    constructor
    · rintro ⟨ops, hin⟩
      obtain ⟨_, hnumber, heq⟩ := List.mem_map.1 hin
      cases heq
      obtain ⟨ops, hops⟩ := mem_numbers_iff.1 hnumber
      obtain ⟨s, hs, -, hrow⟩ := hmem.1 hops
      exact ⟨s, hs, hrow⟩
    · rintro ⟨s, hs, hrow⟩
      obtain ⟨ops, hops⟩ := h s hs
      exact ⟨_, List.mem_map.2 ⟨number, mem_numbers_iff.2 ⟨ops, hmem.2 ⟨s, hs, hops, hrow⟩⟩, rfl⟩⟩
  · intro number ops hin op
    obtain ⟨_, -, heq⟩ := List.mem_map.1 hin
    cases heq
    rw [mem_surviving_iff]
    refine and_congr_right fun _ => ⟨fun hall s hs hrow => ?_, fun hall ops hops => ?_⟩
    · obtain ⟨ops, hops⟩ := h s hs
      exact ⟨ops, hops, hall ops (hmem.2 ⟨s, hs, hops, hrow⟩)⟩
    · obtain ⟨s, hs, hcand, hrow⟩ := hmem.1 hops
      obtain ⟨all, hcand', hop⟩ := hall s hs hrow
      rw [hcand] at hcand'
      cases hcand'
      exact hop

/-- A sample that cannot be told is one too many, whatever the others are. -/
theorem ofSamples_of_not_legible {samples : List Sample} (hformed : ∀ s ∈ samples, s.WellFormed)
    (h : ∃ s ∈ samples, ¬ s.Legible) : ofSamples samples = .error .unwritable := by
  refine Except.bind_eq_error_iff.2 (.inl (Except.mapM_eq_error (fun s hs fault hfault => ?_) ?_))
  · by_cases hlegible : s.Legible
    · obtain ⟨ops, hops⟩ := Sample.exists_candidates (hformed s hs) hlegible
      rw [hops] at hfault
      cases hfault
    · rw [Sample.candidates_of_not_legible (hformed s hs) hlegible] at hfault
      cases hfault
      rfl
  · obtain ⟨s, hs, hlegible⟩ := h
    refine ⟨s, hs, ?_⟩
    rw [Sample.candidates_of_not_legible (hformed s hs) hlegible]
    rfl

/-- There are possibilities to begin with, or there is a sample that cannot be told. -/
theorem ofSamples_cases {samples : List Sample} (hformed : ∀ s ∈ samples, s.WellFormed) :
    (∃ possible, ofSamples samples = .ok possible ∧ Summarizes samples possible) ∨
      ∃ s ∈ samples, ¬ s.Legible := by
  refine or_iff_not_imp_right.2 fun hnone => exists_ofSamples fun s hs => ?_
  have hlegible : s.Legible := by_contra fun hs' => hnone ⟨s, hs, hs'⟩
  exact Sample.exists_candidates (hformed s hs) hlegible

end Possibilities

/-! ## Assignments of the samples -/

/-- An assignment on the numbers that occur only. -/
def restrict (samples : List Sample) (σ : Int → Option Opcode) (number : Int) : Option Opcode :=
  if ∃ s ∈ samples, s.row.number = number then σ number else none

theorem restrict_eq_some_iff {samples : List Sample} {σ : Int → Option Opcode} {number : Int}
    {op : Opcode} : restrict samples σ number = some op ↔
      (∃ s ∈ samples, s.row.number = number) ∧ σ number = some op := by
  unfold restrict
  split <;> simp_all

namespace Possibilities

theorem Summarizes.consistent_restrict {samples : List Sample} {possible : Possibilities}
    (h : Summarizes samples possible) {τ : Int → Opcode} (hτ : possible.Solves τ) :
    Consistent samples (restrict samples fun number => some (τ number)) := by
  -- The opcode of a number that occurs is among those that are possible for it.
  have hmem : ∀ {number op}, restrict samples (fun number => some (τ number)) number = some op →
      τ number = op ∧ ∃ ops, (number, ops) ∈ possible ∧ op ∈ ops := by
    intro number op heq
    obtain ⟨hoccurs, hop⟩ := restrict_eq_some_iff.1 heq
    cases hop
    obtain ⟨ops, hin⟩ := (h.number_iff number).2 hoccurs
    exact ⟨rfl, ops, hin, hτ.mem hin⟩
  refine ⟨fun number => ?_, ?_, ?_, ?_⟩
  · simp [restrict]
  · intro number op heq
    obtain ⟨-, ops, hin, hop⟩ := hmem heq
    exact ((h.mem_iff hin op).1 hop).1
  · intro m n op hm hn
    obtain ⟨hτm, ops, hin, -⟩ := hmem hm
    obtain ⟨hτn, ops', hin', -⟩ := hmem hn
    exact hτ.injective hin hin' (hτm.trans hτn.symm)
  · intro s op hs heq
    obtain ⟨-, ops, hin, hop⟩ := hmem heq
    exact ((h.mem_iff hin op).1 hop).2 s hs rfl

/-- Every consistent assignment comes from one that solves the possibilities. -/
theorem Summarizes.exists_solves {samples : List Sample} {possible : Possibilities}
    (h : Summarizes samples possible) {σ : Int → Option Opcode} (hσ : Consistent samples σ) :
    ∃ τ, possible.Solves τ ∧ σ = restrict samples fun number => some (τ number) := by
  have hsome : ∀ {number}, (∃ s ∈ samples, s.row.number = number) →
      σ number = some ((σ number).getD .addr) := by
    intro number hoccurs
    obtain ⟨op, hop⟩ := Option.isSome_iff_exists.1 ((hσ.domain number).2 hoccurs)
    rw [hop, Option.getD_some]
  refine ⟨fun number => (σ number).getD .addr, ⟨?_, ?_⟩, funext fun number => ?_⟩
  · intro number ops hin
    have hnumber := hsome ((h.number_iff number).1 ⟨ops, hin⟩)
    refine (h.mem_iff hin _).2 ⟨hσ.base hnumber, fun s hs hrow => ?_⟩
    exact hσ.explains hs (hrow ▸ hnumber)
  · intro m ops n ops' hm hn heq
    have hm' := hsome ((h.number_iff m).1 ⟨ops, hm⟩)
    have hn' := hsome ((h.number_iff n).1 ⟨ops', hn⟩)
    exact hσ.injective hm' (heq ▸ hn')
  · by_cases hoccurs : ∃ s ∈ samples, s.row.number = number
    · rw [restrict, if_pos hoccurs, ← hsome hoccurs]
    · rw [restrict, if_neg hoccurs, ← Option.not_isSome_iff_eq_none, hσ.domain]
      exact hoccurs

end Possibilities

/-- An assignment is consistent with samples that can be told only. -/
theorem Consistent.legible {samples : List Sample} {σ : Int → Option Opcode} {s : Sample}
    (h : Consistent samples σ) (hformed : s.WellFormed) (hs : s ∈ samples) : s.Legible := by
  by_contra hlegible
  obtain ⟨op, hop⟩ := Option.isSome_iff_exists.1 ((h.domain s.row.number).2 ⟨s, hs, rfl⟩)
  obtain ⟨ops, hops, -⟩ := h.explains hs hop
  rw [Sample.candidates_of_not_legible hformed hlegible] at hops
  cases hops

/-! ## Outcomes -/

/-- Sorting by a key puts the keys in ascending order. -/
theorem pairwise_mergeSort_key {α : Type} (key : α → Int) (l : List α) :
    (l.mergeSort fun x y => decide (key x ≤ key y)).Pairwise fun x y => key x ≤ key y := by
  refine (List.pairwise_mergeSort ?_ ?_ l).imp (by simp)
  · intro x y z hxy hyz
    simp only [decide_eq_true_eq] at hxy hyz ⊢
    omega
  · intro x y
    simp only [Bool.or_eq_true, decide_eq_true_eq]
    omega

theorem lookup_eq_some_iff_mem {numbering : Numbering} (h : (numbering.map (·.1)).Nodup)
    {number : Int} {op : Opcode} :
    numbering.lookup number = some op ↔ (number, op) ∈ numbering := by
  induction numbering with
  | nil => simp
  | cons e numbering ih =>
    obtain ⟨m, op'⟩ := e
    obtain ⟨hm, htail⟩ := List.nodup_cons.1 h
    by_cases heq : number = m
    · subst heq
      have hnot : (number, op) ∉ numbering := fun hin => hm (List.mem_map.2 ⟨_, hin, rfl⟩)
      simp [hnot, eq_comm]
    · have hbeq : (number == m) = false := by simpa using heq
      simp [List.lookup_cons, hbeq, heq, ih htail]

namespace Possibilities

/-- A numbering that elimination finds is the one consistent assignment. -/
theorem Summarizes.consistent_iff {samples : List Sample} {possible : Possibilities}
    {numbering : Numbering} (h : Summarizes samples possible)
    (htells : possible.Tells (.ok numbering)) {σ : Int → Option Opcode} :
    Consistent samples σ ↔ σ = fun number => numbering.lookup number := by
  obtain ⟨hperm, hsolves⟩ := htells
  have hnodup : (numbering.map (·.1)).Nodup := hperm.nodup_iff.2 h.regular.numbers_nodup
  have hoccurs : ∀ {number}, (∃ s ∈ samples, s.row.number = number) ↔
      ∃ op, (number, op) ∈ numbering := by
    intro number
    have hkeys := hperm.mem_iff (a := number)
    simp only [List.mem_map, Prod.exists, exists_and_right, exists_eq_right] at hkeys
    rw [← h.number_iff, hkeys]
  have hunique : ∀ {σ}, Consistent samples σ → σ = fun number => numbering.lookup number := by
    intro σ hσ
    obtain ⟨τ, hτ, rfl⟩ := h.exists_solves hσ
    have hτ' := (hsolves τ).1 hτ
    funext number
    ext op
    rw [restrict_eq_some_iff, lookup_eq_some_iff_mem hnodup, hoccurs]
    grind
  refine ⟨hunique, ?_⟩
  rintro rfl
  have hτ : possible.Solves fun number => (numbering.lookup number).getD .addr := by
    refine (hsolves _).2 fun number op hin => ?_
    rw [(lookup_eq_some_iff_mem hnodup).2 hin, Option.getD_some]
  have hconsistent := h.consistent_restrict hτ
  rwa [hunique hconsistent] at hconsistent

/-- Where elimination fails, there is no consistent assignment or more than one. -/
theorem Summarizes.of_tells_error {samples : List Sample} {possible : Possibilities}
    {fault : Fault} (h : Summarizes samples possible) (htells : possible.Tells (.error fault)) :
    fault.kind = .malformed ∧ ((¬ ∃ σ, Consistent samples σ) ∨
      ∃ σ τ, Consistent samples σ ∧ Consistent samples τ ∧ σ ≠ τ) := by
  rcases htells with ⟨hfault, hnone⟩ | ⟨⟨numbers, rfl⟩, hother⟩
  · refine ⟨by rcases hfault with rfl | rfl <;> rfl, .inl ?_⟩
    rintro ⟨σ, hσ⟩
    obtain ⟨τ, hτ, -⟩ := h.exists_solves hσ
    exact hnone τ hτ
  · refine ⟨Fault.kind_raised rfl, or_iff_not_imp_left.2 fun hsome => ?_⟩
    obtain ⟨σ, hσ⟩ := not_not.1 hsome
    obtain ⟨τ, hτ, rfl⟩ := h.exists_solves hσ
    obtain ⟨τ', hτ', number, ops, hin, hne⟩ := hother τ hτ
    refine ⟨_, _, hσ, h.consistent_restrict hτ', fun heq => hne ?_⟩
    have hoccurs := (h.number_iff number).1 ⟨ops, hin⟩
    have hnumber := congrFun heq number
    simp only [restrict, if_pos hoccurs] at hnumber
    exact (Option.some.inj hnumber).symm

end Possibilities

namespace Numbering

theorem ofSamples_eq {samples : List Sample} {possible : Possibilities}
    (h : Possibilities.ofSamples samples = .ok possible) :
    ofSamples samples =
      possible.eliminate.map (·.mergeSort fun x y => decide (x.1 ≤ y.1)) := by
  rw [ofSamples, h]
  cases heq : possible.eliminate <;> simp [bind, Except.bind, pure, Except.pure, Except.map, heq]

theorem ofSamples_of_not_legible {samples : List Sample} (hformed : ∀ s ∈ samples, s.WellFormed)
    (h : ∃ s ∈ samples, ¬ s.Legible) : ofSamples samples = .error .unwritable := by
  rw [ofSamples, Possibilities.ofSamples_of_not_legible hformed h]
  rfl

theorem pairwise_sorted {numbering : Numbering} (h : (numbering.map (·.1)).Nodup) :
    ((numbering.mergeSort fun x y => decide (x.1 ≤ y.1)).map (·.1)).Pairwise (· < ·) := by
  have hperm := List.mergeSort_perm numbering fun x y => decide (x.1 ≤ y.1)
  have hnodup := ((hperm.map (·.1)).nodup_iff).2 h
  have hle := List.pairwise_map.2 (pairwise_mergeSort_key Prod.fst numbering)
  exact (hle.and hnodup).imp fun h => by omega

/-- The samples give a numbering that is the only consistent assignment, or there is no such
assignment. -/
theorem ofSamples_cases {samples : List Sample} (h : ∀ s ∈ samples, s.WellFormed) :
    (∃ numbering, ofSamples samples = .ok numbering ∧ (numbering.map (·.1)).Pairwise (· < ·) ∧
      ∀ σ, Consistent samples σ ↔ σ = fun number => numbering.lookup number) ∨
    (∃ fault, ofSamples samples = .error fault ∧ fault.kind = .malformed ∧
      ((¬ ∃ σ, Consistent samples σ) ∨
        ∃ σ τ, Consistent samples σ ∧ Consistent samples τ ∧ σ ≠ τ)) := by
  rcases Possibilities.ofSamples_cases h with ⟨possible, hpossible, hsum⟩ | ⟨s, hs, hlegible⟩
  · have htells := Possibilities.tells_eliminate hsum.regular
    rw [ofSamples_eq hpossible]
    cases hresult : possible.eliminate with
    | ok numbering =>
      rw [hresult] at htells
      have hnodup := htells.1.nodup_iff.2 hsum.regular.numbers_nodup
      exact .inl ⟨_, rfl, pairwise_sorted hnodup,
        fun σ => hsum.consistent_iff (htells.perm (List.mergeSort_perm _ _))⟩
    | error fault =>
      rw [hresult] at htells
      exact .inr ⟨fault, rfl, hsum.of_tells_error htells⟩
  · exact .inr ⟨_, ofSamples_of_not_legible h ⟨s, hs, hlegible⟩, rfl,
      .inl fun ⟨σ, hσ⟩ => hlegible (hσ.legible (h s hs) hs)⟩

end Numbering

/-- Elimination succeeds exactly on samples that determine the opcode of each number, and then it
gives these; it never takes more rounds than there are numbers. -/
theorem ofSamples_ok_iff_existsUnique {samples : List Sample} (h : ∀ s ∈ samples, s.WellFormed) :
    ((∃ numbering, Numbering.ofSamples samples = .ok numbering) ↔ ∃! σ, Consistent samples σ) ∧
    (∀ numbering, Numbering.ofSamples samples = .ok numbering →
      Consistent samples (fun number => numbering.lookup number) ∧
      (numbering.map (·.1)).Pairwise (· < ·)) ∧
    ((∃ fault, Numbering.ofSamples samples = .error fault ∧ fault.kind = .malformed) ↔
      (¬ ∃ σ, Consistent samples σ) ∨
        ∃ σ τ, Consistent samples σ ∧ Consistent samples τ ∧ σ ≠ τ) ∧
    ∀ possible : Possibilities, ∃ rounds ≤ possible.length,
      (Possibilities.strike^[rounds] possible).solved = [] := by
  refine ⟨?_, ?_, ?_, Possibilities.exists_stuck_round⟩
  all_goals rcases Numbering.ofSamples_cases h with
    ⟨numbering, hok, hsorted, hiff⟩ | ⟨fault, herror, hkind, hnot⟩
  · have hunique : ∃! σ, Consistent samples σ := ⟨_, (hiff _).2 rfl, fun σ => (hiff σ).1⟩
    exact ⟨fun _ => hunique, fun _ => ⟨numbering, hok⟩⟩
  · refine ⟨fun ⟨numbering, hok⟩ => by simp [hok] at herror, fun hunique => ?_⟩
    rcases hnot with hnone | ⟨σ, τ, hσ, hτ, hne⟩
    · exact absurd hunique.exists hnone
    · exact absurd (hunique.unique hσ hτ) hne
  · intro numbering' hok'
    obtain rfl := Except.ok.inj (hok.symm.trans hok')
    exact ⟨(hiff _).2 rfl, hsorted⟩
  · intro numbering hok
    simp [hok] at herror
  · refine ⟨fun ⟨fault, herror, _⟩ => by simp [hok] at herror, ?_⟩
    rintro (hnone | ⟨σ, τ, hσ, hτ, hne⟩)
    · exact absurd ⟨_, (hiff _).2 rfl⟩ hnone
    · exact absurd (((hiff σ).1 hσ).trans ((hiff τ).1 hτ).symm) hne
  · exact ⟨fun _ => hnot, fun _ => ⟨fault, herror, hkind⟩⟩

/-- Two samples that take two rounds: number 4 may add a register or a literal, until number 9 is
found to add a literal. -/
theorem ofSamples_ok_iff_existsUnique_two_rounds :
    let samples : List Sample :=
      [⟨[3, 1], ⟨4, 0, 1, 1⟩, [3, 4]⟩, ⟨[3, 5], ⟨9, 0, 1, 1⟩, [3, 4]⟩]
    (∀ s ∈ samples, s.WellFormed) ∧ (∃! σ, Consistent samples σ) ∧
      Consistent samples fun number => [((4 : Int), Opcode.addr), (9, .addi)].lookup number := by
  intro samples
  have hformed : ∀ s ∈ samples, s.WellFormed := by
    simp only [samples, List.forall_mem_cons, List.not_mem_nil, false_imp_iff, implies_true,
      and_true]
    exact ⟨⟨by decide, by decide⟩, ⟨by decide, by decide⟩⟩
  have hok : Numbering.ofSamples samples = .ok [(4, .addr), (9, .addi)] := by
    cbv
  obtain ⟨hiff, hconsistent, -⟩ := ofSamples_ok_iff_existsUnique hformed
  exact ⟨hformed, hiff.1 ⟨_, hok⟩, (hconsistent _ hok).1⟩

end WordMachine

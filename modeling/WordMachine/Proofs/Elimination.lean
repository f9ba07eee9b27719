import Mathlib.Data.Fintype.Pigeonhole
import Mathlib.Data.List.Dedup
import Mathlib.Dynamics.PeriodicPts.Lemmas
import WordMachine.Sample.Resolution

/-!
# Elimination

`Possibilities.Solves possible σ`: the assignment `σ` gives every number one of the opcodes still
possible for it, and no two numbers the same. A round of elimination keeps these assignments, apart
from their values on the numbers it solves, which are forced.

When no number is solved and none has lost all its opcodes, each has two or more. Then an
assignment is never the only one: changing one number to another of its opcodes, and the number
that held this opcode in turn, leads to a free opcode or around a circle. So elimination, which
never guesses, gets stuck only where a guess would be needed.
-/

namespace WordMachine

/-! ## Another choice -/

theorem exists_periodic {α : Type} [Finite α] [Nonempty α] (f : α → α) :
    ∃ a, a ∈ Function.periodicPts f := by
  obtain ⟨i, j, hij, heq⟩ :=
    Finite.exists_ne_map_eq_of_infinite fun k => f^[k] (Classical.arbitrary α)
  have hperiodic : ∀ {i j : Nat}, i < j → f^[i] (Classical.arbitrary α) =
      f^[j] (Classical.arbitrary α) → ∃ a, a ∈ Function.periodicPts f := by
    intro i j hlt heq
    refine ⟨f^[i] (Classical.arbitrary α), j - i, Nat.sub_pos_of_lt hlt, ?_⟩
    rw [Function.IsPeriodicPt, Function.IsFixedPt, ← Function.iterate_add_apply,
      Nat.sub_add_cancel (Nat.le_of_lt hlt), heq]
  rcases Nat.lt_or_gt_of_ne hij with hlt | hlt
  · exact hperiodic hlt heq
  · exact hperiodic hlt heq.symm

/-- An injective function on a finite type can be changed into another one by using, for some
arguments, the values of a function that differs from it everywhere. -/
theorem exists_other_injective {α β : Type} [Finite α] [Nonempty α] {f g : α → β}
    (hf : Function.Injective f) (hne : ∀ a, g a ≠ f a) :
    ∃ h : α → β, Function.Injective h ∧ (∀ a, h a = f a ∨ h a = g a) ∧ ∃ a, h a ≠ f a := by
  classical
  by_cases hfree : ∃ a, ∀ b, f b ≠ g a
  · -- The other value of some argument is free: change this one.
    obtain ⟨a, ha⟩ := hfree
    refine ⟨Function.update f a (g a), ?_, fun b => ?_, a, by simpa using hne a⟩
    · intro b c hbc
      by_cases hb : b = a <;> by_cases hc : c = a
      · rw [hb, hc]
      · rw [hb, Function.update_self, Function.update_of_ne hc] at hbc
        exact absurd hbc.symm (ha c)
      · rw [hc, Function.update_self, Function.update_of_ne hb] at hbc
        exact absurd hbc (ha b)
      · rw [Function.update_of_ne hb, Function.update_of_ne hc] at hbc
        exact hf hbc
    · by_cases hb : b = a
      · exact .inr (by rw [hb, Function.update_self])
      · exact .inl (Function.update_of_ne hb _ _)
  · -- Every other value is held by some argument: change all of a circle of them.
    have hheld : ∀ a, ∃ b, f b = g a := fun a => by
      by_contra hnone
      exact hfree ⟨a, fun b hb => hnone ⟨b, hb⟩⟩
    choose holder hholder using hheld
    have hbij := Function.bijOn_periodicPts holder
    obtain ⟨a, ha⟩ := exists_periodic holder
    refine ⟨fun b => if b ∈ Function.periodicPts holder then g b else f b, ?_, fun b => ?_, a, ?_⟩
    · intro b c hbc
      simp only at hbc
      split at hbc <;> split at hbc
      · next hb hc =>
        rw [← hholder, ← hholder] at hbc
        exact hbij.injOn hb hc (hf hbc)
      · next hb hc =>
        rw [← hholder] at hbc
        exact absurd (hf hbc ▸ hbij.mapsTo hb) hc
      · next hb hc =>
        rw [← hholder] at hbc
        exact absurd (hf hbc ▸ hbij.mapsTo hc) hb
      · exact hf hbc
    · simp only
      split
      · exact .inr rfl
      · exact .inl rfl
    · simpa [ha] using hne a

/-- The same for a function on a finite set. -/
theorem exists_other_injOn {α β : Type} {s : Set α} (hs : s.Finite) (hne : s.Nonempty)
    {f g : α → β} (hf : Set.InjOn f s) (hg : ∀ a ∈ s, g a ≠ f a) :
    ∃ h : α → β, Set.InjOn h s ∧ (∀ a ∈ s, h a = f a ∨ h a = g a) ∧ ∃ a ∈ s, h a ≠ f a := by
  classical
  have := hs.to_subtype
  have := hne.to_subtype
  obtain ⟨h, hinj, hchoice, ⟨a, ha⟩, hane⟩ := exists_other_injective
    (f := fun a : s => f a) (g := fun a : s => g a) hf.injective fun a => hg a a.property
  refine ⟨fun a => if ha : a ∈ s then h ⟨a, ha⟩ else f a, ?_, ?_, a, ha, ?_⟩
  · intro b hb c hc heq
    simp only [hb, hc, dite_true] at heq
    exact congrArg Subtype.val (hinj heq)
  · intro b hb
    simpa only [hb, dite_true] using hchoice ⟨b, hb⟩
  · simpa only [ha, dite_true] using hane

/-! ## Assignments -/

namespace Possibilities

/-- Every number occurs once, and so does every opcode that is possible for it. -/
structure Regular (possible : Possibilities) : Prop where
  numbers_nodup : (possible.map (·.1)).Nodup
  opcodes_nodup : ∀ ⦃number ops⦄, (number, ops) ∈ possible → ops.Nodup

structure Solves (possible : Possibilities) (σ : Int → Opcode) : Prop where
  mem : ∀ ⦃number ops⦄, (number, ops) ∈ possible → σ number ∈ ops
  injective : ∀ ⦃m ops n ops'⦄, (m, ops) ∈ possible → (n, ops') ∈ possible → σ m = σ n → m = n

theorem Solves.congr {possible : Possibilities} {σ τ : Int → Opcode} (h : possible.Solves σ)
    (heq : ∀ number ops, (number, ops) ∈ possible → τ number = σ number) : possible.Solves τ := by
  constructor
  · intro number ops hmem
    rw [heq _ _ hmem]
    exact h.mem hmem
  · intro m ops n ops' hm hn hτ
    rw [heq _ _ hm, heq _ _ hn] at hτ
    exact h.injective hm hn hτ

theorem Regular.eq_of_number {possible : Possibilities} (h : possible.Regular)
    {number : Int} {ops ops' : List Opcode} (h1 : (number, ops) ∈ possible)
    (h2 : (number, ops') ∈ possible) : ops = ops' :=
  congrArg Prod.snd (List.inj_on_of_nodup_map h.numbers_nodup h1 h2 rfl)

/-! ## One round -/

theorem mem_solved_iff {possible : Possibilities} {number : Int} {op : Opcode} :
    (number, op) ∈ possible.solved ↔ (number, [op]) ∈ possible := by
  simp only [solved, List.mem_filterMap]
  constructor
  · rintro ⟨⟨m, ops⟩, hmem, heq⟩
    match ops, heq with
    | [_], rfl => exact hmem
  · intro hmem
    exact ⟨_, hmem, rfl⟩

theorem mem_strike_iff {possible : Possibilities} {number : Int} {ops : List Opcode} :
    (number, ops) ∈ possible.strike ↔ ∃ all, (number, all) ∈ possible ∧ all.length ≠ 1 ∧
      ops = all.filter fun op => !(possible.solved.map (·.2)).contains op := by
  simp only [strike, List.mem_map, List.mem_filter]
  constructor
  · rintro ⟨⟨m, all⟩, ⟨hmem, hlen⟩, heq⟩
    cases heq
    exact ⟨all, hmem, by simpa using hlen, rfl⟩
  · rintro ⟨all, hmem, hlen, rfl⟩
    exact ⟨(number, all), ⟨hmem, by simpa using hlen⟩, rfl⟩

/-- A number is solved in a round, or goes on to the next. -/
theorem solved_or_strike {possible : Possibilities} {number : Int} {all : List Opcode}
    (h : (number, all) ∈ possible) :
    (∃ op, all = [op] ∧ (number, op) ∈ possible.solved) ∨
      (number, all.filter fun op => !(possible.solved.map (·.2)).contains op) ∈
        possible.strike := by
  by_cases hlen : all.length = 1
  · obtain ⟨op, rfl⟩ := List.length_eq_one_iff.1 hlen
    exact .inl ⟨op, rfl, mem_solved_iff.2 h⟩
  · exact .inr (mem_strike_iff.2 ⟨all, h, hlen, rfl⟩)

theorem solved_numbers (possible : Possibilities) :
    possible.solved.map (·.1) = (possible.filter fun e => e.2.length == 1).map (·.1) := by
  induction possible with
  | nil => rfl
  | cons e possible ih =>
    obtain ⟨number, ops⟩ := e
    match ops with
    | [] => simpa [solved] using ih
    | [op] => simpa [solved] using ih
    | op :: op' :: rest => simpa [solved] using ih

theorem strike_numbers (possible : Possibilities) :
    possible.strike.map (·.1) = (possible.filter fun e => !(e.2.length == 1)).map (·.1) := by
  rw [strike, List.map_map]
  rfl

theorem strike_numbers_sublist (possible : Possibilities) :
    (possible.strike.map (·.1)).Sublist (possible.map (·.1)) := by
  rw [strike_numbers]
  exact List.filter_sublist.map _

/-- Every number is solved in a round or goes on to the next. -/
theorem numbers_perm (possible : Possibilities) :
    (possible.solved.map (·.1) ++ possible.strike.map (·.1)).Perm (possible.map (·.1)) := by
  rw [solved_numbers, strike_numbers, ← List.map_append]
  exact (List.filter_append_perm (fun e : Int × List Opcode => e.2.length == 1) possible).map _

theorem Regular.strike {possible : Possibilities} (h : possible.Regular) :
    possible.strike.Regular := by
  constructor
  · exact h.numbers_nodup.sublist possible.strike_numbers_sublist
  · intro number ops hmem
    obtain ⟨all, hall, -, rfl⟩ := mem_strike_iff.1 hmem
    exact (h.opcodes_nodup hall).filter _

theorem Regular.solved_numbers_nodup {possible : Possibilities} (h : possible.Regular) :
    (possible.solved.map (·.1)).Nodup := by
  rw [solved_numbers]
  exact h.numbers_nodup.sublist (List.filter_sublist.map _)

/-- Numbers that are solved in a round stay out of the next. -/
theorem Regular.ne_of_solved {possible : Possibilities} (h : possible.Regular) {m n : Int}
    {op : Opcode} {ops : List Opcode} (hm : (m, op) ∈ possible.solved)
    (hn : (n, ops) ∈ possible.strike) : n ≠ m := by
  obtain ⟨all, hall, hlen, -⟩ := mem_strike_iff.1 hn
  rintro rfl
  rw [h.eq_of_number hall (mem_solved_iff.1 hm)] at hlen
  exact hlen rfl

/-- A solved number has its opcode in every assignment. -/
theorem Solves.eq_of_solved {possible : Possibilities} {σ : Int → Opcode}
    (h : possible.Solves σ) {number : Int} {op : Opcode} (he : (number, op) ∈ possible.solved) :
    σ number = op :=
  List.mem_singleton.1 (h.mem (mem_solved_iff.1 he))

/-- No two numbers are solved by the same opcode if there is an assignment at all. -/
theorem Solves.solved_opcodes_nodup {possible : Possibilities} {σ : Int → Opcode}
    (hreg : possible.Regular) (h : possible.Solves σ) : (possible.solved.map (·.2)).Nodup := by
  have heq : possible.solved.map (·.2) = (possible.solved.map (·.1)).map σ := by
    rw [List.map_map]
    exact List.map_congr_left fun e he => (h.eq_of_solved he).symm
  rw [heq]
  refine hreg.solved_numbers_nodup.map_on ?_
  intro m hm n hn hσ
  obtain ⟨⟨_, op⟩, he, rfl⟩ := List.mem_map.1 hm
  obtain ⟨⟨_, op'⟩, he', rfl⟩ := List.mem_map.1 hn
  exact h.injective (mem_solved_iff.1 he) (mem_solved_iff.1 he') hσ

theorem not_taken_iff {possible : Possibilities} {op : Opcode} :
    (!(possible.solved.map (·.2)).contains op) = true ↔ ∀ m, (m, op) ∉ possible.solved := by
  rw [Bool.not_eq_true', Bool.eq_false_iff, Ne, List.contains_iff_mem, List.mem_map]
  constructor
  · intro h m hm
    exact h ⟨_, hm, rfl⟩
  · rintro h ⟨⟨m, _⟩, hm, rfl⟩
    exact h m hm

/-- A round keeps the assignments: those of the next round, with the solved numbers as found. -/
theorem solves_iff_strike {possible : Possibilities} {σ : Int → Opcode} (hreg : possible.Regular)
    (hopcodes : (possible.solved.map (·.2)).Nodup) :
    possible.Solves σ ↔
      (∀ number op, (number, op) ∈ possible.solved → σ number = op) ∧ possible.strike.Solves σ := by
  constructor
  · intro h
    refine ⟨fun number op he => h.eq_of_solved he, ?_, ?_⟩
    · intro number ops hmem
      obtain ⟨all, hall, -, rfl⟩ := mem_strike_iff.1 hmem
      refine List.mem_filter.2 ⟨h.mem hall, not_taken_iff.2 fun m hm => ?_⟩
      -- An opcode that was taken belongs to another number.
      exact hreg.ne_of_solved hm hmem
        (h.injective hall (mem_solved_iff.1 hm) (h.eq_of_solved hm).symm)
    · intro m ops n ops' hm hn hσ
      obtain ⟨all, hall, -, -⟩ := mem_strike_iff.1 hm
      obtain ⟨all', hall', -, -⟩ := mem_strike_iff.1 hn
      exact h.injective hall hall' hσ
  · rintro ⟨hsolved, h⟩
    -- The opcodes that were taken are used by none of the numbers that are left.
    have hapart : ∀ {m op n ops}, (m, op) ∈ possible.solved → (n, ops) ∈ possible.strike →
        σ n ≠ σ m := by
      intro m op n ops hm hn heq
      obtain ⟨all, -, -, rfl⟩ := mem_strike_iff.1 hn
      have hfree := not_taken_iff.1 (List.mem_filter.1 (h.mem hn)).2
      rw [heq, hsolved _ _ hm] at hfree
      exact hfree m hm
    constructor
    · intro number all hmem
      rcases solved_or_strike hmem with ⟨op, rfl, he⟩ | hstrike
      · exact List.mem_singleton.2 (hsolved _ _ he)
      · exact (List.mem_filter.1 (h.mem hstrike)).1
    · intro m all n all' hm hn hσ
      rcases solved_or_strike hm with ⟨op, rfl, he⟩ | hm' <;>
        rcases solved_or_strike hn with ⟨op', rfl, he'⟩ | hn'
      · rw [hsolved _ _ he, hsolved _ _ he'] at hσ
        have heq := List.inj_on_of_nodup_map hopcodes he he' hσ
        exact congrArg Prod.fst heq
      · exact absurd hσ.symm (hapart he hn')
      · exact absurd hσ (hapart he' hm')
      · exact h.injective hm' hn' hσ

/-! ## Stuck rounds -/

theorem exists_ne_mem {ops : List Opcode} {op : Opcode} (hnodup : ops.Nodup)
    (hlen : ops.length ≠ 1) (hmem : op ∈ ops) : ∃ other ∈ ops, other ≠ op := by
  match ops, hmem with
  | [_], _ => exact absurd rfl hlen
  | x :: y :: _, _ =>
    by_cases hx : x = op
    · refine ⟨y, by simp, fun hy => ?_⟩
      simp [hx, hy] at hnodup
    · exact ⟨x, by simp, hx⟩

/-- Where nothing is solved, an assignment is not the only one. -/
theorem Solves.exists_other {possible : Possibilities} {σ : Int → Opcode}
    (hreg : possible.Regular) (h : possible.Solves σ) (hne : possible ≠ [])
    (hsolved : possible.solved = []) :
    ∃ τ, possible.Solves τ ∧ ∃ number ops, (number, ops) ∈ possible ∧ τ number ≠ σ number := by
  have hother : ∀ number, ∃ op, ∀ ops, (number, ops) ∈ possible → op ∈ ops ∧ op ≠ σ number := by
    intro number
    by_cases hnumber : ∃ ops, (number, ops) ∈ possible
    · obtain ⟨ops, hmem⟩ := hnumber
      have hlen : ops.length ≠ 1 := fun hlen => by
        obtain ⟨op, rfl⟩ := List.length_eq_one_iff.1 hlen
        simpa [hsolved] using mem_solved_iff.2 hmem
      obtain ⟨op, hop⟩ := exists_ne_mem (hreg.opcodes_nodup hmem) hlen (h.mem hmem)
      exact ⟨op, fun ops' hmem' => hreg.eq_of_number hmem hmem' ▸ hop⟩
    · exact ⟨σ number, fun ops hmem => absurd ⟨ops, hmem⟩ hnumber⟩
  choose g hg using hother
  obtain ⟨⟨number, ops⟩, hmem⟩ := List.exists_mem_of_ne_nil possible hne
  have hfinite : {number | ∃ ops, (number, ops) ∈ possible}.Finite :=
    (possible.map (·.1)).finite_toSet.subset fun number ⟨ops, hmem⟩ =>
      List.mem_map.2 ⟨_, hmem, rfl⟩
  obtain ⟨τ, hinj, hchoice, n, ⟨ops', hn⟩, hτn⟩ :=
    exists_other_injOn hfinite ⟨number, ops, hmem⟩ (f := σ) (g := g)
      (fun m ⟨_, hm⟩ n ⟨_, hn⟩ => h.injective hm hn) fun m ⟨ops, hm⟩ => (hg m ops hm).2
  refine ⟨τ, ⟨?_, fun m ops n ops' hm hn => hinj ⟨ops, hm⟩ ⟨ops', hn⟩⟩, n, ops', hn, hτn⟩
  intro m all hm
  rcases hchoice m ⟨all, hm⟩ with heq | heq
  · rw [heq]
    exact h.mem hm
  · rw [heq]
    exact (hg m all hm).1

/-! ## All rounds -/

theorem nodup_eraseDups {α : Type} [BEq α] [LawfulBEq α] (l : List α) : l.eraseDups.Nodup := by
  generalize hn : l.length = n
  induction n using Nat.strongRecOn generalizing l with
  | _ n ih =>
    subst hn
    cases l with
    | nil => simp
    | cons a l =>
      rw [List.eraseDups_cons, List.nodup_cons, List.mem_eraseDups]
      refine ⟨by simp, ih _ ?_ _ rfl⟩
      exact Nat.lt_succ_of_le (List.length_filter_le _ _)

theorem nodup_iff_length_eraseDups {l : List Opcode} :
    l.Nodup ↔ ¬ l.eraseDups.length < l.length := by
  have hperm : l.eraseDups.Perm l.dedup :=
    (List.perm_ext_iff_of_nodup (nodup_eraseDups l) l.nodup_dedup).2 fun a => by simp
  rw [hperm.length_eq, ← List.dedup_eq_self]
  constructor
  · intro h
    rw [h]
    exact Nat.lt_irrefl _
  · intro h
    exact l.dedup_sublist.eq_of_length_le (Nat.le_of_not_lt h)

/-- Where there is an assignment no number has lost all its opcodes. -/
theorem Solves.not_any_isEmpty {possible : Possibilities} {σ : Int → Opcode}
    (h : possible.Solves σ) : ¬ (possible.any fun (_, ops) => ops.isEmpty) = true := by
  intro hany
  obtain ⟨⟨number, ops⟩, hmem, hops⟩ := List.any_eq_true.1 hany
  obtain rfl := List.isEmpty_iff.1 hops
  simpa using h.mem hmem

/-- Where there is an assignment no two numbers are solved by one opcode. -/
theorem Solves.not_shared {possible : Possibilities} {σ : Int → Opcode} (h : possible.Solves σ)
    (hreg : possible.Regular) :
    ¬ (possible.solved.map (·.2)).eraseDups.length < possible.solved.length := by
  have hnodup := nodup_iff_length_eraseDups.1 (h.solved_opcodes_nodup hreg)
  rwa [List.length_map] at hnodup

/-- Rounds that solve a number do not go on for longer than there are numbers. -/
theorem exists_stuck_round (possible : Possibilities) :
    ∃ rounds ≤ possible.length, (strike^[rounds] possible).solved = [] := by
  by_cases hsolved : possible.solved = []
  · exact ⟨0, Nat.zero_le _, hsolved⟩
  · have hlt : possible.strike.length < possible.length := strike_length_lt (by simpa using hsolved)
    obtain ⟨rounds, hle, hstuck⟩ := exists_stuck_round possible.strike
    exact ⟨rounds + 1, by omega, hstuck⟩
termination_by possible.length

/-- What the outcome of an elimination tells about the assignments: the only one, that there is
none, or that there is another beside each. -/
def Tells (possible : Possibilities) : Except Fault Numbering → Prop
  | .ok numbering => (numbering.map (·.1)).Perm (possible.map (·.1)) ∧
      ∀ σ, possible.Solves σ ↔ ∀ number op, (number, op) ∈ numbering → σ number = op
  | .error fault =>
      ((fault = .noCandidates ∨ fault = .sharedOpcode) ∧ ∀ σ, ¬ possible.Solves σ) ∨
      ((∃ numbers, fault = (Fault.unresolved numbers).raised) ∧ ∀ σ, possible.Solves σ →
        ∃ τ, possible.Solves τ ∧ ∃ number ops, (number, ops) ∈ possible ∧ τ number ≠ σ number)

theorem Tells.perm {possible : Possibilities} {numbering numbering' : Numbering}
    (h : possible.Tells (.ok numbering)) (hperm : numbering'.Perm numbering) :
    possible.Tells (.ok numbering') := by
  refine ⟨(hperm.map _).trans h.1, fun σ => (h.2 σ).trans ?_⟩
  simp only [hperm.mem_iff]

/-- Adding the numbers that a round solved to what the next round tells. -/
theorem Tells.of_strike_ok {possible : Possibilities} {numbering : Numbering}
    (hreg : possible.Regular) (hopcodes : (possible.solved.map (·.2)).Nodup)
    (h : possible.strike.Tells (.ok numbering)) :
    possible.Tells (.ok (possible.solved ++ numbering)) := by
  obtain ⟨hperm, hsolves⟩ := h
  constructor
  · rw [List.map_append]
    exact (hperm.append_left _).trans possible.numbers_perm
  · intro σ
    rw [solves_iff_strike hreg hopcodes, hsolves]
    simp only [List.mem_append]
    grind

theorem Tells.of_strike_error {possible : Possibilities} {fault : Fault}
    (hreg : possible.Regular) (hopcodes : (possible.solved.map (·.2)).Nodup)
    (h : possible.strike.Tells (.error fault)) : possible.Tells (.error fault) := by
  classical
  rcases h with ⟨hfault, hnone⟩ | ⟨hfault, hother⟩
  · exact .inl ⟨hfault, fun σ h => hnone σ ((solves_iff_strike hreg hopcodes).1 h).2⟩
  · refine .inr ⟨hfault, fun σ h => ?_⟩
    obtain ⟨hsolved, hstrike⟩ := (solves_iff_strike hreg hopcodes).1 h
    obtain ⟨τ, hτ, n, ops, hn, hne⟩ := hother σ hstrike
    -- The other assignment of the next round, with the solved numbers as they are.
    have hleft : ∀ {m ops}, (m, ops) ∈ possible.strike → ¬ ∃ op, (m, op) ∈ possible.solved :=
      fun hm ⟨op, hop⟩ => hreg.ne_of_solved hop hm rfl
    refine ⟨fun m => if ∃ op, (m, op) ∈ possible.solved then σ m else τ m,
      (solves_iff_strike hreg hopcodes).2 ⟨?_, hτ.congr ?_⟩, n, ?_⟩
    · intro m op hm
      simp only [if_pos (⟨op, hm⟩ : ∃ op, (m, op) ∈ possible.solved), hsolved m op hm]
    · intro m ops hm
      simp only [if_neg (hleft hm)]
    · obtain ⟨all, hall, -, -⟩ := mem_strike_iff.1 hn
      refine ⟨all, hall, ?_⟩
      simpa only [if_neg (hleft hn)] using hne

theorem tells_eliminate {possible : Possibilities} (hreg : possible.Regular) :
    possible.Tells possible.eliminate := by
  fun_induction eliminate possible with
  | case1 possible hempty =>
    obtain rfl := List.isEmpty_iff.1 hempty
    refine ⟨.refl _, fun σ => ⟨fun _ number op h => by simp at h, fun _ => ⟨?_, ?_⟩⟩⟩
    · intro number ops h
      simp at h
    · intro m ops n ops' h
      simp at h
  | case2 possible hempty hsolved hany =>
    exact .inl ⟨.inl rfl, fun σ h => h.not_any_isEmpty hany⟩
  | case3 possible hempty hsolved hany =>
    refine .inr ⟨⟨_, rfl⟩, fun σ h => ?_⟩
    exact h.exists_other hreg (by simpa using hempty) (List.isEmpty_iff.1 hsolved)
  | case4 possible hempty hsolved hshared =>
    exact .inl ⟨.inr rfl, fun σ h => h.not_shared hreg hshared⟩
  | case5 possible hempty hsolved hshared numbering hok ih =>
    rw [hok] at ih
    refine .of_strike_ok hreg (nodup_iff_length_eraseDups.2 ?_) (ih hreg.strike)
    rwa [List.length_map]
  | case6 possible hempty hsolved hshared fault herror ih =>
    rw [herror] at ih
    refine .of_strike_error hreg (nodup_iff_length_eraseDups.2 ?_) (ih hreg.strike)
    rwa [List.length_map]

end Possibilities

end WordMachine

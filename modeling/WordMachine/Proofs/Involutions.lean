import Mathlib.Data.Sym.Sym2
import WordMachine.Proofs.Fallible
import WordMachine.Proofs.SelfModification

/-!
# Toggle tables are the involutions

A table is checked entry by entry: each entry must lead back to where it starts. An opcode without
an entry stays itself, so this check is that the whole table is an involution, and every involution
passes it.

A list of pairs is checked while its entries are made: no pair may have an opcode that an earlier
one has. Pairs that are apart swap their members and leave all else alone (`Swaps`), whichever way
round and in whatever order they are listed, so the check of the entries never fails after that of
the pairs. Tables are involutions, so for the toggles of a program neither the order nor repeated
targets matter.
-/

namespace WordMachine

namespace ToggleTable

variable {entries pairs : List (Opcode × Opcode)} {op : Opcode}

theorem eq_of_partner {s t : ToggleTable} (h : s.partner = t.partner) : s = t := by
  cases s
  cases t
  cases h
  rfl

/-! ## Looking an opcode up -/

theorem foldl_lookup_cases (op : Opcode) : ∀ (entries : List (Opcode × Opcode)) (found : Opcode),
    (∀ e ∈ entries, e.1 ≠ op) ∨
      (op, entries.foldl (fun found e => if e.1 = op then e.2 else found) found) ∈ entries
  | [], _ => .inl (by simp)
  | e :: es, found => by
    rw [List.foldl_cons]
    rcases foldl_lookup_cases op es (if e.1 = op then e.2 else found) with hnone | hmem
    · by_cases he : e.1 = op
      · rw [if_pos he, foldl_lookup_of_ne es _ hnone, ← he]
        exact .inr List.mem_cons_self
      · exact .inl (List.forall_mem_cons.2 ⟨he, hnone⟩)
    · exact .inr (List.mem_cons_of_mem _ hmem)

/-- What is found for an opcode with entries is one of them. -/
theorem mem_of_lookup (h : ∃ e ∈ entries, e.1 = op) : (op, lookup entries op) ∈ entries := by
  obtain ⟨e, he, heq⟩ := h
  exact (foldl_lookup_cases op entries op).resolve_left fun hnone => hnone e he heq

theorem lookup_eq {x y : Opcode} (hmem : (x, y) ∈ entries)
    (hagree : ∀ z, (x, z) ∈ entries → z = y) : lookup entries x = y :=
  hagree _ (mem_of_lookup ⟨_, hmem, rfl⟩)

/-! ## Tables from entries -/

/-- Entries make the table that they look up, or one of them does not lead back. -/
theorem ofEntries_cases (entries : List (Opcode × Opcode)) :
    (∃ t, ofEntries entries = .ok t ∧ t.partner = lookup entries) ∨
    ∃ op, ofEntries entries = .error (.notInvolution op (lookup entries op)
      (lookup entries (lookup entries op))) ∧ lookup entries (lookup entries op) ≠ op := by
  unfold ofEntries
  split
  · next e he => exact .inr ⟨e.1, rfl, by simpa [oneWay] using List.find?_some he⟩
  · exact .inl ⟨_, rfl, rfl⟩

theorem ofEntries_eq_ok_iff {t : ToggleTable} :
    ofEntries entries = .ok t ↔ t.partner = lookup entries := by
  rcases ofEntries_cases entries with ⟨t', hok, hpartner⟩ | ⟨op, herror, hne⟩
  · rw [hok, Except.ok.injEq]
    constructor
    · rintro rfl
      exact hpartner
    · intro h
      exact eq_of_partner (hpartner.trans h.symm)
  · rw [herror]
    simp only [reduceCtorEq, false_iff]
    intro h
    rw [← h] at hne
    exact hne (t.involutive op)

/-- The entries list a mapping: one for each opcode that has a value, in any order. -/
structure Lists (entries : List (Opcode × Opcode)) (mapping : Opcode → Option Opcode) : Prop where
  nodup : (entries.map (·.1)).Nodup
  mem_iff : ∀ x y, (x, y) ∈ entries ↔ mapping x = some y

/-- A mapping as a function on all opcodes: one without a value stays itself. -/
def total (mapping : Opcode → Option Opcode) (op : Opcode) : Opcode := (mapping op).getD op

theorem Lists.lookup_eq_total {mapping : Opcode → Option Opcode} (h : Lists entries mapping) :
    lookup entries = total mapping := by
  funext op
  cases hop : mapping op with
  | none =>
    rw [total, hop, Option.getD_none]
    refine lookup_eq_self fun e he heq => ?_
    have := (h.mem_iff e.1 e.2).1 he
    rw [heq, hop] at this
    cases this
  | some y =>
    rw [total, hop, Option.getD_some]
    refine lookup_eq ((h.mem_iff op y).2 hop) fun z hz => ?_
    have := (h.mem_iff op z).1 hz
    rw [hop] at this
    exact (Option.some.inj this).symm

theorem exists_lists (mapping : Opcode → Option Opcode) : ∃ entries, Lists entries mapping := by
  refine ⟨Opcode.all.filterMap fun op => (mapping op).map (op, ·), ?_, fun x y => ?_⟩
  · have hkeys : ∀ ops : List Opcode, ((ops.filterMap fun op => (mapping op).map (op, ·)).map
        (·.1)).Sublist ops := by
      intro ops
      induction ops with
      | nil => exact .refl _
      | cons op ops ih =>
        rw [List.filterMap_cons]
        cases mapping op with
        | none => exact ih.cons _
        | some y => exact ih.cons_cons _
    exact List.Nodup.sublist (hkeys _) (by decide)
  · simp only [List.mem_filterMap, Option.map_eq_some_iff, Prod.mk.injEq]
    constructor
    · rintro ⟨op, -, z, hz, rfl, rfl⟩
      exact hz
    · intro h
      exact ⟨x, Opcode.mem_all x, y, h, rfl, rfl⟩

/-! ## Tables from pairs -/

def unordered (pairs : List (Opcode × Opcode)) : List (Sym2 Opcode) :=
  pairs.map fun p => s(p.1, p.2)

def bothWays (pairs : List (Opcode × Opcode)) : List (Opcode × Opcode) :=
  pairs.flatMap fun p => [(p.1, p.2), (p.2, p.1)]

theorem mem_bothWays_iff {x y : Opcode} : (x, y) ∈ bothWays pairs ↔ s(x, y) ∈ unordered pairs := by
  simp only [bothWays, unordered, List.mem_flatMap, List.mem_map, List.mem_cons, Prod.mk.injEq,
    List.not_mem_nil, or_false, Sym2.eq_iff]
  grind

/-- The pairs have no opcode in common. -/
def Apart (u v : Sym2 Opcode) : Prop := ∀ op ∈ u, op ∉ v

instance : Std.Symm Apart := ⟨fun _ _ h op hv hu => h op hu hv⟩

/-- The pairs are apart from one another, and from the opcodes that have entries. -/
def Free (entries pairs : List (Opcode × Opcode)) : Prop :=
  (∀ u ∈ unordered pairs, ∀ e ∈ entries, e.1 ∉ u) ∧ (unordered pairs).Pairwise Apart

theorem free_cons_iff {x y : Opcode} : Free entries ((x, y) :: pairs) ↔
    (∀ e ∈ entries, e.1 ∉ s(x, y)) ∧ Free (entries ++ [(x, y), (y, x)]) pairs := by
  have hapart : ∀ u : Sym2 Opcode, Apart s(x, y) u ↔ x ∉ u ∧ y ∉ u := fun u => by
    simp [Apart]
  simp only [Free, unordered, List.map_cons, List.pairwise_cons, hapart, List.mem_append,
    List.mem_cons, List.not_mem_nil, or_false]
  grind

theorem pairEntries_cases (entries pairs : List (Opcode × Opcode)) :
    (pairEntries entries pairs = .ok (entries ++ bothWays pairs) ∧ Free entries pairs) ∨
    ∃ x y, (x, y) ∈ pairs ∧ pairEntries entries pairs = .error (.pairedTwice x y) ∧
      ¬ Free entries pairs := by
  induction pairs generalizing entries with
  | nil => exact .inl ⟨by simp [pairEntries, bothWays], by simp [Free, unordered]⟩
  | cons p pairs ih =>
    obtain ⟨x, y⟩ := p
    have hfree : (∀ e ∈ entries, e.1 ∉ s(x, y)) ↔
        ¬ (entries.any fun e => e.1 == x || e.1 == y) = true := by
      simp
    rw [pairEntries, free_cons_iff, hfree]
    split
    · next hany => exact .inr ⟨x, y, List.mem_cons_self, rfl, fun h => h.1 hany⟩
    · next hany =>
      rcases ih (entries ++ [(x, y), (y, x)]) with ⟨hok, hrest⟩ | ⟨x', y', hmem, herror, hrest⟩
      · refine .inl ⟨?_, hany, hrest⟩
        rw [hok, List.append_assoc]
        rfl
      · exact .inr ⟨x', y', List.mem_cons_of_mem _ hmem, herror, fun h => hrest h.2⟩

/-- The function swaps the members of each pair, and leaves the other opcodes as they are. -/
structure Swaps (pairs : List (Opcode × Opcode)) (f : Opcode → Opcode) : Prop where
  partner : ∀ ⦃x y⦄, s(x, y) ∈ unordered pairs → f x = y
  fixed : ∀ ⦃op⦄, (∀ u ∈ unordered pairs, op ∉ u) → f op = op

theorem paired_or_single (pairs : List (Opcode × Opcode)) (op : Opcode) :
    (∃ y, s(op, y) ∈ unordered pairs) ∨ ∀ u ∈ unordered pairs, op ∉ u := by
  refine or_iff_not_imp_right.2 fun h => ?_
  obtain ⟨u, hu, hop⟩ : ∃ u ∈ unordered pairs, op ∈ u := by simpa using h
  obtain ⟨y, rfl⟩ := Sym2.mem_iff_exists.1 hop
  exact ⟨y, hu⟩

theorem Swaps.unique {f g : Opcode → Opcode} (hf : Swaps pairs f) (hg : Swaps pairs g) :
    f = g := by
  funext op
  rcases paired_or_single pairs op with ⟨y, hy⟩ | hnone
  · rw [hf.partner hy, hg.partner hy]
  · rw [hf.fixed hnone, hg.fixed hnone]

theorem Swaps.involutive {f : Opcode → Opcode} (h : Swaps pairs f) (op : Opcode) :
    f (f op) = op := by
  rcases paired_or_single pairs op with ⟨y, hy⟩ | hnone
  · rw [h.partner hy, h.partner (Sym2.eq_swap ▸ hy)]
  · rw [h.fixed hnone, h.fixed hnone]

/-- Pairs that are apart have entries that swap them. -/
theorem swaps_lookup (h : (unordered pairs).Pairwise Apart) :
    Swaps pairs (lookup (bothWays pairs)) := by
  constructor
  · intro x y hmem
    refine lookup_eq (mem_bothWays_iff.2 hmem) fun z hz => ?_
    by_contra hne
    have hdiffer : s(x, y) ≠ s(x, z) := fun heq => hne (Sym2.congr_right.1 heq).symm
    have hapart := h.forall hmem (mem_bothWays_iff.1 hz) hdiffer
    exact hapart x (Sym2.mem_mk_left x y) (Sym2.mem_mk_left x z)
  · intro op hnone
    refine lookup_eq_self fun e he heq => ?_
    exact hnone s(e.1, e.2) (mem_bothWays_iff.1 he) (heq ▸ Sym2.mem_mk_left e.1 e.2)

/-- Pairs make the table that swaps them, or one of them is not apart from those before. -/
theorem ofPairs_cases (pairs : List (Opcode × Opcode)) :
    (∃ t, ofPairs pairs = .ok t ∧ Swaps pairs t.partner ∧ (unordered pairs).Pairwise Apart) ∨
    ∃ x y, (x, y) ∈ pairs ∧ ofPairs pairs = .error (.pairedTwice x y) ∧
      ¬ (unordered pairs).Pairwise Apart := by
  unfold ofPairs
  rcases pairEntries_cases [] pairs with ⟨hok, -, hapart⟩ | ⟨x, y, hmem, herror, hfree⟩
  · have hswaps := swaps_lookup hapart
    let t : ToggleTable := ⟨lookup (bothWays pairs), hswaps.involutive⟩
    refine .inl ⟨t, ?_, hswaps, hapart⟩
    rw [hok]
    exact ofEntries_eq_ok_iff.2 rfl
  · refine .inr ⟨x, y, hmem, ?_, fun hapart => hfree ⟨by simp, hapart⟩⟩
    rw [herror]
    rfl

theorem ofPairs_eq_ok_iff {t : ToggleTable} :
    ofPairs pairs = .ok t ↔ (unordered pairs).Pairwise Apart ∧ Swaps pairs t.partner := by
  rcases ofPairs_cases pairs with ⟨t', hok, hswaps, hapart⟩ | ⟨x, y, -, herror, hapart⟩
  · rw [hok, Except.ok.injEq]
    constructor
    · rintro rfl
      exact ⟨hapart, hswaps⟩
    · rintro ⟨-, h⟩
      exact eq_of_partner (hswaps.unique h)
  · rw [herror]
    simp only [reduceCtorEq, false_iff]
    exact fun h => hapart h.1

/-- Only the pairs count, not their order, and not which member comes first. -/
theorem ofPairs_perm {pairs' : List (Opcode × Opcode)}
    (h : (unordered pairs').Perm (unordered pairs)) (t : ToggleTable) :
    ofPairs pairs' = .ok t ↔ ofPairs pairs = .ok t := by
  have hswaps : Swaps pairs' t.partner ↔ Swaps pairs t.partner := by
    constructor
    · intro hs
      exact ⟨fun x y hmem => hs.partner (h.mem_iff.2 hmem),
        fun op hnone => hs.fixed fun u hu => hnone u (h.mem_iff.1 hu)⟩
    · intro hs
      exact ⟨fun x y hmem => hs.partner (h.mem_iff.1 hmem),
        fun op hnone => hs.fixed fun u hu => hnone u (h.mem_iff.2 hu)⟩
  rw [ofPairs_eq_ok_iff, ofPairs_eq_ok_iff, hswaps, h.pairwise_iff (Std.Symm.symm _ _)]

/-- The opcode belongs to the pair at a position of the list. -/
def Occurs (pairs : List (Opcode × Opcode)) (op : Opcode) (i : Nat) : Prop :=
  ∃ p, pairs[i]? = some p ∧ op ∈ s(p.1, p.2)

theorem pairwise_apart_iff : (unordered pairs).Pairwise Apart ↔
    ∀ op i j, Occurs pairs op i → Occurs pairs op j → i = j := by
  rw [unordered, List.pairwise_map, List.pairwise_iff_getElem]
  constructor
  · rintro h op i j ⟨p, hp, hop⟩ ⟨q, hq, hoq⟩
    obtain ⟨hi, rfl⟩ := List.getElem?_eq_some_iff.1 hp
    obtain ⟨hj, rfl⟩ := List.getElem?_eq_some_iff.1 hq
    rcases Nat.lt_trichotomy i j with hlt | heq | hlt
    · exact absurd hoq (h i j hi hj hlt op hop)
    · exact heq
    · exact absurd hop (h j i hj hi hlt op hoq)
  · intro h i j hi hj hlt op hop hoq
    have heq := h op i j ⟨_, List.getElem?_eq_getElem hi, hop⟩ ⟨_, List.getElem?_eq_getElem hj, hoq⟩
    omega

end ToggleTable

/-! ## Toggles of a program -/

namespace Program

theorem toggle_toggle (table : ToggleTable) (p : Program) (target : Int) :
    (p.toggle table target).toggle table target = p := by
  apply Array.ext_getElem?
  intro i
  simp only [getElem?_toggle]
  split
  · have hflip : table.flip ∘ table.flip = id := funext table.flip_flip
    rw [Option.map_map, hflip, Option.map_id]
    rfl
  · rfl

/-- Two toggles of the same target cancel, whatever stands between them. -/
theorem foldl_toggle_cancel (table : ToggleTable) (p : Program) (before between after : List Int)
    (target : Int) :
    (before ++ target :: (between ++ target :: after)).foldl (toggle table) p =
      (before ++ (between ++ after)).foldl (toggle table) p := by
  have hperm : (before ++ target :: (between ++ target :: after)).Perm
      (target :: target :: (before ++ (between ++ after))) := by
    refine List.perm_middle.trans (.cons _ ?_)
    rw [← List.append_assoc, ← List.append_assoc]
    exact List.perm_middle
  rw [foldl_toggle_perm table p hperm, List.foldl_cons, List.foldl_cons, toggle_toggle]

end Program

open ToggleTable in
/-- Toggle tables are exactly the involutions. The entries of a mapping make a table just if the
mapping, with every other opcode left as it is, is its own inverse, and every table is made so. A
list of pairs makes a table just if no opcode belongs to two positions of it; the table then swaps
the members of each pair, in whatever order the pairs are listed and whichever member comes first.
Toggles of a program may be done in any order, and two of the same target left out. -/
theorem toggle_tables_exactly_involutions :
    (∀ (mapping : Opcode → Option Opcode) (entries : List (Opcode × Opcode)),
      Lists entries mapping →
        ((∃ t, ofEntries entries = .ok t) ↔ Function.Involutive (total mapping)) ∧
        (∀ t, ofEntries entries = .ok t → t.partner = total mapping) ∧
        ∀ fault, ofEntries entries = .error fault → ∃ op,
          fault = .notInvolution op (total mapping op) (total mapping (total mapping op)) ∧
            total mapping (total mapping op) ≠ op) ∧
    (∀ mapping : Opcode → Option Opcode, ∃ entries, Lists entries mapping) ∧
    (∀ t : ToggleTable, ∃ entries, ofEntries entries = .ok t) ∧
    (∀ pairs : List (Opcode × Opcode),
      ((∃ t, ofPairs pairs = .ok t) ↔
        ∀ op i j, Occurs pairs op i → Occurs pairs op j → i = j) ∧
      (∀ t, ofPairs pairs = .ok t → Swaps pairs t.partner) ∧
      (∀ fault, ofPairs pairs = .error fault →
        ∃ x y, (x, y) ∈ pairs ∧ fault = .pairedTwice x y) ∧
      ∀ pairs', (unordered pairs').Perm (unordered pairs) → ∀ t,
        ofPairs pairs' = .ok t ↔ ofPairs pairs = .ok t) ∧
    ∀ (t : ToggleTable) (p : Program),
      (∀ targets targets' : List Int, targets'.Perm targets →
        targets'.foldl (Program.toggle t) p = targets.foldl (Program.toggle t) p) ∧
      ∀ (before between after : List Int) (target : Int),
        (before ++ target :: (between ++ target :: after)).foldl (Program.toggle t) p =
          (before ++ (between ++ after)).foldl (Program.toggle t) p := by
  refine ⟨fun mapping entries hlists => ?_, exists_lists, fun t => ?_, fun pairs => ?_,
    fun t p => ?_⟩
  · have htotal := hlists.lookup_eq_total
    refine ⟨⟨?_, fun h => ?_⟩, fun t ht => ?_, fun fault herror => ?_⟩
    · rintro ⟨t, ht⟩
      rw [← htotal, ← ofEntries_eq_ok_iff.1 ht]
      exact t.involutive
    · exact ⟨⟨total mapping, h⟩, ofEntries_eq_ok_iff.2 htotal.symm⟩
    · rw [← htotal]
      exact ofEntries_eq_ok_iff.1 ht
    · rw [← htotal]
      rcases ofEntries_cases entries with ⟨t, hok, -⟩ | ⟨op, herror', hne⟩
      · rw [hok] at herror
        cases herror
      · rw [herror'] at herror
        cases herror
        exact ⟨op, rfl, hne⟩
  · obtain ⟨entries, hlists⟩ := exists_lists fun op => some (t.partner op)
    exact ⟨entries, ofEntries_eq_ok_iff.2 hlists.lookup_eq_total.symm⟩
  · rw [← pairwise_apart_iff]
    refine ⟨?_, fun t ht => (ofPairs_eq_ok_iff.1 ht).2, fun fault herror => ?_,
      fun pairs' hperm => ofPairs_perm hperm⟩
    · constructor
      · rintro ⟨t, ht⟩
        exact (ofPairs_eq_ok_iff.1 ht).1
      · intro hapart
        have hswaps := swaps_lookup hapart
        exact ⟨⟨_, hswaps.involutive⟩, ofPairs_eq_ok_iff.2 ⟨hapart, hswaps⟩⟩
    · rcases ofPairs_cases pairs with ⟨t, hok, -⟩ | ⟨x, y, hmem, herror', -⟩
      · rw [hok] at herror
        cases herror
      · rw [herror'] at herror
        cases herror
        exact ⟨x, y, hmem, rfl⟩
  · exact ⟨fun targets targets' => Program.foldl_toggle_perm t p,
      Program.foldl_toggle_cancel t p⟩

open ToggleTable in
/-- One pair and an opcode paired with itself, listed twice. -/
theorem toggle_tables_exactly_involutions_swapped_pair :
    ∃ t, ofPairs [(.addr, .out), (.tgl, .tgl)] = .ok t ∧
      ofPairs [(.tgl, .tgl), (.out, .addr)] = .ok t ∧ t.partner .out = .addr ∧
      ∀ p : Program, [3, 0, 3].foldl (Program.toggle t) p = p.toggle t 0 := by
  obtain ⟨-, -, -, hpairs, htoggles⟩ := toggle_tables_exactly_involutions
  obtain ⟨-, hswaps, -, hperm⟩ := hpairs [(.addr, .out), (.tgl, .tgl)]
  have hok : ∃ t, ofPairs [(.addr, .out), (.tgl, .tgl)] = .ok t := ⟨_, rfl⟩
  obtain ⟨t, hok⟩ := hok
  have hsame : (unordered [(.tgl, .tgl), (.out, .addr)]).Perm
      (unordered [(.addr, .out), (.tgl, .tgl)]) := by decide
  exact ⟨t, hok, (hperm _ hsame t).2 hok, (hswaps t hok).partner (by decide),
    fun p => (htoggles t p).2 [] [0] [] 3⟩

end WordMachine

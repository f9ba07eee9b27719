import Mathlib.Data.Nat.Find
import WordMachine.Proofs.Search

/-!
# Every closed walk leaves a loop in the list

A closed walk has a lowest node. Cut short wherever it comes back to a node it has left, it becomes
a simple path that closes at that node and otherwise stays above it, and the enumeration from that
node lists all of these: a path is not prolonged only where the search finds no way to close it.
So a graph whose list of loops is empty has no closed walk at all.
-/

namespace WordMachine.Flow

namespace NodeSet

variable {s : NodeSet} {size u v : Nat}

theorem contains_between_iff {low high : Nat} :
    (between low high).contains u = true ↔ low ≤ u ∧ u < high := by
  simp

theorem contains_of_erase (h : (s.erase v).contains u = true) : s.contains u = true := by
  rw [contains_erase, Bool.and_eq_true] at h
  exact h.1

theorem contains_foldl_insert (vs : List Nat) (s : NodeSet) (u : Nat) :
    (vs.foldl insert s).contains u = true ↔ s.contains u = true ∨ u ∈ vs := by
  induction vs generalizing s with
  | nil => simp
  | cons v vs ih =>
    rw [List.foldl_cons, ih, contains_insert]
    simp [or_assoc]

theorem card_below_erase_one (hv : v < size) (h : s.contains v = true) :
    ((s.erase v).below size).card + 1 = (s.below size).card := by
  have hone : ∀ u ∈ [v], u < size ∧ s.contains u = true := by simpa using ⟨hv, h⟩
  have hcard := card_below_erase (List.nodup_singleton v) hone
  rwa [List.length_singleton, List.foldl_cons, List.foldl_nil] at hcard

end NodeSet

/-! ## Simple paths that close -/

/-- The simple paths that start at a node, go on along free nodes, and end with an edge to
`home`. -/
inductive Closing (next : Nat → List Nat) (home : Nat) : NodeSet → Nat → List Nat → Prop where
  | last {free : NodeSet} {v : Nat} : home ∈ next v → Closing next home free v [v]
  | cons {free : NodeSet} {v u : Nat} {path : List Nat} : Onto next free v u →
      Closing next home (free.erase u) u path → Closing next home free v (v :: path)

section

variable {next : Nat → List Nat} {home size : Nat} {free : NodeSet} {v : Nat}

/-- A path that closes ends in a node that can be reached and has an edge to `home`. -/
theorem Closing.exists_reach {path : List Nat} (h : Closing next home free v path) :
    ∃ x, Relation.ReflTransGen (Onto next free) v x ∧ home ∈ next x := by
  induction h with
  | last hhome => exact ⟨_, .refl, hhome⟩
  | cons hedge _ ih =>
    obtain ⟨x, hpath, hhome⟩ := ih
    exact ⟨x, (reach_mono (fun _ => NodeSet.contains_of_erase) hpath).head hedge, hhome⟩

/-- Where a node with an edge to `home` can be reached, some simple path leads there. -/
theorem exists_closing {free : NodeSet} {v x : Nat}
    (hfree : ∀ u, free.contains u = true → u < size)
    (hpath : Relation.ReflTransGen (Onto next free) v x) (hhome : home ∈ next x) :
    ∃ path, Closing next home free v path := by
  rcases hpath.cases_head with rfl | ⟨u, hedge, hpath⟩
  · exact ⟨[v], .last hhome⟩
  · have hcard := NodeSet.card_below_erase_one (hfree u hedge.2) hedge.2
    have hfree' : ∀ y, (free.erase u).contains y = true → y < size :=
      fun y hy => hfree y (NodeSet.contains_of_erase hy)
    obtain ⟨path, hclosing⟩ := exists_closing hfree' (reach_avoiding_start hpath) hhome
    exact ⟨v :: path, .cons hedge hclosing⟩
termination_by (free.below size).card
decreasing_by omega

/-- The enumeration lists every simple path that closes, if it may be as long as there are nodes. -/
theorem mem_closings (hnodup : ∀ v, (next v).Nodup) {path : List Nat}
    (h : Closing next home free v path) (hfree : ∀ u, free.contains u = true → u < size) {k : Nat}
    (hk : (free.below size).card < k) : path ∈ closings next home k free v := by
  induction h generalizing k with
  | last hhome =>
    obtain ⟨k, rfl⟩ := Nat.exists_eq_add_of_lt hk
    simp [closings, hhome]
  | @cons free v u path hedge hclosing ih =>
    obtain ⟨k, rfl⟩ : ∃ j, k = j + 1 := ⟨k - 1, by omega⟩
    obtain ⟨hnext, hu⟩ := hedge
    have hcard := NodeSet.card_below_erase_one (hfree u hu) hu
    have hfree' : ∀ y, (free.erase u).contains y = true → y < size :=
      fun y hy => hfree y (NodeSet.contains_of_erase hy)
    -- The search finds the end of the path, so the path is not given up at `u`.
    have hsearch : search next (fun y => (next y).contains home) (k + 1) (free.erase u) [u] =
        true := by
      by_contra hnone
      obtain ⟨x, hpath, hhome⟩ := hclosing.exists_reach
      have hgoal := goal_eq_false_of_search hnodup size (k + 1) _ [u] hfree'
        (by rw [List.length_singleton]; omega) (by simpa using hnone) u List.mem_cons_self x hpath
      simp [hhome] at hgoal
    have hahead : u ∈ (next v).filter free.contains := List.mem_filter.2 ⟨hnext, hu⟩
    rw [closings]
    refine List.mem_append_right _ (List.mem_flatMap.2 ⟨u, ?_, ?_⟩)
    · split
      · exact hahead
      · exact List.mem_filter.2 ⟨hahead, hsearch⟩
    · exact List.mem_map_of_mem (ih hfree' (by omega))

end

/-! ## Return points -/

theorem contains_returnPoints {size : Nat} {next : Nat → List Nat} {u : Nat} :
    (returnPoints size next).contains u = true ↔ ∃ v < size, u ∈ next v ∧ u ≤ v := by
  have hfold : ∀ (vs : List Nat) (s : NodeSet),
      (vs.foldl (fun s v => ((next v).filter (· ≤ v)).foldl .insert s) s).contains u = true ↔
        s.contains u = true ∨ ∃ v ∈ vs, u ∈ next v ∧ u ≤ v := by
    intro vs
    induction vs with
    | nil => simp
    | cons v vs ih =>
      intro s
      rw [List.foldl_cons, ih, NodeSet.contains_foldl_insert]
      simp [or_assoc]
  simp [returnPoints, hfold]

section

variable {size : Nat} {next : Nat → List Nat}

/-- A simple path that closes at its first node and otherwise stays above it is one of the loops. -/
theorem mem_cycles (hnodup : ∀ v, (next v).Nodup) {home : Nat} {path : List Nat}
    (hhome : home < size) (h : Closing next home (.between (home + 1) size) home path) :
    path ∈ cycles size next := by
  have hcard : ((NodeSet.between (home + 1) size).below size).card < size := by
    have hsub : (NodeSet.between (home + 1) size).below size ⊂ Finset.range size :=
      (Finset.ssubset_iff_of_subset (Finset.filter_subset _ _)).2
        ⟨home, Finset.mem_range.2 hhome, by simp⟩
    simpa using Finset.card_lt_card hsub
  have hpoint : (returnPoints size next).contains home = true := by
    obtain ⟨x, hpath, hback⟩ := h.exists_reach
    have hx : home ≤ x ∧ x < size := by
      rcases hpath.cases_tail with rfl | ⟨_, -, -, hfree⟩
      · exact ⟨Nat.le_refl _, hhome⟩
      · have hbounds := NodeSet.contains_between_iff.1 hfree
        omega
    exact contains_returnPoints.2 ⟨x, hx.2, hback, hx.1⟩
  have hmem : path ∈ closings next home size (.between (home + 1) size) home :=
    mem_closings hnodup h (fun u hu => (NodeSet.contains_between_iff.1 hu).2) hcard
  exact List.mem_flatMap.2 ⟨home, List.mem_filter.2 ⟨List.mem_range.2 hhome, hpoint⟩, hmem⟩

/-! ## Closed walks -/

/-- A closed walk through the lowest node that has one does not go below it. -/
theorem reach_above_lowest (hsize : ∀ v, ∀ u ∈ next v, u < size) {low x : Nat}
    (hlow : ∀ v, Relation.TransGen (fun u v => v ∈ next u) v v → low ≤ v)
    (hthere : Relation.ReflTransGen (fun u v => v ∈ next u) low x)
    (hback : Relation.ReflTransGen (fun u v => v ∈ next u) x low) :
    Relation.ReflTransGen (Onto next (.between low size)) low x := by
  induction hthere with
  | refl => exact .refl
  | @tail y x hpath hedge ih =>
    have hclosed : Relation.TransGen (fun u v => v ∈ next u) x x := .tail' (hback.trans hpath) hedge
    exact (ih (hback.head hedge)).tail ⟨hedge, by simp [hlow x hclosed, hsize y x hedge]⟩

/-- If there is a closed walk, there are loops. -/
theorem cycles_ne_nil (hnodup : ∀ v, (next v).Nodup) (hsize : ∀ v, ∀ u ∈ next v, u < size)
    (h : ∃ v, Relation.TransGen (fun u v => v ∈ next u) v v) : cycles size next ≠ [] := by
  classical
  obtain ⟨low, hwalk, hlow⟩ : ∃ low, Relation.TransGen (fun u v => v ∈ next u) low low ∧
      ∀ v, Relation.TransGen (fun u v => v ∈ next u) v v → low ≤ v :=
    ⟨Nat.find h, Nat.find_spec h, fun _ hv => Nat.find_min' h hv⟩
  obtain ⟨x, hthere, hback⟩ := Relation.TransGen.tail'_iff.1 hwalk
  have hpath : Relation.ReflTransGen (Onto next (.between (low + 1) size)) low x := by
    refine reach_mono (fun u hu => ?_)
      (reach_avoiding_start (reach_above_lowest hsize hlow hthere (.single hback)))
    rw [NodeSet.contains_erase, Bool.and_eq_true, NodeSet.contains_between_iff] at hu
    rw [NodeSet.contains_between_iff]
    have hne : u ≠ low := by simpa using hu.2
    omega
  obtain ⟨path, hclosing⟩ : ∃ path, Closing next low (.between (low + 1) size) low path :=
    exists_closing (fun u hu => (NodeSet.contains_between_iff.1 hu).2) hpath hback
  exact List.ne_nil_of_mem (mem_cycles hnodup (hsize x low hback) hclosing)

end

end WordMachine.Flow

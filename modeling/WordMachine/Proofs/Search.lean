import Mathlib.Data.Finset.Card
import Mathlib.Logic.Relation
import WordMachine.Flow.Loop

/-!
# The search misses nothing

A node is put before the others only once: it leaves the free nodes in the same round. So the nodes
to look at and the free nodes together become fewer by one in each round, and as many rounds as
there are nodes are enough to look at every node that can be reached.
-/

namespace WordMachine.Flow

namespace NodeSet

theorem contains_foldl_erase (vs : List Nat) (s : NodeSet) (u : Nat) :
    (vs.foldl erase s).contains u = true ↔ s.contains u = true ∧ u ∉ vs := by
  induction vs generalizing s with
  | nil => simp
  | cons v vs ih =>
    rw [List.foldl_cons, ih, contains_erase]
    simp [and_assoc]

/-- The members below `size`. -/
def below (size : Nat) (s : NodeSet) : Finset Nat :=
  (Finset.range size).filter fun v => s.contains v = true

theorem mem_below {size v : Nat} {s : NodeSet} :
    v ∈ s.below size ↔ v < size ∧ s.contains v = true := by
  simp [below]

/-- Erasing different members leaves so many fewer. -/
theorem card_below_erase {size : Nat} {s : NodeSet} {vs : List Nat} (hnodup : vs.Nodup)
    (hmem : ∀ v ∈ vs, v < size ∧ s.contains v = true) :
    ((vs.foldl erase s).below size).card + vs.length = (s.below size).card := by
  have hsplit : (vs.foldl erase s).below size = s.below size \ vs.toFinset := by
    ext v
    simp only [mem_below, contains_foldl_erase, Finset.mem_sdiff, List.mem_toFinset, and_assoc]
  have hsub : vs.toFinset ⊆ s.below size := fun v hv =>
    mem_below.2 (hmem v (List.mem_toFinset.1 hv))
  rw [hsplit, ← List.toFinset_card_of_nodup hnodup]
  exact Finset.card_sdiff_add_card_eq_card hsub

end NodeSet

variable {next : Nat → List Nat} {goal : Nat → Bool}

/-- An edge to a free node. -/
def Onto (next : Nat → List Nat) (free : NodeSet) (u v : Nat) : Prop :=
  v ∈ next u ∧ free.contains v = true

theorem reach_mono {free free' : NodeSet} {v x : Nat}
    (hsub : ∀ u, free.contains u = true → free'.contains u = true)
    (h : Relation.ReflTransGen (Onto next free) v x) :
    Relation.ReflTransGen (Onto next free') v x :=
  Relation.ReflTransGen.mono (fun _ u hedge => ⟨hedge.1, hsub u hedge.2⟩) _ _ h

/-- What can be reached along free nodes is the first node, or can be reached from the others and
the free successors of the first along the nodes that are still free then. -/
theorem reach_cases {free : NodeSet} {v x : Nat} {todo : List Nat}
    (h : ∃ u ∈ v :: todo, Relation.ReflTransGen (Onto next free) u x) :
    x = v ∨ ∃ u ∈ (next v).filter free.contains ++ todo, Relation.ReflTransGen
      (Onto next (((next v).filter free.contains).foldl .erase free)) u x := by
  obtain ⟨u, hu, hpath⟩ := h
  induction hpath with
  | refl =>
    rcases List.mem_cons.1 hu with rfl | hu
    · exact .inl rfl
    · exact .inr ⟨u, List.mem_append_right _ hu, .refl⟩
  | @tail y x _ hedge ih =>
    obtain ⟨hnext, hfree⟩ := hedge
    by_cases hfound : x ∈ (next v).filter free.contains
    · exact .inr ⟨x, List.mem_append_left _ hfound, .refl⟩
    · rcases ih with rfl | ⟨u', hu', hpath'⟩
      · exact absurd (List.mem_filter.2 ⟨hnext, hfree⟩) hfound
      · refine .inr ⟨u', hu', hpath'.tail ⟨hnext, ?_⟩⟩
        exact (NodeSet.contains_foldl_erase _ _ _).2 ⟨hfree, hfound⟩

/-- A path that comes back to its start may as well begin there. -/
theorem reach_avoiding_start {free : NodeSet} {v x : Nat}
    (h : Relation.ReflTransGen (Onto next free) v x) :
    Relation.ReflTransGen (Onto next (free.erase v)) v x := by
  induction h with
  | refl => exact .refl
  | @tail y x _ hedge ih =>
    by_cases hx : x = v
    · rw [hx]
    · exact ih.tail ⟨hedge.1, by simp [hedge.2, hx]⟩

/-- A search with enough rounds that finds no goal has met every node there is to meet. -/
theorem goal_eq_false_of_search (hnodup : ∀ v, (next v).Nodup) (size : Nat) :
    ∀ (k : Nat) (free : NodeSet) (todo : List Nat),
      (∀ v, free.contains v = true → v < size) → todo.length + (free.below size).card ≤ k →
      search next goal k free todo = false →
      ∀ u ∈ todo, ∀ x, Relation.ReflTransGen (Onto next free) u x → goal x = false
  | _, _, [], _, _, _ => by simp
  | 0, _, v :: todo, _, hk, _ => by simp at hk
  | k + 1, free, v :: todo, hfree, hk, hsearch => by
    intro u hu x hpath
    rw [search] at hsearch
    split at hsearch
    · cases hsearch
    · next hv =>
      have hmem : ∀ u ∈ (next v).filter free.contains, u < size ∧ free.contains u = true := by
        intro u hu
        have hu' := (List.mem_filter.1 hu).2
        exact ⟨hfree u hu', hu'⟩
      have hcard := NodeSet.card_below_erase ((hnodup v).filter free.contains) hmem
      rcases reach_cases ⟨u, hu, hpath⟩ with rfl | ⟨u', hu', hpath'⟩
      · simpa using hv
      · refine goal_eq_false_of_search hnodup size k _ _ (fun y hy => ?_) ?_ hsearch u' hu' x hpath'
        · exact hfree y ((NodeSet.contains_foldl_erase _ _ _).1 hy).1
        · simp only [List.length_append, List.length_cons] at hk ⊢
          omega

/-- If no goal is found from `start`, no goal can be reached from it. -/
theorem goal_eq_false_of_reaches {size start x : Nat} (hnodup : ∀ v, (next v).Nodup)
    (hsize : ∀ v, ∀ u ∈ next v, u < size) (hstart : start < size)
    (h : reaches size next goal start = false)
    (hpath : Relation.ReflTransGen (fun u v => v ∈ next u) start x) : goal x = false := by
  have hcard : (((NodeSet.between 0 size).erase start).below size).card + 1 ≤ size := by
    have hbelow : ((NodeSet.between 0 size).erase start).below size =
        (Finset.range size).erase start := by
      ext v
      simp [NodeSet.mem_below, and_comm]
    rw [hbelow, Finset.card_erase_of_mem (Finset.mem_range.2 hstart), Finset.card_range]
    omega
  have hpath' : Relation.ReflTransGen (Onto next (.between 0 size)) start x :=
    Relation.ReflTransGen.mono (fun y x hedge => ⟨hedge, by simp [hsize y x hedge]⟩) _ _ hpath
  refine goal_eq_false_of_search hnodup size size _ [start] (fun v hv => ?_) ?_ h
    start List.mem_cons_self x (reach_avoiding_start hpath')
  · simp only [NodeSet.contains_erase, NodeSet.contains_between, Bool.and_eq_true,
      decide_eq_true_eq] at hv
    exact hv.1.2
  · simp only [List.length_singleton]
    omega

end WordMachine.Flow

import WordMachine.Clock
import WordMachine.Proofs.Decision
import WordMachine.Proofs.Effect

/-!
# The least seed of a clock

A search tries seeds upwards from its start, and the first seed that is not refused decides it: the
seed makes a clock and is found, or its attempt fails and so does the search. Only a search with a
limit can come to its end with every seed refused. Without one it comes at the latest to a seed that
fits no word, and each attempt on the way ends since a machine has finitely many states.
-/

namespace WordMachine

/-! ## Seeded files -/

namespace Registers

variable {count reg v : Int}

theorem get_seeded {r : Registers count.toNat} (h : seeded count reg v = .ok r)
    (i : Fin count.toNat) : (r.get i).toInt = if (i : Int) = reg then v else 0 := by
  obtain ⟨_, -, h⟩ := Except.bind_eq_ok_iff.1 h
  obtain ⟨g, hg, h⟩ := Except.bind_eq_ok_iff.1 h
  obtain ⟨w, hw, h⟩ := Except.bind_eq_ok_iff.1 h
  obtain rfl := Except.ok.inj h
  rw [index_eq_ok_iff.1 hg]
  by_cases hi : i = g
  · subst hi
    rw [if_pos rfl, assign_self, toInt_of_word hw]
  · have hne : (i : Int) ≠ g := fun heq => hi (Fin.ext (Int.ofNat_inj.1 heq))
    rw [if_neg hne, assign_of_ne _ _ hi]
    simp [Vector.get]

/-- A seed that fits no word is a fault, if there can be a file at all. -/
theorem seeded_of_large (count reg : Int) (h : 2 ^ 63 ≤ v) :
    seeded count reg v = .error .overflow ∨ ∃ fault, ∀ u, seeded count reg u = .error fault := by
  have hword : word v = .error .overflow := by
    rw [word, Word.ofInt?, if_neg (by omega)]
  unfold seeded
  cases checkCount count with
  | error fault => exact .inr ⟨fault, fun _ => rfl⟩
  | ok _ =>
    cases index count.toNat reg with
    | error fault => exact .inr ⟨fault, fun _ => rfl⟩
    | ok i =>
      rw [hword]
      exact .inl rfl

end Registers

namespace SeedSearch

variable {s : SeedSearch} {first seed : Int} {k : Nat}

theorem test_eq_ok_iff {answer : Bool} : s.test seed = .ok answer ↔
    ∃ registers, Registers.seeded s.width s.register seed = .ok registers ∧
      isClock s.setup s.budget s.program registers = .ok answer :=
  Except.bind_eq_ok_iff

theorem test_of_large (h : 2 ^ 63 ≤ seed) :
    s.test seed = .error .overflow ∨ ∃ fault, ∀ other, s.test other = .error fault := by
  unfold test
  rcases Registers.seeded_of_large s.width s.register h with h | ⟨fault, h⟩
  · rw [h]
    exact .inl rfl
  · refine .inr ⟨fault, fun other => ?_⟩
    rw [h other]
    rfl

/-! ## Trying seeds in turn -/

/-- Each seed from `first` on and below `seed` is tested and found to make no clock. -/
def Refuses (s : SeedSearch) (first seed : Int) : Prop :=
  ∀ e, first ≤ e → e < seed → s.test e = .ok false

theorem Refuses.tail (h : s.Refuses first seed) : s.Refuses (first + 1) seed :=
  fun e he => h e (by omega)

theorem search_of_refuses (h : s.Refuses first (first + k)) : s.search k first = .ok none := by
  induction k generalizing first with
  | zero => rfl
  | succ k ih =>
    rw [search, h first (by omega) (by omega)]
    exact ih (by rw [show first + 1 + (k : Int) = first + ↑(k + 1) by omega]; exact h.tail)

/-- The first seed that is not refused decides what the search answers. -/
theorem search_of_first (hle : first ≤ seed) (hlt : seed < first + k) (h : s.Refuses first seed)
    (hseed : s.test seed ≠ .ok false) :
    s.search k first = (s.test seed).map fun _ => some seed := by
  induction k generalizing first with
  | zero => omega
  | succ k ih =>
    rw [search]
    rcases Int.lt_or_eq_of_le hle with hnext | rfl
    · rw [h first (Int.le_refl _) hnext]
      exact ih (by omega) (by omega) h.tail
    · cases htest : s.test first with
      | error fault => rfl
      | ok answer =>
        cases answer with
        | true => rfl
        | false => exact absurd htest hseed

theorem refuses_or_exists_first (s : SeedSearch) (first : Int) (k : Nat) :
    s.Refuses first (first + k) ∨ ∃ seed, first ≤ seed ∧ seed < first + k ∧
      s.Refuses first seed ∧ s.test seed ≠ .ok false := by
  induction k with
  | zero => exact .inl fun e h1 h2 => by omega
  | succ k ih =>
    rcases ih with hall | ⟨seed, hle, hlt, hseed⟩
    · by_cases hlast : s.test (first + k) = .ok false
      · refine .inl fun e h1 h2 => ?_
        rcases Int.lt_or_eq_of_le (show e ≤ first + k by omega) with h | rfl
        · exact hall e h1 h
        · exact hlast
      · exact .inr ⟨first + k, by omega, by omega, hall, hlast⟩
    · exact .inr ⟨seed, hle, by omega, hseed⟩

/-! ## Whole searches -/

/-- The seeds that a search is to try. -/
def Covers (s : SeedSearch) (seed : Int) : Prop :=
  s.start ≤ seed ∧ ∀ limit, s.limit = some limit → seed < s.start + limit

/-- The first of the seeds to try that is not refused. -/
structure Decides (s : SeedSearch) (seed : Int) : Prop where
  covers : s.Covers seed
  refuses : s.Refuses s.start seed
  test : s.test seed ≠ .ok false

theorem Decides.unique {seed' : Int} (h : s.Decides seed) (h' : s.Decides seed') :
    seed = seed' := by
  rcases Int.lt_trichotomy seed seed' with hlt | heq | hlt
  · exact absurd (h'.refuses seed h.covers.1 hlt) h.test
  · exact heq
  · exact absurd (h.refuses seed' h'.covers.1 hlt) h'.test

/-- Without a limit no more seeds are refused than fit a word. -/
theorem Refuses.lt_attempts (hlimit : s.limit = none) (h : s.Refuses s.start seed) :
    seed < s.start + s.attempts := by
  refine Int.lt_of_not_ge fun hge => ?_
  simp only [attempts, hlimit] at hge
  have hlarge := h (max s.start (2 ^ 63)) (by omega) (by omega)
  rcases test_of_large (s := s) (Int.le_max_right s.start (2 ^ 63)) with hfault | ⟨fault, hfault⟩
  · rw [hfault] at hlarge
    cases hlarge
  · rw [hfault] at hlarge
    cases hlarge

theorem Decides.lt_attempts (h : s.Decides seed) : seed < s.start + s.attempts := by
  cases hlimit : s.limit with
  | none => exact h.refuses.lt_attempts hlimit
  | some limit =>
    have := h.covers.1
    have := h.covers.2 limit hlimit
    simp only [attempts, hlimit]
    omega

/-- More attempts than those made change nothing once a seed has decided. -/
theorem Decides.search_eq (h : s.Decides seed) (hk : s.attempts ≤ k) :
    s.search k s.start = (s.test seed).map fun _ => some seed :=
  search_of_first h.covers.1 (by have := h.lt_attempts; omega) h.refuses h.test

theorem Decides.find_eq (h : s.Decides seed) : s.find = (s.test seed).map fun _ => some seed :=
  h.search_eq (Nat.le_refl _)

/-- A search refuses every seed that it is to try, of which there are then finitely many, or one of
them decides it. -/
theorem exhausted_or_exists_decides (s : SeedSearch) :
    (s.find = .ok none ∧ s.limit ≠ none ∧ ∀ seed, s.Covers seed → s.test seed = .ok false) ∨
      ∃ seed, s.Decides seed := by
  rcases s.refuses_or_exists_first s.start s.attempts with hall | ⟨seed, hle, hlt, href, htest⟩
  · cases hlimit : s.limit with
    | none => exact absurd (hall.lt_attempts hlimit) (Int.lt_irrefl _)
    | some limit =>
      refine .inl ⟨search_of_refuses hall, by simp, fun seed hseed => hall seed hseed.1 ?_⟩
      have := hseed.1
      have := hseed.2 limit hlimit
      simp only [attempts, hlimit]
      omega
  · refine .inr ⟨seed, ⟨hle, fun limit hlimit => ?_⟩, href, htest⟩
    simp only [attempts, hlimit] at hlt
    omega

theorem find_eq_some_iff :
    s.find = .ok (some seed) ↔ s.Decides seed ∧ s.test seed = .ok true := by
  constructor
  · intro h
    rcases s.exhausted_or_exists_decides with ⟨hnone, -⟩ | ⟨seed', hseed'⟩
    · rw [hnone] at h
      cases h
    · rw [hseed'.find_eq] at h
      obtain ⟨answer, hanswer, heq⟩ := Except.map_eq_ok_iff.1 h
      cases heq
      cases answer with
      | true => exact ⟨hseed', hanswer⟩
      | false => exact absurd hanswer hseed'.test
  · rintro ⟨hseed, htrue⟩
    rw [hseed.find_eq, htrue]
    rfl

theorem find_eq_error_iff {fault : Fault} :
    s.find = .error fault ↔ ∃ seed, s.Decides seed ∧ s.test seed = .error fault := by
  constructor
  · intro h
    rcases s.exhausted_or_exists_decides with ⟨hnone, -⟩ | ⟨seed, hseed⟩
    · rw [hnone] at h
      cases h
    · rw [hseed.find_eq] at h
      exact ⟨seed, hseed, Except.map_eq_error_iff.1 h⟩
  · rintro ⟨seed, hseed, hfault⟩
    rw [hseed.find_eq, hfault]
    rfl

theorem find_eq_none_iff :
    s.find = .ok none ↔ s.limit ≠ none ∧ ∀ seed, s.Covers seed → s.test seed = .ok false := by
  rcases s.exhausted_or_exists_decides with ⟨hnone, hlimit, hall⟩ | ⟨seed, hseed⟩
  · exact ⟨fun _ => ⟨hlimit, hall⟩, fun _ => hnone⟩
  · constructor
    · intro h
      rw [hseed.find_eq] at h
      obtain ⟨_, -, heq⟩ := Except.map_eq_ok_iff.1 h
      cases heq
    · rintro ⟨-, hall⟩
      exact absurd (hall seed hseed.covers) hseed.test

theorem Decides.of_test {r : Except Fault Bool} (hr : r ≠ .ok false)
    (h : s.Covers seed ∧ s.test seed = r ∧ s.Refuses s.start seed) : s.Decides seed :=
  ⟨h.1, h.2.2, h.2.1 ▸ hr⟩

end SeedSearch

/-- A search finds the least seed that makes a clock, among those it is to try and if no attempt
below it fails. It fails just if the first seed that is not refused does, and it comes back without
a seed just if it has a limit and every seed below it is refused. Without a limit it always comes to
a decision, since a seed that fits no word is a fault, and each attempt ends of itself. -/
theorem find_least_clock_seed (s : SeedSearch) :
    (∀ seed, s.find = .ok (some seed) ↔
      s.Covers seed ∧ s.test seed = .ok true ∧ s.Refuses s.start seed) ∧
    (s.find = .ok none ↔ s.limit ≠ none ∧ ∀ seed, s.Covers seed → s.test seed = .ok false) ∧
    (∀ fault, s.find = .error fault ↔
      ∃ seed, s.Covers seed ∧ s.test seed = .error fault ∧ s.Refuses s.start seed) ∧
    (s.limit = none → s.find ≠ .ok none ∧ ∀ k, s.attempts ≤ k → s.search k s.start = s.find) ∧
    (∀ seed, 2 ^ 63 ≤ seed →
      s.test seed = .error .overflow ∨ ∃ fault, ∀ other, s.test other = .error fault) ∧
    (∀ seed answer, s.test seed = .ok answer ↔
      ∃ registers, Registers.seeded s.width s.register seed = .ok registers ∧
        (∀ i, (registers.get i).toInt = if (i : Int) = s.register then seed else 0) ∧
        isClock s.setup s.budget s.program registers = .ok answer) ∧
    ∀ (registers : Registers s.width.toNat) m last,
      Machine.load s.setup s.program registers = .ok m →
        m.analyze Clock.check none ≠ .ok ⟨.stepLimit, last⟩ := by
  refine ⟨fun seed => ?_, SeedSearch.find_eq_none_iff, fun fault => ?_, fun hlimit => ?_,
    fun seed => SeedSearch.test_of_large, fun seed answer => ?_, fun registers m last _ => ?_⟩
  · rw [SeedSearch.find_eq_some_iff]
    exact ⟨fun ⟨h, htest⟩ => ⟨h.covers, htest, h.refuses⟩,
      fun h => ⟨.of_test (by simp) h, h.2.1⟩⟩
  · rw [SeedSearch.find_eq_error_iff]
    exact ⟨fun ⟨seed, h, htest⟩ => ⟨seed, h.covers, htest, h.refuses⟩,
      fun ⟨seed, h⟩ => ⟨seed, .of_test (by simp) h, h.2.1⟩⟩
  · have hnone : s.find ≠ .ok none := fun h => (SeedSearch.find_eq_none_iff.1 h).1 hlimit
    refine ⟨hnone, fun k hk => ?_⟩
    rcases s.exhausted_or_exists_decides with ⟨h, -⟩ | ⟨seed, h⟩
    · exact absurd h hnone
    · rw [h.search_eq hk, h.find_eq]
  · rw [SeedSearch.test_eq_ok_iff]
    exact ⟨fun ⟨r, hr, hclock⟩ => ⟨r, hr, Registers.get_seeded hr, hclock⟩,
      fun ⟨r, hr, _, hclock⟩ => ⟨r, hr, hclock⟩⟩
  · exact Machine.analyze_ne_stepLimit Clock.check m last

/-- The search for the seed of a clock that starts on its seed less two. -/
def Clock.shiftedSearch : SeedSearch where
  setup := { ip := some 3 }
  program := #[⟨.addi, 0, -2, 1⟩, ⟨.out, 1, 0, 0⟩, ⟨.eqri, 1, 0, 1⟩, ⟨.seti, 0, 0, 3⟩]
  width := 4

/-- The seeds 0 and 1 are refused, and no seed above 2 is looked at. -/
theorem find_least_clock_seed_shifted :
    Clock.shiftedSearch.limit = none ∧ Clock.shiftedSearch.Covers 2 ∧
      Clock.shiftedSearch.test 2 = .ok true ∧ Clock.shiftedSearch.Refuses 0 2 ∧
      Clock.shiftedSearch.find = .ok (some 2) := by
  have hcovers : Clock.shiftedSearch.Covers 2 := ⟨by decide, fun limit hlimit => by cases hlimit⟩
  have htest : Clock.shiftedSearch.test 2 = .ok true := by cbv
  have hrefuses : Clock.shiftedSearch.Refuses 0 2 := by
    intro e h0 h2
    obtain rfl | rfl : e = 0 ∨ e = 1 := by omega
    · cbv
    · cbv
  have hfind := (find_least_clock_seed Clock.shiftedSearch).1 2
  exact ⟨rfl, hcovers, htest, hrefuses, hfind.2 ⟨hcovers, htest, hrefuses⟩⟩

end WordMachine

import WordMachine.Proofs.HaltingCoverage
import WordMachine.Proofs.Lasso
import WordMachine.Proofs.StateSpace

/-!
# Collections that never end

A collection without a budget does not look for repeated states, so it may go on forever, but in one
way only: the forced run never ends, and from some step on it goes round a lap without gates. A lap
with a gate would bring the value compared there a second time, and that ends the collection.

It is therefore enough to follow the forced run for twice the number of states. A lap closes in the
first half of these steps, and the second half is long enough to go round it once more.
-/

namespace WordMachine

variable {n : Nat} {w : Wiring n} {gate : Option Int}

namespace State

variable {s t u : State n} {run : Nat → State n}

/-! ## The endless forced run -/

/-- A step of the run in which every gate fails, whatever its gates compare. -/
def ForcedNext (w : Wiring n) (gate : Option Int) (s u : State n) : Prop :=
  ∃ t ins next, s.fetch w = .ok (t, ins) ∧ t.perform w (forced gate ins) = .ok next ∧ next.next = u

/-- The next instruction is a gate. -/
def AtGate (w : Wiring n) (gate : Option Int) (s : State n) : Prop :=
  ∃ t ins, s.fetch w = .ok (t, ins) ∧ (gateOperand? gate ins).isSome = true

/-- The run in which every gate fails never ends, and `run k` is its state after `k` steps. -/
structure ForcedRuns (w : Wiring n) (gate : Option Int) (s : State n) (run : Nat → State n) :
    Prop where
  start : run 0 = s
  running : ∀ k, (run k).halted = false
  next : ∀ k, (run k).ForcedNext w gate (run (k + 1))

theorem ForcedNext.det (h1 : s.ForcedNext w gate t) (h2 : s.ForcedNext w gate u) : t = u := by
  obtain ⟨t1, ins1, next1, hf1, hp1, rfl⟩ := h1
  obtain ⟨t2, ins2, next2, hf2, hp2, rfl⟩ := h2
  rw [hf1] at hf2
  cases hf2
  rw [hp1] at hp2
  cases hp2
  rfl

theorem ForcedNext.operands (h : s.ForcedNext w gate u) :
    u.program.operands = s.program.operands := by
  obtain ⟨t, ins, next, hf, hp, rfl⟩ := h
  obtain ⟨v, event, he, rfl⟩ := perform_eq_ok_iff.1 hp
  show (v.advance w).program.operands = _
  rw [advance_program, execute_operands he, publish_program (fetch_eq_ok_iff.1 hf).1]

/-- Pigeonhole: of more states like `s` than there are, two are the same. -/
theorem exists_repeat_of_like {f : Nat → State n} (h : ∀ i ≤ s.count, Like s (f i)) :
    ∃ i j, i < j ∧ j ≤ s.count ∧ f i = f j := by
  by_contra hnone
  have hinj : Function.Injective fun i : Fin (s.count + 1) => f i := by
    intro i j hij
    rcases Nat.lt_trichotomy i.val j.val with hlt | heq | hlt
    · exact absurd ⟨i, j, hlt, by omega, hij⟩ hnone
    · exact Fin.ext heq
    · exact absurd ⟨j, i, hlt, by omega, hij.symm⟩ hnone
  have hcount := le_count_of_injective _ (fun i : Fin (s.count + 1) => h i (by omega)) hinj
  omega

theorem ForcedRuns.operands (h : s.ForcedRuns w gate run) (k : Nat) :
    (run k).program.operands = s.program.operands := by
  induction k with
  | zero => rw [h.start]
  | succ k ih => rw [(h.next k).operands, ih]

/-- What follows a state does not depend on when the run comes to it. -/
theorem ForcedRuns.periodic (h : s.ForcedRuns w gate run) {i j : Nat} (hij : i < j)
    (heq : run i = run j) {k : Nat} (hk : i ≤ k) : run (k + (j - i)) = run k := by
  induction k, hk using Nat.le_induction with
  | base => rw [Nat.add_sub_of_le (Nat.le_of_lt hij), heq]
  | succ k hk ih =>
    rw [Nat.add_right_comm]
    exact (ih ▸ h.next (k + (j - i))).det (h.next k)

/-- An endless forced run with finitely many gates ends up in a lap without gates. -/
theorem ForcedRuns.exists_gateFree (h : s.ForcedRuns w gate run)
    (hfinite : {k | (run k).AtGate w gate}.Finite) :
    ∃ start length, 0 < length ∧
      ∀ k, start ≤ k → run (k + length) = run k ∧ ¬ (run k).AtGate w gate := by
  obtain ⟨i, j, hij, -, heq⟩ :=
    exists_repeat_of_like (s := s) fun k _ => ⟨h.operands k, h.running k⟩
  refine ⟨i, j - i, by omega, fun k hk => ⟨h.periodic hij heq hk, fun hgate => ?_⟩⟩
  -- The gate would come again in each lap.
  have hlaps : ∀ c, (run (k + c * (j - i))).AtGate w gate := by
    intro c
    rwa [eq_of_periodic (fun k => h.periodic hij heq) c hk]
  have hinj : Function.Injective fun c => k + c * (j - i) := by
    intro c d hcd
    exact Nat.eq_of_mul_eq_mul_right (by omega) (Nat.add_left_cancel hcd)
  exact Set.infinite_of_injective_forall_mem hinj hlaps hfinite

/-! ## Laps of the forced run -/

section

variable {i j k l : Nat} {v? : Option Int} {vs xs : List Int}

theorem ForcedStep.forcedNext (h : s.ForcedStep w gate v? u) : s.ForcedNext w gate u := by
  obtain ⟨t, ins, next, hf, -, hp, hu⟩ := h
  exact ⟨t, ins, next, hf, hp, hu⟩

theorem ForcedStep.exists_value (h : s.ForcedStep w gate v? u) (hgate : s.AtGate w gate) :
    ∃ v, v? = some v := by
  obtain ⟨t, ins, next, hf, hv, -⟩ := h
  obtain ⟨t', ins', hf', hgate⟩ := hgate
  rw [hf] at hf'
  cases hf'
  cases v? with
  | none => simp [gateValue_eq_none_iff.1 hv] at hgate
  | some v => exact ⟨v, rfl⟩

theorem ForcedStep.not_forcedFault {fault : Fault} (h : s.ForcedStep w gate v? u) :
    ¬ s.ForcedFault w gate fault := by
  obtain ⟨t, ins, next, hf, hv, hp, -⟩ := h
  rintro (⟨failure, hf', -⟩ | ⟨t', ins', hf', hv' | ⟨failure, hp', -⟩⟩)
  · rw [hf] at hf'
    cases hf'
  · rw [hf] at hf'
    cases hf'
    rw [hv] at hv'
    cases hv'
  · rw [hf] at hf'
    cases hf'
    rw [hp] at hp'
    cases hp'

theorem ForcedRun.det (h1 : ForcedRun w gate k s vs t) (h2 : ForcedRun w gate k s xs u) :
    vs = xs ∧ t = u := by
  obtain ⟨ys, rfl, hrest⟩ := h1.rest (Nat.le_refl k) h2
  rw [Nat.sub_self] at hrest
  cases hrest
  exact ⟨(List.append_nil vs).symm, rfl⟩

theorem ForcedRun.operands (h : ForcedRun w gate k s vs t) :
    t.program.operands = s.program.operands := by
  induction h with
  | refl => rfl
  | step _ hs _ ih => rw [ih, hs.forcedNext.operands]

/-- A longer run goes on from where a shorter one ends. -/
theorem ForcedRun.exists_next (hjk : j < k) (h1 : ForcedRun w gate j s vs t)
    (h2 : ForcedRun w gate k s xs u) :
    t.halted = false ∧ ∃ v? t', t.ForcedStep w gate v? t' ∧ vs ++ v?.toList <+: xs := by
  obtain ⟨ys, rfl, hrest⟩ := h1.rest (Nat.le_of_lt hjk) h2
  obtain ⟨d, hd⟩ : ∃ d, k - j = d + 1 := ⟨k - j - 1, by omega⟩
  rw [hd] at hrest
  obtain _ | ⟨hh, hs, _⟩ := hrest
  refine ⟨hh, _, _, hs, ?_⟩
  rw [← List.append_assoc]
  exact List.prefix_append _ _

theorem ForcedRun.exists_repeat (h : ForcedRun w gate k s vs t) (hk : s.count < k) :
    ∃ i j xs ys u, i < j ∧ j ≤ s.count ∧ ForcedRun w gate i s xs u ∧ ForcedRun w gate j s ys u := by
  have hpass : ∀ i, ∃ u, i ≤ s.count → u.halted = false ∧ ∃ xs, ForcedRun w gate i s xs u := by
    intro i
    by_cases hi : i < k
    · obtain ⟨xs, u, v?, u', hrun, hu, -, -⟩ := h.exists_step hi
      exact ⟨u, fun _ => ⟨hu, xs, hrun⟩⟩
    · exact ⟨s, fun hi' => absurd (Nat.lt_of_le_of_lt hi' hk) hi⟩
  choose f hf using hpass
  obtain ⟨i, j, hij, hj, heq⟩ := exists_repeat_of_like (s := s) (f := f) fun i hi => by
    obtain ⟨hu, xs, hrun⟩ := hf i hi
    exact ⟨hrun.operands, hu⟩
  obtain ⟨-, xs, hi⟩ := hf i (by omega)
  obtain ⟨-, ys, hj'⟩ := hf j hj
  exact ⟨i, j, xs, ys, f i, hij, hj, hi, heq ▸ hj'⟩

/-- A run through twice the number of states that compares no value twice goes round a lap in which
nothing is compared. -/
theorem ForcedRun.exists_quiet_lap (h : ForcedRun w gate k s vs t) (hvs : vs.Nodup)
    (hk : 2 * s.count < k) : ∃ i l xs u, 0 < l ∧ xs <+: vs ∧ ForcedRun w gate i s xs u ∧
      ForcedRun w gate l u [] u := by
  obtain ⟨i, j, xs, ys, u, hij, hj, hi, hj'⟩ := h.exists_repeat (by omega)
  obtain ⟨zs, rfl, hlap⟩ := hi.rest (Nat.le_of_lt hij) hj'
  have htwice : (xs ++ zs) ++ zs <+: vs := (hj'.trans hlap).isPrefix (by omega) h
  have hzs : zs = [] := by
    have hnodup := List.nodup_append.1 (hvs.sublist htwice.sublist)
    refine List.eq_nil_iff_forall_not_mem.2 fun v hv => ?_
    exact hnodup.2.2 v (List.mem_append_right xs hv) v hv rfl
  subst hzs
  exact ⟨i, j - i, xs, u, by omega, by simpa using htwice, hi, hlap⟩

theorem ForcedRun.laps (h : ForcedRun w gate l u [] u) : ∀ c, ForcedRun w gate (c * l) u [] u
  | 0 => by simpa using ForcedRun.refl u
  | c + 1 => by
    rw [Nat.succ_mul, Nat.add_comm]
    exact h.trans (h.laps c)

/-- A run that comes to a quiet lap goes on forever and compares nothing else. -/
theorem ForcedRun.exists_beyond (hl : 0 < l) (h : ForcedRun w gate i s xs u)
    (hlap : ForcedRun w gate l u [] u) (k : Nat) :
    ∃ ys t, ForcedRun w gate k s ys t ∧ ys <+: xs := by
  have hfar := h.trans (hlap.laps k)
  rw [List.append_nil] at hfar
  have hk : k ≤ k * l := Nat.le_mul_of_pos_right k hl
  exact hfar.exists_at (by omega)

end

end State

/-! ## Following the forced run in parts -/

/-- What a part of a collection has found, if it is left as it stands for the given reason. -/
def Progress.close (stop : Stop) : Progress n → HaltingValues
  | .done found => found
  | .underWay p => ⟨p.values, stop, p.steps⟩

namespace Collection

variable {c : Collection} {s : State n} {m : Machine n}

/-- Takes up a collection that is under way. -/
def resume (c : Collection) (w : Wiring n) (k : Nat) : Progress n → Except Fault (Progress n)
  | .done found => .ok (.done found)
  | .underWay p => c.follow w k p

theorem bind_resume_underWay (c : Collection) (w : Wiring n) (k : Nat) (p : Pursuit n) :
    Except.ok (.underWay p) >>= c.resume w k = c.follow w k p := rfl

theorem follow_of_halted {p : Pursuit n} (h : p.state.halted = true) (k : Nat) :
    c.follow w k p = .ok (.done ⟨p.values, .halted, p.steps⟩) := by
  cases k with
  | zero => rw [follow, if_pos h]
  | succ k => rw [follow, if_pos h]

theorem follow_add (c : Collection) (w : Wiring n) (j k : Nat) (p : Pursuit n) :
    c.follow w (j + k) p = c.follow w j p >>= c.resume w k := by
  induction j generalizing p with
  | zero =>
    rw [Nat.zero_add, follow]
    split
    · next hh => exact follow_of_halted hh k
    · rfl
  | succ j ih =>
    obtain ⟨seen, values, steps, u⟩ := p
    rw [Nat.add_right_comm, follow, follow]
    split
    · rfl
    · cases u.fetch w with
      | error failure => rfl
      | ok fetched =>
        obtain ⟨t, ins⟩ := fetched
        dsimp only
        cases t.gateValue c.gate ins with
        | error fault => rfl
        | ok v? =>
          cases v? with
          | none =>
            cases t.perform w (forced c.gate ins) with
            | error failure => rfl
            | ok next => exact ih _
          | some v =>
            dsimp only
            split
            · rfl
            · split
              · rfl
              · cases t.perform w (forced c.gate ins) with
                | error failure => rfl
                | ok next => exact ih _

/-- Rounds make up one long part. -/
theorem followIn_eq (c : Collection) (w : Wiring n) (rounds : Nat) (p : Pursuit n) :
    c.followIn w (rounds + 1) p =
      (c.follow w ((rounds + 1) * Machine.roundLength) p).map (Progress.close .endless) := by
  induction rounds generalizing p with
  | zero =>
    rw [followIn, Nat.zero_add, Nat.one_mul]
    rcases c.follow w Machine.roundLength p with fault | found | q <;> rfl
  | succ rounds ih =>
    rw [followIn, Nat.succ_mul, Nat.add_comm _ Machine.roundLength, follow_add]
    rcases c.follow w Machine.roundLength p with fault | found | q
    · rfl
    · rfl
    · rw [bind_resume_underWay]
      exact ih q

/-- The steps a collection may make: those of its budget, or else more than twice as many as there
are states. -/
def allowance (c : Collection) (m : Machine n) : Nat :=
  match c.budget with
  | some budget => budget.toNat
  | none => Machine.roundsFor (2 * (m.state.count + 1)) * Machine.roundLength

/-- Why a collection stops that has made all the steps it may. -/
def limit (c : Collection) : Stop := if c.budget.isSome then .budget else .endless

/-- The collection from the state of a machine, followed for at most `k` steps. -/
def upTo (c : Collection) (m : Machine n) (k : Nat) : Except Fault (Progress n) :=
  c.follow m.wiring k { state := m.state }

theorem collect_eq (c : Collection) (m : Machine n) :
    c.collect m = (c.upTo m (c.allowance m)).map (Progress.close c.limit) := by
  cases hbudget : c.budget with
  | none =>
    simp only [collect, allowance, limit, hbudget]
    exact followIn_eq c m.wiring _ { state := m.state }
  | some budget =>
    simp only [collect, allowance, limit, hbudget, upTo]
    rcases c.follow m.wiring budget.toNat { state := m.state } with fault | found | p <;> rfl

theorem upTo_add (c : Collection) (m : Machine n) (j k : Nat) :
    c.upTo m (j + k) = c.upTo m j >>= c.resume m.wiring k :=
  follow_add c m.wiring j k _

theorem collected_upTo (c : Collection) (m : Machine n) (k : Nat) :
    c.Collected m.wiring m.state k (c.upTo m k) :=
  collected_follow k _ (Nat.zero_add k) (Pursued.start c m.wiring m.state)

/-! ## Never ending -/

/-- The collection, followed for as many steps as one likes, is still under way. -/
def Unending (c : Collection) (m : Machine n) : Prop := ∀ k, ∃ p, c.upTo m k = .ok (.underWay p)

theorem pursued_of_underWay {k : Nat} {p : Pursuit n} (h : c.upTo m k = .ok (.underWay p)) :
    c.Pursued m.wiring m.state p ∧ p.steps = k := by
  have hcollected := collected_upTo c m k
  rw [h] at hcollected
  cases hcollected with
  | underWay hp hk => exact ⟨hp, hk⟩

/-- A collection follows the forced run as long as that goes on and brings no value that ends it. -/
theorem upTo_of_forcedRun {k : Nat} {vs : List Int} {t : State n}
    (h : m.state.ForcedRun m.wiring c.gate k vs t) (ht : t.halted = false) (hvs : vs.Nodup)
    (hfirst : c.firstOnly = true → vs = []) :
    ∃ p, c.upTo m k = .ok (.underWay p) ∧ p.values.toList = vs ∧ p.state = t := by
  -- Wherever the collection stands before step `k`, the forced run takes another step.
  have hnext : ∀ {p : Pursuit n}, c.Pursued m.wiring m.state p → p.steps < k →
      p.state.halted = false ∧ ∃ v? t', p.state.ForcedStep m.wiring c.gate v? t' ∧
        (p.values.toList ++ v?.toList).Nodup ∧ (c.firstOnly = true → v? = none) := by
    intro p hp hk
    obtain ⟨hh, v?, t', hstep, hprefix⟩ := hp.run.exists_next hk h
    refine ⟨hh, v?, t', hstep, hvs.sublist hprefix.sublist, fun honly => ?_⟩
    rw [hfirst honly, List.prefix_nil, List.append_eq_nil_iff] at hprefix
    simpa using hprefix.2
  have hcollected := collected_upTo c m k
  generalize c.upTo m k = r at hcollected
  cases hcollected with
  | underWay hp hk =>
    subst hk
    exact ⟨_, rfl, hp.run.det h⟩
  | halted hp hk hh =>
    rcases Nat.lt_or_eq_of_le hk with hlt | rfl
    · obtain ⟨hh', -⟩ := hnext hp hlt
      simp [hh] at hh'
    · obtain ⟨-, rfl⟩ := hp.run.det h
      simp [hh] at ht
  | repeated hp hk _ hmeets hv =>
    obtain ⟨-, v?, t', hstep, hnodup, -⟩ := hnext hp hk
    obtain rfl := hmeets.eq_of_forcedStep hstep
    exact absurd rfl ((List.nodup_append.1 hnodup).2.2 _ hv _ (by simp))
  | firstFound hp hk _ hmeets honly =>
    obtain ⟨-, v?, t', hstep, -, hnone⟩ := hnext hp hk
    obtain rfl := hmeets.eq_of_forcedStep hstep
    cases hnone honly
  | crashed hp hk _ hfault =>
    obtain ⟨-, v?, t', hstep, -⟩ := hnext hp hk
    exact absurd hfault hstep.not_forcedFault

theorem unending_of_forcedRun (h : ∀ k, ∃ vs t, m.state.ForcedRun m.wiring c.gate k vs t ∧
    vs.Nodup ∧ (c.firstOnly = true → vs = [])) : c.Unending m := by
  intro k
  obtain ⟨vs, t, hrun, hvs, hfirst⟩ := h k
  obtain ⟨vs', t', hrun', -⟩ := h (k + 1)
  obtain ⟨ht, -⟩ := hrun.exists_next (Nat.lt_succ_self k) hrun'
  obtain ⟨p, hp, -⟩ := upTo_of_forcedRun hrun ht hvs hfirst
  exact ⟨p, hp⟩

/-- A collection under way after twice as many steps as there are states never ends. -/
theorem unending_of_underWay {k : Nat} {p : Pursuit n} (h : c.upTo m k = .ok (.underWay p))
    (hk : 2 * m.state.count < k) : c.Unending m := by
  obtain ⟨hp, rfl⟩ := pursued_of_underWay h
  obtain ⟨i, l, xs, u, hl, hxs, hrun, hlap⟩ := hp.run.exists_quiet_lap hp.nodup hk
  refine unending_of_forcedRun fun k => ?_
  obtain ⟨ys, t, hrun', hys⟩ := hrun.exists_beyond hl hlap k
  have hprefix := hys.trans hxs
  refine ⟨ys, t, hrun', hp.nodup.sublist hprefix.sublist, fun honly => ?_⟩
  rwa [hp.first honly, List.prefix_nil] at hprefix

theorem allowance_of_none (hbudget : c.budget = none) (m : Machine n) :
    2 * m.state.count < c.allowance m := by
  have hrounds := Machine.lt_rounds (2 * (m.state.count + 1))
  simp only [allowance, hbudget]
  omega

/-- If a collection never ends, neither does the forced run, and it comes to its last gate. -/
theorem Unending.exists_forcedRuns (h : c.Unending m) :
    ∃ run, m.state.ForcedRuns m.wiring c.gate run ∧
      {k | (run k).AtGate m.wiring c.gate}.Finite := by
  choose p hp using h
  have hrun : ∀ k, m.state.ForcedRun m.wiring c.gate k (p k).values.toList (p k).state := by
    intro k
    obtain ⟨hk, hsteps⟩ := pursued_of_underWay (hp k)
    have := hk.run
    rwa [hsteps] at this
  have hstep : ∀ k, (p k).state.halted = false ∧
      ∃ v?, (p k).state.ForcedStep m.wiring c.gate v? (p (k + 1)).state ∧
        (p (k + 1)).values.toList = (p k).values.toList ++ v?.toList := by
    intro k
    obtain ⟨ys, hys, hrest⟩ := (hrun k).rest (Nat.le_succ k) (hrun (k + 1))
    rw [Nat.succ_sub (Nat.le_refl k), Nat.sub_self] at hrest
    obtain _ | ⟨hh, hs, hrest⟩ := hrest
    cases hrest
    exact ⟨hh, _, hs, by rw [hys, List.append_nil]⟩
  refine ⟨fun k => (p k).state, ⟨?_, fun k => (hstep k).1, fun k => ?_⟩, ?_⟩
  · exact ((hrun 0).det (.refl _)).2
  · obtain ⟨-, v?, hs, -⟩ := hstep k
    exact hs.forcedNext
  · obtain ⟨hlong, -⟩ := pursued_of_underWay (hp (2 * m.state.count + 1))
    obtain ⟨i, l, xs, u, hl, -, hi, hlap⟩ :=
      (hrun (2 * m.state.count + 1)).exists_quiet_lap hlong.nodup (Nat.lt_succ_self _)
    -- Past step `i` nothing new is compared, so there is no gate.
    refine (Set.finite_lt_nat i).subset fun k hgate => Nat.lt_of_not_le fun hik => ?_
    obtain ⟨-, v?, hs, hvalues⟩ := hstep k
    obtain ⟨v, rfl⟩ := hs.exists_value hgate
    obtain ⟨ys, t, hrun', hys⟩ := hi.exists_beyond hl hlap (k + 1)
    have hall := ((hrun (k + 1)).isPrefix (Nat.le_refl _) hrun').trans hys
    have hsome := (hi.isPrefix hik (hrun k)).length_le
    have := hall.length_le
    rw [hvalues, List.length_append, Option.toList_some, List.length_singleton] at this
    omega

/-- A collection that is done has not run into a limit. -/
theorem stop_of_done {k : Nat} {found : HaltingValues} (h : c.upTo m k = .ok (.done found)) :
    found.stop ≠ .endless ∧ found.stop ≠ .budget := by
  have hcollected := collected_upTo c m k
  rw [h] at hcollected
  cases hcollected <;> exact ⟨nofun, nofun⟩

/-- A collection that stops of itself within its allowance gives what it stops with. -/
theorem collect_of_stopped {r : Except Fault HaltingValues}
    (h : c.upTo m (c.allowance m) = r.map .done) : c.collect m = r := by
  rw [collect_eq, h]
  cases r <;> rfl

/-- A part of a collection stops of itself, and so does any longer one, or it is under way. -/
theorem upTo_add_cases (c : Collection) (m : Machine n) (j k : Nat) :
    (∃ r : Except Fault HaltingValues, c.upTo m j = r.map .done ∧
      c.upTo m (j + k) = r.map .done) ∨
      ∃ p, c.upTo m j = .ok (.underWay p) ∧ c.upTo m (j + k) = c.follow m.wiring k p := by
  rw [upTo_add]
  cases c.upTo m j with
  | error fault => exact .inl ⟨.error fault, rfl, rfl⟩
  | ok r =>
    cases r with
    | done found => exact .inl ⟨.ok found, rfl, rfl⟩
    | underWay p => exact .inr ⟨p, rfl, rfl⟩

theorem collect_eq_endless_iff (hbudget : c.budget = none) :
    (∃ found, c.collect m = .ok found ∧ found.stop = .endless) ↔ c.Unending m := by
  rw [collect_eq]
  constructor
  · rintro ⟨found, hfound, hstop⟩
    obtain ⟨r, hr, rfl⟩ := Except.map_eq_ok_iff.1 hfound
    cases r with
    | done found => exact absurd hstop (stop_of_done hr).1
    | underWay p => exact unending_of_underWay hr (allowance_of_none hbudget m)
  · intro h
    obtain ⟨p, hp⟩ := h (c.allowance m)
    rw [hp]
    exact ⟨_, rfl, by simp [Progress.close, limit, hbudget]⟩

end Collection

theorem haltingValues_of_load {setup : Setup} {c : Collection} {program : Program}
    {registers : Registers n} {m : Machine n}
    (h : Machine.load setup program registers = .ok m) :
    haltingValues setup c program registers = c.collect m := by
  rw [haltingValues, h]
  rfl

/-- A collection without a budget comes to a result or a fault after finitely many steps, unless it
goes on forever; then the forced run never ends, and it comes to its last gate. An endless forced
run with finitely many gates repeats its states from some step on, with no gate among them. -/
theorem collection_ends_or_gateFree {setup : Setup} {c : Collection} {program : Program}
    {registers : Registers n} {m : Machine n}
    (hload : Machine.load setup program registers = .ok m) (hbudget : c.budget = none) :
    ((∃ k r, c.upTo m k = r.map .done ∧ haltingValues setup c program registers = r) ∨
      c.Unending m ∧ ∃ run, m.state.ForcedRuns m.wiring c.gate run ∧
        {k | (run k).AtGate m.wiring c.gate}.Finite) ∧
    ((∃ found, haltingValues setup c program registers = .ok found ∧ found.stop = .endless) ↔
      c.Unending m) ∧
    ∀ run, m.state.ForcedRuns m.wiring c.gate run → {k | (run k).AtGate m.wiring c.gate}.Finite →
      ∃ start length, 0 < length ∧
        ∀ k, start ≤ k → run (k + length) = run k ∧ ¬ (run k).AtGate m.wiring c.gate := by
  simp only [haltingValues_of_load hload]
  refine ⟨?_, Collection.collect_eq_endless_iff hbudget, fun run hrun => hrun.exists_gateFree⟩
  rcases c.upTo_add_cases m (c.allowance m) 0 with ⟨r, hend, -⟩ | ⟨p, hp, -⟩
  · exact .inl ⟨_, r, hend, Collection.collect_of_stopped hend⟩
  · have hunending := Collection.unending_of_underWay hp (Collection.allowance_of_none hbudget m)
    exact .inr ⟨hunending, hunending.exists_forcedRuns⟩

/-- A gate, and then a jump to itself. -/
def gateOnce : Program := #[⟨.eqrr, 1, 0, 2⟩, ⟨.seti, 0, 0, 3⟩]

/-- The collection meets the gate once and goes round the jump forever. -/
theorem collection_ends_or_gateFree_gateOnce :
    let registers : Registers 4 := #v[0, 5, 0, -1]
    ∃ m, Machine.load { ip := some 3 } gateOnce registers = .ok m ∧
      (∃ found, haltingValues { ip := some 3 } {} gateOnce registers = .ok found ∧
        found.stop = .endless) ∧
      ∃ run, m.state.ForcedRuns m.wiring (some 0) run ∧ ∃ start length, 0 < length ∧
        ∀ k, start ≤ k → run (k + length) = run k ∧ ¬ (run k).AtGate m.wiring (some 0) := by
  intro registers
  let w : Wiring 4 := ⟨some 3, .standard, none⟩
  let start : State 4 := ⟨gateOnce, registers, 0⟩
  let loop : State 4 := ⟨gateOnce, #v[0, 5, 0, 0], 1⟩
  have hload : Machine.load { ip := some 3 } gateOnce registers = .ok ⟨w, start, 0, #[]⟩ := rfl
  have hgate : start.ForcedStep w (some 0) (some 5) loop :=
    ⟨_, _, ⟨_, .quiet, _⟩, rfl, rfl, by cbv, rfl⟩
  have hjump : loop.ForcedStep w (some 0) none loop :=
    ⟨_, _, ⟨_, .quiet, _⟩, rfl, rfl, by cbv, rfl⟩
  have hrun : start.ForcedRun w (some 0) 1 [5] loop := .step rfl hgate (.refl loop)
  have hlap : loop.ForcedRun w (some 0) 1 [] loop := .step rfl hjump (.refl loop)
  have hunending : Collection.Unending {} ⟨w, start, 0, #[]⟩ := by
    refine Collection.unending_of_forcedRun fun k => ?_
    obtain ⟨ys, t, hk, hys⟩ := hrun.exists_beyond Nat.one_pos hlap k
    exact ⟨ys, t, hk, hys.sublist.nodup (List.nodup_singleton 5), by simp⟩
  obtain ⟨-, hendless, hperiodic⟩ := collection_ends_or_gateFree (c := {}) hload rfl
  obtain ⟨run, hruns, hfinite⟩ := hunending.exists_forcedRuns
  exact ⟨_, hload, hendless.2 hunending, run, hruns, hperiodic run hruns hfinite⟩

end WordMachine

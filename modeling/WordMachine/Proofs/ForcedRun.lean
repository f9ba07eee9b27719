import WordMachine.Halting
import WordMachine.Proofs.Step

/-!
# The run in which every gate fails

`State.ForcedRun w gate k s vs t`: `k` steps lead from `s` to `t` when every gate is made to fail,
and the gates among them compare the values `vs` with the gate register. A collection follows this
run. `Collected c w s limit r` lists the ways in which following it up to step `limit` can go, and
`gathered_collect` says how a whole collection ends.
-/

namespace WordMachine

variable {n : Nat} {w : Wiring n} {gate : Option Int}

/-! ## Gates -/

/-- A gate is an `eqrr` of the gate register and the register returned. -/
theorem gateOperand?_cases {ins : Instruction} {reg : Int}
    (h : gateOperand? gate ins = some reg) :
    ins.op = .eqrr ∧ (gate = some ins.b ∧ reg = ins.a ∨ gate = some ins.a ∧ reg = ins.b) := by
  unfold gateOperand? at h
  split at h
  · next hop =>
    refine ⟨hop, ?_⟩
    split at h
    · next hb => exact .inl ⟨hb, (Option.some.inj h).symm⟩
    · split at h
      · next ha => exact .inr ⟨ha, (Option.some.inj h).symm⟩
      · cases h
  · cases h

/-- Without a gate register there are no gates. -/
theorem exists_gate_of_operand {ins : Instruction} {reg : Int}
    (h : gateOperand? gate ins = some reg) : ∃ g, gate = some g := by
  obtain ⟨-, ⟨hg, -⟩ | ⟨hg, -⟩⟩ := gateOperand?_cases h <;> exact ⟨_, hg⟩

theorem forced_of_gate {ins : Instruction} {reg : Int} (h : gateOperand? gate ins = some reg) :
    forced gate ins = failedGate ins := by
  simp [forced, h]

theorem forced_of_not_gate {ins : Instruction} (h : gateOperand? gate ins = none) :
    forced gate ins = ins := by
  simp [forced, h]

/-! ## Forced runs -/

namespace State

theorem gateValue_eq_none_iff {s : State n} {ins : Instruction} :
    s.gateValue gate ins = .ok none ↔ gateOperand? gate ins = none := by
  unfold gateValue
  split
  · next h => simp [h]
  · next reg h => simp [h, Except.map_eq_ok_iff]

theorem gateValue_eq_some_iff {s : State n} {ins : Instruction} {x : Int} :
    s.gateValue gate ins = .ok (some x) ↔
      ∃ reg, gateOperand? gate ins = some reg ∧ s.registers.read reg = .ok x := by
  unfold gateValue
  split
  · next h => simp [h]
  · next reg h => simp [h, Except.map_eq_ok_iff]

/-- A step of the run in which every gate fails, with the value compared if a gate is executed. -/
def ForcedStep (w : Wiring n) (gate : Option Int) (s : State n) (v? : Option Int) (u : State n) :
    Prop :=
  ∃ t ins next, s.fetch w = .ok (t, ins) ∧ t.gateValue gate ins = .ok v? ∧
    t.perform w (forced gate ins) = .ok next ∧ next.next = u

/-- The next instruction is a gate, and it compares `v`. -/
def Meets (w : Wiring n) (gate : Option Int) (s : State n) (v : Int) : Prop :=
  ∃ t ins, s.fetch w = .ok (t, ins) ∧ t.gateValue gate ins = .ok (some v)

/-- The next step fails, with every gate made to fail. -/
def ForcedFault (w : Wiring n) (gate : Option Int) (s : State n) (fault : Fault) : Prop :=
  (∃ failure, s.fetch w = .error failure ∧ failure.fault = fault) ∨
    ∃ t ins, s.fetch w = .ok (t, ins) ∧ (t.gateValue gate ins = .error fault ∨
      ∃ failure, t.perform w (forced gate ins) = .error failure ∧ failure.fault = fault)

theorem ForcedStep.meets {s u : State n} {v : Int} (h : ForcedStep w gate s (some v) u) :
    s.Meets w gate v := by
  obtain ⟨t, ins, _, hf, hv, -, -⟩ := h
  exact ⟨t, ins, hf, hv⟩

theorem ForcedStep.det {s t u : State n} {v? x? : Option Int} (h1 : ForcedStep w gate s v? t)
    (h2 : ForcedStep w gate s x? u) : v? = x? ∧ t = u := by
  obtain ⟨t1, ins1, next1, hf1, hv1, hp1, rfl⟩ := h1
  obtain ⟨t2, ins2, next2, hf2, hv2, hp2, rfl⟩ := h2
  rw [hf1] at hf2
  cases hf2
  rw [hv1] at hv2
  cases hv2
  rw [hp1] at hp2
  cases hp2
  exact ⟨rfl, rfl⟩

inductive ForcedRun (w : Wiring n) (gate : Option Int) :
    Nat → State n → List Int → State n → Prop where
  | refl (s : State n) : ForcedRun w gate 0 s [] s
  | step {k : Nat} {s t u : State n} {v? : Option Int} {vs : List Int} : s.halted = false →
      s.ForcedStep w gate v? t → ForcedRun w gate k t vs u →
      ForcedRun w gate (k + 1) s (v?.toList ++ vs) u

theorem ForcedRun.snoc {k : Nat} {s t u : State n} {v? : Option Int} {vs : List Int}
    (h : ForcedRun w gate k s vs t) (ht : t.halted = false) (hs : t.ForcedStep w gate v? u) :
    ForcedRun w gate (k + 1) s (vs ++ v?.toList) u := by
  induction h with
  | refl => simpa using ForcedRun.step ht hs (.refl u)
  | step h0 hs0 _ ih =>
    rw [List.append_assoc]
    exact .step h0 hs0 (ih ht hs)

theorem ForcedRun.trans {j k : Nat} {s t u : State n} {vs xs : List Int}
    (h1 : ForcedRun w gate j s vs t) (h2 : ForcedRun w gate k t xs u) :
    ForcedRun w gate (j + k) s (vs ++ xs) u := by
  induction h1 with
  | refl => simpa using h2
  | step hh hs _ ih =>
    rw [Nat.add_right_comm, List.append_assoc]
    exact .step hh hs (ih h2)

/-- The rest of a forced run after one of at most its length from the same start. -/
theorem ForcedRun.rest {j k : Nat} {s t u : State n} {vs xs : List Int} (hjk : j ≤ k)
    (h1 : ForcedRun w gate j s vs t) (h2 : ForcedRun w gate k s xs u) :
    ∃ ys, xs = vs ++ ys ∧ ForcedRun w gate (k - j) t ys u := by
  induction h1 generalizing k xs with
  | refl => exact ⟨xs, rfl, h2⟩
  | step _ hs _ ih =>
    obtain _ | ⟨_, hs', h2⟩ := h2
    · omega
    · obtain ⟨rfl, rfl⟩ := hs.det hs'
      obtain ⟨ys, rfl, hrest⟩ := ih (by omega) h2
      exact ⟨ys, (List.append_assoc ..).symm, by rwa [Nat.add_sub_add_right]⟩

/-- The values compared in fewer steps come first among those compared in more. -/
theorem ForcedRun.isPrefix {j k : Nat} {s t u : State n} {vs xs : List Int} (hjk : j ≤ k)
    (h1 : ForcedRun w gate j s vs t) (h2 : ForcedRun w gate k s xs u) : vs <+: xs := by
  obtain ⟨ys, rfl, -⟩ := h1.rest hjk h2
  exact List.prefix_append vs ys

/-- A forced run passes through a state after each number of steps below its length, and goes on
from there. -/
theorem ForcedRun.exists_step {j k : Nat} {s u : State n} {vs : List Int} (hjk : j < k)
    (h : ForcedRun w gate k s vs u) : ∃ xs t v? t', ForcedRun w gate j s xs t ∧
      t.halted = false ∧ t.ForcedStep w gate v? t' ∧ xs ++ v?.toList <+: vs := by
  induction j generalizing k s vs with
  | zero =>
    obtain _ | ⟨hh, hs, _⟩ := h
    · omega
    · exact ⟨[], _, _, _, .refl _, hh, hs, List.prefix_append _ _⟩
  | succ j ih =>
    obtain _ | ⟨hh, hs, h⟩ := h
    · omega
    · obtain ⟨xs, t, v?, t', hrun, ht, hs', hpre⟩ := ih (by omega) h
      refine ⟨_, t, v?, t', .step hh hs hrun, ht, hs', ?_⟩
      rw [List.append_assoc]
      exact (List.prefix_append_right_inj _).2 hpre

theorem ForcedRun.exists_at {j k : Nat} {s u : State n} {vs : List Int} (hjk : j ≤ k)
    (h : ForcedRun w gate k s vs u) : ∃ xs t, ForcedRun w gate j s xs t ∧ xs <+: vs := by
  rcases Nat.lt_or_eq_of_le hjk with hlt | rfl
  · obtain ⟨xs, t, v?, t', hrun, -, -, hpre⟩ := h.exists_step hlt
    exact ⟨xs, t, hrun, (List.prefix_append _ _).trans hpre⟩
  · exact ⟨vs, u, h, List.prefix_refl vs⟩

/-- In step `k` of the forced run from `s`, with `vs` compared before, a gate compares `v`. -/
def Records (w : Wiring n) (gate : Option Int) (s : State n) (k : Nat) (vs : List Int) (v : Int) :
    Prop :=
  ∃ t, ForcedRun w gate k s vs t ∧ t.halted = false ∧ t.Meets w gate v

/-- Each value that a forced run compares is compared in some step of it. -/
theorem ForcedRun.exists_records {k i : Nat} {s t : State n} {vs : List Int} {v : Int}
    (h : ForcedRun w gate k s vs t) (hv : vs[i]? = some v) :
    ∃ j, s.Records w gate j (vs.take i) v := by
  induction h generalizing i with
  | refl => simp at hv
  | @step k s t u v? vs hh hs _ ih =>
    cases v? with
    | none =>
      obtain ⟨j, t', hrun, ht, hmeets⟩ := ih (by simpa using hv)
      exact ⟨j + 1, t', by simpa using ForcedRun.step hh hs hrun, ht, hmeets⟩
    | some x =>
      cases i with
      | zero =>
        obtain rfl : x = v := by simpa using hv
        exact ⟨0, s, .refl s, hh, hs.meets⟩
      | succ i =>
        obtain ⟨j, t', hrun, ht, hmeets⟩ := ih (by simpa using hv)
        exact ⟨j + 1, t', by simpa using ForcedRun.step hh hs hrun, ht, hmeets⟩

/-- Of two recorded values the one with more values before it is recorded later. -/
theorem Records.lt_of_length_lt {j k : Nat} {s : State n} {vs xs : List Int} {v x : Int}
    (h1 : s.Records w gate j vs v) (h2 : s.Records w gate k xs x) (hlt : vs.length < xs.length) :
    j < k := by
  obtain ⟨t, hrun, -⟩ := h1
  obtain ⟨u, hrun', -⟩ := h2
  refine Nat.lt_of_not_le fun hkj => ?_
  have := (hrun'.isPrefix hkj hrun).length_le
  omega

end State

/-! ## Following the forced run -/

namespace Collection

/-- A collection from `s` that has come to `p`: the values met are those that the forced run
compares up to there, all of them different. -/
structure Pursued (c : Collection) (w : Wiring n) (s : State n) (p : Pursuit n) : Prop where
  run : s.ForcedRun w c.gate p.steps p.values.toList p.state
  nodup : p.values.toList.Nodup
  seen : ∀ v, p.seen.contains v = true ↔ v ∈ p.values.toList
  first : c.firstOnly = true → p.values = #[]

theorem Pursued.start (c : Collection) (w : Wiring n) (s : State n) :
    c.Pursued w s { state := s } :=
  ⟨.refl s, List.nodup_nil, by simp, fun _ => rfl⟩

inductive Collected (c : Collection) (w : Wiring n) (s : State n) (limit : Nat) :
    Except Fault (Progress n) → Prop where
  | halted {p : Pursuit n} : c.Pursued w s p → p.steps ≤ limit → p.state.halted = true →
      Collected c w s limit (.ok (.done ⟨p.values, .halted, p.steps⟩))
  | underWay {p : Pursuit n} : c.Pursued w s p → p.steps = limit → p.state.halted = false →
      Collected c w s limit (.ok (.underWay p))
  | repeated {p : Pursuit n} {v : Int} : c.Pursued w s p → p.steps < limit →
      p.state.halted = false → p.state.Meets w c.gate v → v ∈ p.values.toList →
      Collected c w s limit (.ok (.done ⟨p.values, .repeated, p.steps⟩))
  | firstFound {p : Pursuit n} {v : Int} : c.Pursued w s p → p.steps < limit →
      p.state.halted = false → p.state.Meets w c.gate v → c.firstOnly = true →
      Collected c w s limit (.ok (.done ⟨p.values.push v, .firstFound, p.steps⟩))
  | crashed {p : Pursuit n} {fault : Fault} : c.Pursued w s p → p.steps < limit →
      p.state.halted = false → p.state.ForcedFault w c.gate fault →
      Collected c w s limit (.error fault)

theorem Pursued.quiet {c : Collection} {s t : State n} {ins : Instruction} {next : Step n}
    {p : Pursuit n} (hp : c.Pursued w s p) (hh : p.state.halted = false)
    (hf : p.state.fetch w = .ok (t, ins)) (hv : t.gateValue c.gate ins = .ok none)
    (hn : t.perform w (forced c.gate ins) = .ok next) :
    c.Pursued w s ⟨p.seen, p.values, p.steps + 1, next.next⟩ := by
  refine ⟨?_, hp.nodup, hp.seen, hp.first⟩
  simpa using hp.run.snoc hh ⟨t, ins, next, hf, hv, hn, rfl⟩

theorem Pursued.record {c : Collection} {s t : State n} {ins : Instruction} {next : Step n}
    {p : Pursuit n} {v : Int} (hp : c.Pursued w s p) (hh : p.state.halted = false)
    (hf : p.state.fetch w = .ok (t, ins)) (hv : t.gateValue c.gate ins = .ok (some v))
    (hn : t.perform w (forced c.gate ins) = .ok next) (hnew : ¬ p.seen.contains v = true)
    (hfirst : ¬ c.firstOnly = true) :
    c.Pursued w s ⟨p.seen.insert v, p.values.push v, p.steps + 1, next.next⟩ := by
  rw [hp.seen] at hnew
  refine ⟨?_, ?_, fun x => ?_, fun h => absurd h hfirst⟩
  · simpa using hp.run.snoc hh ⟨t, ins, next, hf, hv, hn, rfl⟩
  · rw [Array.toList_push, List.nodup_append]
    refine ⟨hp.nodup, by simp, fun x hx y hy hxy => hnew ?_⟩
    rw [← List.mem_singleton.1 hy, ← hxy]
    exact hx
  · rw [Std.HashSet.contains_insert, Bool.or_eq_true, hp.seen, beq_iff_eq, Array.toList_push,
      List.mem_append, List.mem_singleton, or_comm, eq_comm (a := v)]

/-- Following the forced run from a point that the collection has come to. -/
theorem collected_follow {c : Collection} {s : State n} {limit : Nat} :
    ∀ (fuel : Nat) (p : Pursuit n), p.steps + fuel = limit → c.Pursued w s p →
      c.Collected w s limit (c.follow w fuel p)
  | 0, p, hk, hp => by
    rw [follow]
    split
    · next hh => exact .halted hp (Nat.le_of_eq hk) hh
    · next hh => exact .underWay hp hk (by simpa using hh)
  | fuel + 1, ⟨seen, values, steps, u⟩, hk, hp => by
    change steps + (fuel + 1) = limit at hk
    have hlt : steps < limit := by omega
    have hnext : steps + 1 + fuel = limit := by omega
    rw [follow]
    split
    · next hh => exact .halted hp (Nat.le_of_lt hlt) hh
    · next hh =>
      have hh : u.halted = false := by simpa using hh
      split
      · next failure hf => exact .crashed hp hlt hh (.inl ⟨failure, hf, rfl⟩)
      · next t ins hf =>
        split
        · next fault hv => exact .crashed hp hlt hh (.inr ⟨t, ins, hf, .inl hv⟩)
        · next hv =>
          split
          · next failure hn =>
            exact .crashed hp hlt hh (.inr ⟨t, ins, hf, .inr ⟨failure, hn, rfl⟩⟩)
          · next next hn => exact collected_follow fuel _ hnext (hp.quiet hh hf hv hn)
        · next v hv =>
          split
          · next hseen => exact .repeated hp hlt hh ⟨t, ins, hf, hv⟩ ((hp.seen v).1 hseen)
          · next hseen =>
            split
            · next hfirst => exact .firstFound hp hlt hh ⟨t, ins, hf, hv⟩ hfirst
            · next hfirst =>
              split
              · next failure hn =>
                exact .crashed hp hlt hh (.inr ⟨t, ins, hf, .inr ⟨failure, hn, rfl⟩⟩)
              · next next hn =>
                exact collected_follow fuel _ hnext (hp.record hh hf hv hn hseen hfirst)

/-! ## Whole collections -/

inductive Gathered (c : Collection) (w : Wiring n) (s : State n) :
    Except Fault HaltingValues → Prop where
  | done {limit : Nat} {found : HaltingValues} : c.Collected w s limit (.ok (.done found)) →
      Gathered c w s (.ok found)
  | cut {p : Pursuit n} {stop : Stop} : c.Pursued w s p → stop = .budget ∨ stop = .endless →
      Gathered c w s (.ok ⟨p.values, stop, p.steps⟩)
  | crashed {limit : Nat} {fault : Fault} : c.Collected w s limit (.error fault) →
      Gathered c w s (.error fault)

theorem gathered_followIn {c : Collection} {s : State n} :
    ∀ (rounds : Nat) (p : Pursuit n), c.Pursued w s p → c.Gathered w s (c.followIn w rounds p)
  | 0, p, hp => .cut hp (.inr rfl)
  | rounds + 1, p, hp => by
    have hround := collected_follow Machine.roundLength p rfl hp
    rw [followIn]
    split
    · next fault hfault => exact .crashed (hfault ▸ hround)
    · next found hfound => exact .done (hfound ▸ hround)
    · next q hq =>
      rw [hq] at hround
      cases hround with
      | underWay hq => exact gathered_followIn rounds _ hq

theorem gathered_collect (c : Collection) (m : Machine n) :
    c.Gathered m.wiring m.state (c.collect m) := by
  have hstart := Pursued.start c m.wiring m.state
  unfold collect
  split
  · exact gathered_followIn _ _ hstart
  · next budget _ =>
    have hfollow := collected_follow budget.toNat _ (Nat.zero_add _) hstart
    split
    · next fault hfault => exact .crashed (hfault ▸ hfollow)
    · next found hfound => exact .done (hfound ▸ hfollow)
    · next p hp =>
      rw [hp] at hfollow
      cases hfollow with
      | underWay hp => exact .cut hp (.inl rfl)

/-- Every value found is one that the forced run compares in some step, after the values found
before it and no others, and no value is found twice. -/
theorem Gathered.records {c : Collection} {s : State n} {found : HaltingValues}
    (h : c.Gathered w s (.ok found)) : found.values.toList.Nodup ∧
      ∀ i v, found.values[i]? = some v →
        ∃ k, s.Records w c.gate k (found.values.toList.take i) v := by
  have hpursued : ∀ {p : Pursuit n}, c.Pursued w s p → p.values.toList.Nodup ∧
      ∀ i v, p.values[i]? = some v → ∃ k, s.Records w c.gate k (p.values.toList.take i) v :=
    fun hp => ⟨hp.nodup, fun i v hv => hp.run.exists_records (by rwa [Array.getElem?_toList])⟩
  cases h with
  | cut hp _ => exact hpursued hp
  | done h =>
    cases h with
    | halted hp => exact hpursued hp
    | repeated hp => exact hpursued hp
    | @firstFound p v hp _ hh hmeets hfirst =>
      -- Nothing was recorded before, so the value found is the only one.
      have hnone := hp.first hfirst
      have hrun := hp.run
      rw [hnone] at hrun
      simp only [hnone]
      refine ⟨by simp, fun i x hx => ?_⟩
      cases i with
      | zero =>
        obtain rfl : v = x := by simpa using hx
        exact ⟨p.steps, p.state, hrun, hh, hmeets⟩
      | succ i => simp at hx

/-- A collection fails only where the forced run does. -/
theorem Gathered.exists_fault {c : Collection} {s : State n} {fault : Fault}
    (h : c.Gathered w s (.error fault)) : ∃ k vs t, s.ForcedRun w c.gate k vs t ∧
      t.halted = false ∧ t.ForcedFault w c.gate fault := by
  cases h with
  | crashed h =>
    cases h with
    | crashed hp _ hh hfault => exact ⟨_, _, _, hp.run, hh, hfault⟩

end Collection

end WordMachine

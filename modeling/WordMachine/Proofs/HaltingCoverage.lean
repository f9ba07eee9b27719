import WordMachine.Proofs.HaltingSeeds

/-!
# What a collection leaves out

A plain run seeded with `v` first succeeds at the gate where the forced run first compares `v`, and
nowhere if the forced run never does. So the values found by a collection are exactly the seeds that
succeed within its own steps.

A collection stops at the first value that comes twice, which need not be in a state that comes
twice. What the forced run compares later is left out: the values found are all there are just if
the forced run, followed without end, compares no others. That is so if it has come to its end, and
if the state in which the collection stops has come before.
-/

namespace WordMachine

variable {n : Nat} {w : Wiring n}

/-! ## From seeded runs to the forced run -/

namespace State

variable {g : Fin n} {v : Word}

@[simp]
theorem seed_seed (g : Fin n) (u v : Word) (s : State n) : (s.seed g u).seed g v = s.seed g v :=
  congrArg (fun r => State.mk s.program r s.pc) (Vector.set_set ..)

@[simp]
theorem seed_get (g : Fin n) (s : State n) : s.seed g (s.registers.get g) = s :=
  congrArg (fun r => State.mk s.program r s.pc) (Vector.set_getElem_self ..)

/-- The seed does not matter for what is fetched. -/
theorem fetch_of_seed {s t : State n} {ins : Instruction} (hg : w.ip ≠ some g)
    (h : (s.seed g v).fetch w = .ok (t, ins)) :
    ∃ t', s.fetch w = .ok (t', ins) ∧ t = t'.seed g v := by
  have hplain := fetch_seed (v := s.registers.get g) hg h
  rw [seed_seed, seed_get] at hplain
  have hseeded := fetch_seed (v := v) hg hplain
  rw [h] at hseeded
  exact ⟨_, hplain, congrArg Prod.fst (Except.ok.inj hseeded)⟩

theorem exists_gateValue {s : State n} {ins : Instruction} {gate reg : Int}
    (hwithin : ins.Within n)
    (hgate : gateOperand? (some gate) ins = some reg) :
    ∃ x, s.gateValue (some gate) ins = .ok (some x) := by
  obtain ⟨x, hx⟩ := Registers.exists_read (r := s.registers)
    (hwithin.source (mem_sources_of_gate hgate).2)
  exact ⟨x, gateValue_eq_some_iff.2 ⟨reg, hgate, hx⟩⟩

/-- Where a seeded run goes on, so does the forced run. -/
theorem exists_forcedStep {s : State n} {next : Step n} (hp : s.program.GatedBy g)
    (hwithin : ∀ ins ∈ s.program, ins.Within n) (hg : w.ip ≠ some g)
    (h : (s.seed g v).step w = .ok next) : ∃ v? u, s.ForcedStep w (some (g : Int)) v? u := by
  obtain ⟨t, ins, u, event, hfetch, hexecute, -⟩ := step_eq_ok_iff.1 h
  obtain ⟨t', hf, rfl⟩ := fetch_of_seed hg hfetch
  have hmem := fetch_mem hf
  cases hgate : gateOperand? (some (g : Int)) ins with
  | none =>
    have hplain := execute_seed (v := t'.registers.get g) (hp.no_tgl ins hmem)
      (hp.not_mem_sources hmem hgate) (hp.unwritten ins hmem) hexecute
    rw [seed_seed, seed_get, ← forced_of_not_gate hgate] at hplain
    have hperform := perform_eq_ok_iff.2 ⟨_, event, hplain, rfl⟩
    exact ⟨none, _, t', ins, _, hf, gateValue_eq_none_iff.2 hgate, hperform, rfl⟩
  | some reg =>
    obtain ⟨x, hx⟩ := exists_gateValue (s := t') (hwithin ins hmem) hgate
    have halu : ins.op.isAlu = true := by rw [(gateOperand?_cases hgate).1]; rfl
    obtain ⟨i, hi⟩ := Registers.exists_index ((hwithin ins hmem).destination halu)
    have heffect : t'.registers.effect (failedGate ins) = .ok (i, 0) :=
      Registers.effect_failedGate.2 ⟨Registers.index_eq_ok_iff.1 hi, rfl⟩
    rw [← forced_of_gate hgate] at heffect
    have hperform := perform_eq_ok_iff.2 ⟨_, _, execute_of_effect (w := w) heffect, rfl⟩
    exact ⟨some x, _, t', ins, _, hf, hx, hperform, rfl⟩

/-- A gate that succeeds compares the seed. -/
theorem GateWrites.meets {s : State n} (hp : s.program.GatedBy g)
    (hwithin : ∀ ins ∈ s.program, ins.Within n) (hg : w.ip ≠ some g)
    (h : (s.seed g v).GateWrites w (some (g : Int)) 1) : s.Meets w (some (g : Int)) v.toInt := by
  have ⟨t, ins, _, _, hfetch, hgate, _, _⟩ := h
  obtain ⟨t', hf, rfl⟩ := fetch_of_seed hg hfetch
  obtain ⟨reg, hreg⟩ := Option.isSome_iff_exists.1 hgate
  obtain ⟨x, hx⟩ := exists_gateValue (s := t') (hwithin ins (fetch_mem hf)) hreg
  have hmeets : s.Meets w (some (g : Int)) x := ⟨t', ins, hf, hx⟩
  have hwrites := h.det (hmeets.gateWrites hp hwithin hg)
  by_cases heq : x = v.toInt
  · exact heq ▸ hmeets
  · simp [heq] at hwrites

end State

namespace Machine

variable {m : Machine n} {g : Fin n} {v : Word} (hp : m.state.program.GatedBy g)
  (hwithin : ∀ ins ∈ m.state.program, ins.Within n) (hg : m.wiring.ip ≠ some g)
include hp hwithin hg

/-- As long as its gates fail, a seeded run goes along the forced run, which does not compare the
seed. -/
theorem forcedRun_of_shut {k : Nat} {o : List Int} {t : State n}
    (hrun : (m.seeded g v).state.Run m.wiring k o t)
    (hshut : ∀ j < k, ∀ last, (m.seeded g v).runFor j = .ok last →
      ∀ y, last.state.GateWrites m.wiring (some (g : Int)) y → y = 0) {j : Nat} (hj : j ≤ k) :
    ∃ vs u, m.state.ForcedRun m.wiring (some (g : Int)) j vs u ∧ v.toInt ∉ vs := by
  induction j with
  | zero => exact ⟨[], m.state, .refl _, List.not_mem_nil⟩
  | succ j ih =>
    obtain ⟨vs, u, hforced, hv⟩ := ih (by omega)
    obtain ⟨p, hseeded⟩ := hforced.seed hp hg hv
    have hprogram := hforced.program_eq hp.no_tgl
    have hp' : u.program.GatedBy g := hprogram ▸ hp
    have hwithin' : ∀ ins ∈ u.program, ins.Within n := hprogram ▸ hwithin
    -- The seeded run takes another step here, so the forced run does.
    obtain ⟨hh, next, hstep⟩ := hseeded.exists_next (by omega) hrun
    obtain ⟨v?, u', hforced'⟩ := State.exists_forcedStep hp' hwithin' hg hstep
    have hne : v? ≠ some v.toInt := by
      rintro rfl
      have hopen := hforced'.meets.gateWrites (v := v) hp' hwithin' hg
      rw [if_pos rfl] at hopen
      have := hshut j (by omega) _ (runFor_of_run hseeded) 1 hopen
      omega
    refine ⟨_, u', hforced.snoc hh hforced', fun hmem => ?_⟩
    rcases List.mem_append.1 hmem with hmem | hmem
    · exact hv hmem
    · exact hne (by simpa using hmem)

/-- A seeded run first succeeds where the forced run first compares the seed. -/
theorem records_of_opensAt {k : Nat} (h : (m.seeded g v).OpensAt (some (g : Int)) k) :
    ∃ vs, m.state.Records m.wiring (some (g : Int)) k vs v.toInt ∧ v.toInt ∉ vs := by
  obtain ⟨last, hlast, hsteps, hhalted, hopen⟩ := h.opens
  obtain ⟨j, o, t, hrun, rfl, -⟩ := exists_run_of_runFor_ok hlast
  obtain rfl : j = k := by simpa using hsteps
  obtain ⟨vs, u, hforced, hv⟩ := forcedRun_of_shut hp hwithin hg hrun h.shut (Nat.le_refl j)
  obtain ⟨p, hseeded⟩ := hforced.seed hp hg hv
  obtain ⟨-, rfl⟩ := hrun.det hseeded
  have hprogram := hforced.program_eq hp.no_tgl
  exact ⟨vs, ⟨u, hforced, hhalted, hopen.meets (hprogram ▸ hp) (hprogram ▸ hwithin) hg⟩, hv⟩

end Machine

/-! ## Seeds that succeed -/

/-- A gate compares, so it writes 0 or 1. -/
theorem State.GateWrites.eq_zero_or_one {s : State n} {gate : Option Int} {x : Int}
    (h : s.GateWrites w gate x) : x = 0 ∨ x = 1 := by
  obtain ⟨t, ins, i, y, -, hgate, heffect, rfl⟩ := h
  obtain ⟨reg, hreg⟩ := Option.isSome_iff_exists.1 hgate
  obtain ⟨operation, a, b, z, hop, -, -, hz, -, hy⟩ := Registers.effect_eq_ok_iff.1 heffect
  rw [(gateOperand?_cases hreg).1] at hop
  cases hop
  cases hz
  rw [Registers.toInt_of_word hy]
  split
  · exact .inr rfl
  · exact .inl rfl

/-- Some step of the run executes a gate that succeeds. -/
def Machine.Opens (m : Machine n) (gate : Option Int) : Prop :=
  ∃ k last, m.runFor k = .ok last ∧ last.steps = m.steps + k ∧ last.halted = false ∧
    last.state.GateWrites m.wiring gate 1

theorem Machine.opens_iff {m : Machine n} {gate : Option Int} :
    m.Opens gate ↔ ∃ k, m.OpensAt gate k := by
  classical
  refine ⟨fun h => ⟨Nat.find h, Nat.find_spec h, fun j hj last hlast y hy => ?_⟩,
    fun ⟨k, hk⟩ => ⟨k, hk.opens⟩⟩
  refine hy.eq_zero_or_one.resolve_right ?_
  rintro rfl
  -- The run goes on from step `j` to a later gate, so this gate would be an earlier one.
  obtain ⟨last', hlast', hsteps, -⟩ := Nat.find_spec h
  obtain ⟨k, o, t, hrun, rfl, -⟩ := exists_run_of_runFor_ok hlast'
  obtain rfl : k = Nat.find h := by simpa using hsteps
  obtain ⟨p, u, hrun'⟩ : ∃ p u, m.state.Run m.wiring j p u := by
    rw [← Nat.add_sub_of_le (Nat.le_of_lt hj)] at hrun
    obtain ⟨p, -, u, -, hrun', -⟩ := hrun.split
    exact ⟨p, u, hrun'⟩
  rw [runFor_of_run hrun'] at hlast
  obtain rfl := Except.ok.inj hlast
  exact Nat.find_min h hj ⟨_, runFor_of_run hrun', rfl, hrun'.halted_eq_false hj hrun, hy⟩

/-- The run with the gate register `g` set to `v` executes a gate that succeeds. -/
def SeedSucceeds (setup : Setup) (program : Program) (registers : Registers n) (g v : Int) : Prop :=
  ∃ seeded m, registers.write g v = .ok seeded ∧ Machine.load setup program seeded = .ok m ∧
    m.Opens (some g)

section

variable {setup : Setup} {program : Program} {registers : Registers n} {m : Machine n} {g x : Int}

theorem seedSucceeds_iff : SeedSucceeds setup program registers g x ↔
    ∃ k, SeedOpens setup program registers g x k := by
  constructor
  · rintro ⟨seeded, m, hwrite, hload, hopens⟩
    obtain ⟨k, hk⟩ := Machine.opens_iff.1 hopens
    exact ⟨k, seeded, m, hwrite, hload, hk⟩
  · rintro ⟨k, seeded, m, hwrite, hload, hk⟩
    exact ⟨seeded, m, hwrite, hload, Machine.opens_iff.2 ⟨k, hk⟩⟩

/-- A seed first succeeds where the forced run first compares it. -/
theorem seedOpens_iff_records (hload : Machine.load setup program registers = .ok m)
    (hip : setup.ip ≠ some g) (hprogram : program.GatedBy g) {k : Nat} :
    SeedOpens setup program registers g x k ↔
      ∃ vs, m.state.Records m.wiring (some g) k vs x ∧ x ∉ vs := by
  constructor
  · rintro ⟨seeded, m', hwrite, hload', hopen⟩
    obtain ⟨r, hr, hwrite⟩ := Except.bind_eq_ok_iff.1 hwrite
    obtain ⟨v, hv, hwrite⟩ := Except.bind_eq_ok_iff.1 hwrite
    obtain rfl := Except.ok.inj hwrite
    obtain rfl := Registers.index_eq_ok_iff.1 hr
    obtain rfl := Registers.toInt_of_word hv
    rw [(Machine.load_seeded r v hload).2] at hload'
    obtain rfl := Except.ok.inj hload'
    obtain ⟨hp, hwithin⟩ := Machine.gated_of_load hload hprogram
    exact Machine.records_of_opensAt hp hwithin (Machine.ip_ne_of_load hload hip) hopen
  · rintro ⟨vs, hrecords, hx⟩
    obtain ⟨seeded, m', hwrite, hload', hopen, -⟩ :=
      exists_seeded hload hip hprogram hrecords hx
    exact ⟨seeded, m', hwrite, hload', hopen⟩

end

/-! ## Before and after the stop -/

namespace State

variable {s t : State n} {gate : Option Int} {j k : Nat} {vs xs : List Int} {v : Int}

theorem Meets.eq_of_forcedStep {v? : Option Int} (h : s.Meets w gate v)
    (hs : s.ForcedStep w gate v? t) : v? = some v := by
  obtain ⟨u, ins, hf, hv⟩ := h
  obtain ⟨u', ins', _, hf', hv', -⟩ := hs
  rw [hf] at hf'
  cases hf'
  rw [hv] at hv'
  exact (Except.ok.inj hv').symm

/-- A value that a run compares is compared for a first time in one of its steps. -/
theorem ForcedRun.exists_first (h : ForcedRun w gate k s vs t) (hv : v ∈ vs) :
    ∃ j < k, ∃ xs, s.Records w gate j xs v ∧ v ∉ xs := by
  obtain ⟨j, hj⟩ := h.exists_records (List.getElem?_idxOf hv)
  have hlt : j < k := by
    obtain ⟨u, hrun, -⟩ := hj
    refine Nat.lt_of_not_le fun hkj => ?_
    have hlength := (h.isPrefix hkj hrun).length_le
    have hidx := List.idxOf_lt_length_of_mem hv
    rw [List.length_take] at hlength
    omega
  exact ⟨j, hlt, _, hj, fun hmem => Nat.lt_irrefl _ ((List.mem_take_iff_idxOf_lt hv).1 hmem)⟩

theorem Records.exists_first (h : s.Records w gate k vs v) :
    ∃ j xs, s.Records w gate j xs v ∧ v ∉ xs := by
  by_cases hv : v ∈ vs
  · obtain ⟨t, hrun, -⟩ := h
    obtain ⟨j, -, hj⟩ := hrun.exists_first hv
    exact ⟨j, hj⟩
  · exact ⟨k, vs, h, hv⟩

/-- What is compared in a step of the run is among the values that the run compares. -/
theorem ForcedRun.mem_of_records (h : ForcedRun w gate k s vs t) (hv : s.Records w gate j xs v)
    (hjk : j < k) : v ∈ vs := by
  obtain ⟨u, hrun, -, hmeets⟩ := hv
  obtain ⟨ys, rfl, hrest⟩ := hrun.rest (Nat.le_of_lt hjk) h
  obtain ⟨d, hd⟩ : ∃ d, k - j = d + 1 := ⟨k - j - 1, by omega⟩
  rw [hd] at hrest
  obtain _ | ⟨_, hstep, _⟩ := hrest
  obtain rfl := hmeets.eq_of_forcedStep hstep
  simp

/-- After the run has come to its end nothing is compared. -/
theorem ForcedRun.lt_of_records (h : ForcedRun w gate k s vs t) (ht : t.halted = true)
    (hv : s.Records w gate j xs v) : j < k := by
  obtain ⟨u, hrun, hu, -⟩ := hv
  refine Nat.lt_of_not_le fun hkj => ?_
  obtain ⟨ys, -, hrest⟩ := h.rest hkj hrun
  generalize j - k = d at hrest
  cases hrest with
  | refl => simp [ht] at hu
  | step hh => simp [ht] at hh

/-- A run that comes back to a state compares nothing new from then on. -/
theorem ForcedRun.mem_of_repeat (hjk : j < k) (h1 : ForcedRun w gate j s xs t)
    (h2 : ForcedRun w gate k s vs t) {i : Nat} {ys : List Int} (hv : s.Records w gate i ys v) :
    v ∈ vs := by
  induction i using Nat.strongRecOn generalizing ys with
  | ind i ih =>
    rcases Nat.lt_or_ge i k with hik | hki
    · exact h2.mem_of_records hv hik
    · -- A lap earlier the run was in the same state.
      obtain ⟨u, hrun, hu, hmeets⟩ := hv
      obtain ⟨zs, -, hrest⟩ := h2.rest hki hrun
      exact ih (j + (i - k)) (by omega) ⟨u, h1.trans hrest, hu, hmeets⟩

end State

/-- Where a collection of all values stops without a budget, unless it goes on forever. -/
theorem Collection.forcedRun_of_followIn {c : Collection} {s : State n} {found : HaltingValues}
    (hfirst : c.firstOnly = false) (hreturns : found.stop ≠ .endless) :
    ∀ (rounds : Nat) (p : Pursuit n), c.Pursued w s p → c.followIn w rounds p = .ok found →
      ∃ t, s.ForcedRun w c.gate found.steps found.values.toList t ∧
        (found.stop = .halted → t.halted = true)
  | 0, p, _, h => absurd (by rw [← Except.ok.inj h]) hreturns
  | rounds + 1, p, hp, h => by
    have hround := collected_follow Machine.roundLength p rfl hp
    rw [followIn] at h
    split at h
    · cases h
    · next done hdone =>
      obtain rfl := Except.ok.inj h
      rw [hdone] at hround
      cases hround with
      | halted hq _ ht => exact ⟨_, hq.run, fun _ => ht⟩
      | repeated hq => exact ⟨_, hq.run, fun h => by cases h⟩
      | firstFound _ _ _ _ hfirst' => simp [hfirst] at hfirst'
    · next q hq =>
      rw [hq] at hround
      cases hround with
      | underWay hq => exact forcedRun_of_followIn hfirst hreturns rounds _ hq h

/-- What a collection of all values has found, once it stops of itself: exactly the seeds that
succeed within its steps. These are all the seeds that ever succeed just if the forced run compares
no other values, whether before the stop or after it; so if it has come to its end, and if the state
in which it stops has come before. -/
theorem haltingValues_complete_iff {setup : Setup} {c : Collection} {g : Int} {program : Program}
    {registers : Registers n} {m : Machine n} {found : HaltingValues} (hgate : c.gate = some g)
    (hbudget : c.budget = none) (hfirst : c.firstOnly = false) (hip : setup.ip ≠ some g)
    (hprogram : program.GatedBy g) (hload : Machine.load setup program registers = .ok m)
    (hfound : haltingValues setup c program registers = .ok found)
    (hreturns : found.stop ≠ .endless) :
    (∀ v, v ∈ found.values ↔ ∃ k < found.steps, SeedOpens setup program registers g v k) ∧
    ((∀ v, SeedSucceeds setup program registers g v → v ∈ found.values) ↔
      ∀ k vs v, m.state.Records m.wiring (some g) k vs v → v ∈ found.values) ∧
    (found.stop = .halted → ∀ v, SeedSucceeds setup program registers g v → v ∈ found.values) ∧
    ∀ j vs t, j < found.steps → m.state.ForcedRun m.wiring (some g) j vs t →
      m.state.ForcedRun m.wiring (some g) found.steps found.values.toList t →
      ∀ v, SeedSucceeds setup program registers g v → v ∈ found.values := by
  obtain ⟨_, hload', hcollect⟩ := Except.bind_eq_ok_iff.1 hfound
  obtain rfl := Except.ok.inj (hload.symm.trans hload')
  simp only [Collection.collect, hbudget] at hcollect
  obtain ⟨t, hrun, hend⟩ := Collection.forcedRun_of_followIn hfirst hreturns _ _
    (Collection.Pursued.start c m.wiring m.state) hcollect
  rw [hgate] at hrun
  have hseed : ∀ {v k}, SeedOpens setup program registers g v k ↔
      ∃ vs, m.state.Records m.wiring (some g) k vs v ∧ v ∉ vs :=
    seedOpens_iff_records hload hip hprogram
  have hcomplete : (∀ v, SeedSucceeds setup program registers g v → v ∈ found.values) ↔
      ∀ k vs v, m.state.Records m.wiring (some g) k vs v → v ∈ found.values := by
    constructor
    · intro h k vs v hv
      obtain ⟨j, xs, hfirst⟩ := hv.exists_first
      exact h v (seedSucceeds_iff.2 ⟨j, hseed.2 ⟨xs, hfirst⟩⟩)
    · intro h v hv
      obtain ⟨k, hk⟩ := seedSucceeds_iff.1 hv
      obtain ⟨vs, hrecords, -⟩ := hseed.1 hk
      exact h k vs v hrecords
  refine ⟨fun v => ⟨fun hv => ?_, ?_⟩, hcomplete, fun hhalted => hcomplete.2 ?_,
    fun j vs u hj hu hstop => hcomplete.2 ?_⟩
  · obtain ⟨k, hk, hrecords⟩ := hrun.exists_first (Array.mem_toList_iff.2 hv)
    exact ⟨k, hk, hseed.2 hrecords⟩
  · rintro ⟨k, hk, hopen⟩
    obtain ⟨vs, hrecords, -⟩ := hseed.1 hopen
    exact Array.mem_toList_iff.1 (hrun.mem_of_records hrecords hk)
  · intro k vs v hv
    exact Array.mem_toList_iff.1 (hrun.mem_of_records hv (hrun.lt_of_records (hend hhalted) hv))
  · intro k xs v hv
    exact Array.mem_toList_iff.1 (hu.mem_of_repeat hj hstop hv)

/-- A loop through two gates that compare two registers. -/
def gateLoop : Program := #[⟨.eqrr, 1, 0, 3⟩, ⟨.eqrr, 2, 0, 3⟩, ⟨.seti, -1, 0, 4⟩]

theorem haltingValues_complete_iff_gateLoop :
    let registers : Registers 5 := #v[0, 5, 7, 0, -1]
    gateLoop.GatedBy 0 ∧
      haltingValues { ip := some 4 } {} gateLoop registers = .ok ⟨#[5, 7], .repeated, 3⟩ ∧
      ∀ v, SeedSucceeds { ip := some 4 } gateLoop registers 0 v ↔ v = 5 ∨ v = 7 := by
  intro registers
  let w : Wiring 5 := ⟨some 4, .standard, none⟩
  let start : State 5 := ⟨gateLoop, registers, 0⟩
  let second : State 5 := ⟨gateLoop, #v[0, 5, 7, 0, 0], 1⟩
  let third : State 5 := ⟨gateLoop, #v[0, 5, 7, 0, 1], 2⟩
  have hgated : gateLoop.GatedBy 0 := ⟨by decide, by decide, by decide⟩
  have hload : Machine.load { ip := some 4 } gateLoop registers = .ok ⟨w, start, 0, #[]⟩ := rfl
  have hfound : haltingValues { ip := some 4 } {} gateLoop registers =
      .ok ⟨#[5, 7], .repeated, 3⟩ := by
    cbv
  have hfirst : start.ForcedStep w (some 0) (some 5) second :=
    ⟨_, _, ⟨_, .quiet, _⟩, rfl, rfl, by cbv, rfl⟩
  have hsecond : second.ForcedStep w (some 0) (some 7) third :=
    ⟨_, _, ⟨_, .quiet, _⟩, rfl, rfl, by cbv, rfl⟩
  have hthird : third.ForcedStep w (some 0) none start :=
    ⟨_, _, ⟨_, .quiet, _⟩, rfl, rfl, by cbv, rfl⟩
  have hlap : start.ForcedRun w (some 0) 3 [5, 7] start :=
    .step rfl hfirst (.step rfl hsecond (.step rfl hthird (.refl start)))
  obtain ⟨hvalues, -, -, hcomplete⟩ :=
    haltingValues_complete_iff rfl rfl rfl (by decide) hgated hload hfound (by decide)
  refine ⟨hgated, hfound, fun v => ⟨fun hv => ?_, fun hv => ?_⟩⟩
  · simpa using hcomplete 0 [] start (by decide) (.refl start) hlap v hv
  · obtain ⟨k, -, hk⟩ := (hvalues v).1 (by simpa using hv)
    exact seedSucceeds_iff.2 ⟨k, hk⟩

/-- A loop through two gates that compare the same register and a third that compares another. A
gate that fails leads on to the next, and one that succeeds out of the program. -/
def twinGates : Program :=
  #[⟨.eqrr, 1, 0, 3⟩, ⟨.addr, 3, 4, 4⟩, ⟨.seti, 3, 0, 4⟩, ⟨.seti, 99, 0, 4⟩,
    ⟨.eqrr, 1, 0, 3⟩, ⟨.addr, 3, 4, 4⟩, ⟨.seti, 7, 0, 4⟩, ⟨.seti, 99, 0, 4⟩,
    ⟨.eqrr, 2, 0, 3⟩, ⟨.addr, 3, 4, 4⟩, ⟨.seti, -1, 0, 4⟩, ⟨.seti, 99, 0, 4⟩]

/-- The value of the twins comes twice in different states, and the collection stops before the
third gate, which opens later than the last value found. The program halts on a successful gate
only: with all of them failing it goes round forever, and seeded with 5 or 7 it halts after 3 or 9
steps. -/
theorem haltingValues_incomplete_twinGates :
    let setup : Setup := { ip := some 4 }
    let registers : Registers 5 := #v[0, 5, 7, 0, -1]
    let halts (seed : Word) (steps : Nat) : Prop := ∃ m last,
      Machine.load setup twinGates (registers.assign 0 seed) = .ok m ∧
        m.complete = .halted last ∧ last.steps = steps
    twinGates.GatedBy 0 ∧ ∃ m found, Machine.load setup twinGates registers = .ok m ∧
      m.state.ForcedRun m.wiring (some 0) 9 [5, 5, 7] m.state ∧
      haltingValues setup {} twinGates registers = .ok found ∧ found.stop = .repeated ∧
      SeedSucceeds setup twinGates registers 0 7 ∧ 7 ∉ found.values ∧ found.last? = some 5 ∧
      SeedOpens setup twinGates registers 0 5 0 ∧ SeedOpens setup twinGates registers 0 7 6 ∧
      halts 5 3 ∧ halts 7 9 := by
  intro setup registers halts
  let w : Wiring 5 := ⟨some 4, .standard, none⟩
  let point (pc : Int) (ip : Word) : State 5 := ⟨twinGates, #v[0, 5, 7, 0, ip], pc⟩
  have hgated : twinGates.GatedBy 0 := ⟨by decide, by decide, by decide⟩
  have hload : Machine.load setup twinGates registers = .ok ⟨w, point 0 (-1), 0, #[]⟩ := rfl
  have hfound : haltingValues setup {} twinGates registers = .ok ⟨#[5], .repeated, 3⟩ := by cbv
  have hfirst : (point 0 (-1)).ForcedStep w (some 0) (some 5) (point 1 0) :=
    ⟨_, _, ⟨_, .quiet, _⟩, rfl, rfl, by cbv, rfl⟩
  have hfirst' : (point 1 0).ForcedStep w (some 0) none (point 2 1) :=
    ⟨_, _, ⟨_, .quiet, _⟩, rfl, rfl, by cbv, rfl⟩
  have hon : (point 2 1).ForcedStep w (some 0) none (point 4 3) :=
    ⟨_, _, ⟨_, .quiet, _⟩, rfl, rfl, by cbv, rfl⟩
  have hsecond : (point 4 3).ForcedStep w (some 0) (some 5) (point 5 4) :=
    ⟨_, _, ⟨_, .quiet, _⟩, rfl, rfl, by cbv, rfl⟩
  have hsecond' : (point 5 4).ForcedStep w (some 0) none (point 6 5) :=
    ⟨_, _, ⟨_, .quiet, _⟩, rfl, rfl, by cbv, rfl⟩
  have hon' : (point 6 5).ForcedStep w (some 0) none (point 8 7) :=
    ⟨_, _, ⟨_, .quiet, _⟩, rfl, rfl, by cbv, rfl⟩
  have hthird : (point 8 7).ForcedStep w (some 0) (some 7) (point 9 8) :=
    ⟨_, _, ⟨_, .quiet, _⟩, rfl, rfl, by cbv, rfl⟩
  have hthird' : (point 9 8).ForcedStep w (some 0) none (point 10 9) :=
    ⟨_, _, ⟨_, .quiet, _⟩, rfl, rfl, by cbv, rfl⟩
  have hback : (point 10 9).ForcedStep w (some 0) none (point 0 (-1)) :=
    ⟨_, _, ⟨_, .quiet, _⟩, rfl, rfl, by cbv, rfl⟩
  have htwins : (point 0 (-1)).ForcedRun w (some 0) 6 [5, 5] (point 8 7) :=
    .step rfl hfirst (.step rfl hfirst' (.step rfl hon (.step rfl hsecond
      (.step rfl hsecond' (.step rfl hon' (.refl _))))))
  have hrest : (point 8 7).ForcedRun w (some 0) 3 [7] (point 0 (-1)) :=
    .step rfl hthird (.step rfl hthird' (.step rfl hback (.refl _)))
  have hfive : (point 0 (-1)).Records w (some 0) 0 [] 5 := ⟨_, .refl _, rfl, hfirst.meets⟩
  have hseven : (point 0 (-1)).Records w (some 0) 6 [5, 5] 7 := ⟨_, htwins, rfl, hthird.meets⟩
  have hopensFive : SeedOpens setup twinGates registers 0 5 0 :=
    (seedOpens_iff_records hload (by decide) hgated).2 ⟨_, hfive, by decide⟩
  have hopensSeven : SeedOpens setup twinGates registers 0 7 6 :=
    (seedOpens_iff_records hload (by decide) hgated).2 ⟨_, hseven, by decide⟩
  have hhaltsFive : halts 5 3 :=
    ⟨⟨w, ⟨twinGates, #v[5, 5, 7, 0, -1], 0⟩, 0, #[]⟩,
      ⟨w, ⟨twinGates, #v[5, 5, 7, 1, 99], 100⟩, 3, #[]⟩, rfl, by cbv, rfl⟩
  have hhaltsSeven : halts 7 9 :=
    ⟨⟨w, ⟨twinGates, #v[7, 5, 7, 0, -1], 0⟩, 0, #[]⟩,
      ⟨w, ⟨twinGates, #v[7, 5, 7, 1, 99], 100⟩, 9, #[]⟩, rfl, by cbv, rfl⟩
  exact ⟨hgated, _, _, hload, htwins.trans hrest, hfound, rfl,
    seedSucceeds_iff.2 ⟨6, hopensSeven⟩, by simp, rfl, hopensFive, hopensSeven, hhaltsFive,
    hhaltsSeven⟩

end WordMachine

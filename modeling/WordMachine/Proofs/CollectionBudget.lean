import WordMachine.Proofs.EndlessCollection
import WordMachine.Proofs.Truncation

/-!
# Budgets and the first value only shorten a collection

A collection adds to its values and takes none back. With a smaller budget it gives the same result
as with a larger one, or it stops on the way there after all the steps of its budget, with the first
of the values. A collection that is content with one value stops at the first gate, where the full
one goes on. A value is reported to repeat just if the forced run brings one a second time within
the budget.
-/

namespace WordMachine

variable {n : Nat} {w : Wiring n}

/-- The values found so far. -/
def Progress.values : Progress n → Array Int
  | .done found => found.values
  | .underWay p => p.values

theorem Progress.close_values (stop : Stop) (r : Progress n) :
    (r.close stop).values = r.values := by
  cases r <;> rfl

namespace Collection

variable {c full first : Collection} {m : Machine n} {k : Nat} {p : Pursuit n} {r : Progress n}

/-! ## One part of a collection -/

/-- Following the forced run only adds values. -/
theorem prefix_of_follow (h : c.follow w k p = .ok r) : p.values.toList <+: r.values.toList := by
  fun_induction follow c w k p with
  | case1 p =>
    obtain rfl := Except.ok.inj h
    split <;> exact List.prefix_rfl
  | case2 | case7 =>
    cases h
    exact List.prefix_rfl
  | case3 | case4 | case5 | case9 => cases h
  | case6 _ _ _ _ _ _ _ _ _ _ _ _ ih => exact ih h
  | case8 =>
    cases h
    simp [Progress.values]
  | case10 _ seen values _ _ _ _ _ _ value _ _ _ _ _ ih =>
    have hpush : values.toList <+: (values.push value).toList := by simp
    exact hpush.trans (ih h)

/-- The budget is not looked at while the forced run is followed. -/
theorem follow_congr {c' : Collection} (hgate : c'.gate = c.gate)
    (hfirst : c'.firstOnly = c.firstOnly) (k : Nat) (p : Pursuit n) :
    c'.follow w k p = c.follow w k p := by
  induction k generalizing p with
  | zero => rfl
  | succ k ih => simp only [follow, hgate, hfirst, ih]

/-- Before the first gate it makes no difference whether one value is enough; at the gate the
collection that wants no more is done. -/
theorem follow_first (hgate : first.gate = full.gate) (hfull : full.firstOnly = false)
    (hfirst : first.firstOnly = true) (hseen : ∀ v, p.seen.contains v = false)
    (hvalues : p.values = #[]) (h : full.follow w k p = .ok r) :
    ∃ r', first.follow w k p = .ok r' ∧ r'.values.toList = r.values.toList.take 1 ∧
      ∀ found, r = .done found → ∃ found', r' = .done found' := by
  fun_induction follow full w k p with
  | case1 p =>
    refine ⟨r, by rw [follow, h], ?_, fun found hfound => ⟨found, hfound⟩⟩
    obtain rfl := Except.ok.inj h
    split <;> simp [Progress.values, hvalues]
  | case2 k seen values steps s hh =>
    cases h
    obtain rfl : values = #[] := hvalues
    exact ⟨_, by rw [follow, if_pos hh], rfl, fun found _ => ⟨_, rfl⟩⟩
  | case3 | case4 | case5 | case9 => cases h
  | case6 k seen values steps s hh t ins hf hv next hn ih =>
    obtain ⟨r', hr', hrest⟩ := ih hseen hvalues h
    refine ⟨r', ?_, hrest⟩
    rw [follow, if_neg hh, hf]
    simp only [hgate, hv, hn, hr']
  | case7 k seen values steps s hh t ins hf v hv hmem =>
    rw [hseen v] at hmem
    cases hmem
  | case8 _ _ _ _ _ _ _ _ _ _ _ _ honly => simp [hfull] at honly
  | case10 k seen values steps s hh t ins hf v hv hnew honly next hn ih =>
    obtain rfl : values = #[] := hvalues
    refine ⟨.done ⟨#[v], .firstFound, steps⟩, ?_, ?_, fun found _ => ⟨_, rfl⟩⟩
    · rw [follow, if_neg hh, hf]
      simp only [hgate, hv, hnew, hfirst, if_true]
      rfl
    · obtain ⟨later, hlater⟩ : [v] <+: r.values.toList := prefix_of_follow h
      rw [← hlater]
      rfl

/-! ## Whole collections -/

/-- The budget leaves room for `k` steps. -/
def Allows (c : Collection) (k : Nat) : Prop := ∀ b, c.budget = some b → k ≤ b.toNat

theorem Allows.exists_allowance {b : Int} (hk : c.Allows k) (hbudget : c.budget = some b)
    (m : Machine n) : ∃ extra, c.allowance m = k + extra := by
  have hle := hk b hbudget
  simp only [allowance, hbudget]
  exact Nat.exists_eq_add_of_le hle

theorem collect_of_underWay (h : c.upTo m (c.allowance m) = .ok (.underWay p)) :
    c.collect m = .ok ⟨p.values, c.limit, p.steps⟩ := by
  rw [collect_eq, h]
  rfl

/-- What a collection comes to in the steps it is allowed is what it comes back with. -/
theorem collect_of_upTo {r : Except Fault HaltingValues} (hk : c.Allows k)
    (h : c.upTo m k = r.map .done) : c.collect m = r := by
  have hfar : ∀ extra, c.upTo m (k + extra) = r.map .done := by
    intro extra
    rw [upTo_add, h]
    cases r <;> rfl
  cases hbudget : c.budget with
  | some b =>
    obtain ⟨extra, hextra⟩ := hk.exists_allowance hbudget m
    exact collect_of_stopped (hextra ▸ hfar extra)
  | none =>
    rcases c.upTo_add_cases m (c.allowance m) k with ⟨r', hr', hr''⟩ | ⟨p, hp, -⟩
    · rw [Nat.add_comm, hfar] at hr''
      rw [← hr''] at hr'
      exact collect_of_stopped hr'
    · -- What is under way after all these steps is never done.
      obtain ⟨q, hq⟩ := unending_of_underWay hp (allowance_of_none hbudget m) k
      rw [h] at hq
      cases r <;> cases hq

/-- A collection comes back with what it has found on the way. -/
theorem prefix_of_collect {found : HaltingValues} (hk : c.Allows k)
    (hp : c.upTo m k = .ok (.underWay p)) (h : c.collect m = .ok found)
    (hstop : found.stop ≠ .endless) : p.values.toList <+: found.values.toList := by
  have hfar : ∀ extra, c.upTo m (k + extra) = c.follow m.wiring extra p := by
    intro extra
    rw [upTo_add, hp]
    rfl
  cases hbudget : c.budget with
  | some b =>
    obtain ⟨extra, hextra⟩ := hk.exists_allowance hbudget m
    rw [collect_eq, hextra, hfar] at h
    obtain ⟨r, hr, rfl⟩ := Except.map_eq_ok_iff.1 h
    rw [Progress.close_values]
    exact prefix_of_follow hr
  | none =>
    rcases c.upTo_add_cases m (c.allowance m) k with ⟨r, hr, hr'⟩ | ⟨q, hq, -⟩
    · rw [Nat.add_comm, hfar, ← collect_of_stopped hr, h] at hr'
      exact prefix_of_follow hr'
    · rw [collect_of_underWay hq] at h
      cases h
      simp [limit, hbudget] at hstop

/-- A collection with a smaller budget gives what it gives with a larger one, or it runs out of
steps with the first of the values that it then comes back with. -/
theorem collect_budget_cases {c' : Collection} (hgate : c'.gate = c.gate)
    (hfirst : c'.firstOnly = c.firstOnly) (h : BudgetLe c.budget c'.budget) (m : Machine n) :
    c'.collect m = c.collect m ∨ ∃ p, c.upTo m (c.allowance m) = .ok (.underWay p) ∧
      ∀ found, c'.collect m = .ok found → found.stop ≠ .endless →
        p.values.toList <+: found.values.toList := by
  have hupTo : ∀ k, c'.upTo m k = c.upTo m k := fun k => follow_congr hgate hfirst k _
  cases hbudget : c.budget with
  | none =>
    have hbudget' : c'.budget = none := by
      cases hb : c'.budget with
      | none => rfl
      | some b => simp [BudgetLe, hbudget, hb] at h
    simp only [collect_eq, allowance, limit, hbudget, hbudget', hupTo, true_or]
  | some b =>
    have hallows : c'.Allows (c.allowance m) := by
      intro b' hb'
      simp only [BudgetLe, hbudget, hb'] at h
      simp only [allowance, hbudget]
      omega
    rcases c.upTo_add_cases m (c.allowance m) 0 with ⟨r, hr, -⟩ | ⟨p, hp, -⟩
    · left
      rw [collect_of_stopped hr]
      exact collect_of_upTo hallows (by rw [hupTo, hr])
    · exact .inr ⟨p, hp, fun found => prefix_of_collect hallows (by rw [hupTo, hp])⟩

theorem collect_budget_shortens {c' : Collection} {found found' : HaltingValues}
    (h : c.collect m = .ok found) (h' : c'.collect m = .ok found') (hgate : c'.gate = c.gate)
    (hfirst : c'.firstOnly = c.firstOnly) (hle : BudgetLe c.budget c'.budget)
    (hstop : found'.stop ≠ .endless) : found.values.toList <+: found'.values.toList ∧
      ∀ b, c.budget = some b → (found.steps : Int) < b → found' = found := by
  rcases collect_budget_cases hgate hfirst hle m with heq | ⟨p, hp, hlater⟩
  · rw [h, h'] at heq
    cases heq
    exact ⟨List.prefix_rfl, fun _ _ _ => rfl⟩
  · obtain ⟨-, hsteps⟩ := pursued_of_underWay hp
    rw [collect_of_underWay hp] at h
    cases h
    refine ⟨hlater found' h' hstop, fun b hb hlt => ?_⟩
    -- All the steps of the budget have been made.
    simp only [allowance, hb] at hsteps
    simp only [hsteps] at hlt
    omega

/-- A collection that reports a repetition has come to a gate that compares a value found before. -/
theorem exists_pursued_of_repeated {found : HaltingValues} (h : c.collect m = .ok found)
    (hrepeated : found.repeated = true) : ∃ p v, c.Pursued m.wiring m.state p ∧
      c.Allows (p.steps + 1) ∧ p.state.halted = false ∧ p.state.Meets m.wiring c.gate v ∧
      v ∈ p.values.toList := by
  rw [collect_eq] at h
  obtain ⟨r, hr, rfl⟩ := Except.map_eq_ok_iff.1 h
  have hcollected := collected_upTo c m (c.allowance m)
  rw [hr] at hcollected
  cases hcollected with
  | halted => cases hrepeated
  | firstFound => cases hrepeated
  | underWay =>
    simp only [HaltingValues.repeated, Progress.close, limit] at hrepeated
    split at hrepeated <;> cases hrepeated
  | @repeated p v hp hsteps hh hmeets hv =>
    refine ⟨p, v, hp, fun b hb => ?_, hh, hmeets, hv⟩
    simp only [allowance, hb] at hsteps
    omega

/-- Where one value is enough none is compared twice. -/
theorem repeated_of_firstOnly {found : HaltingValues} (hfirst : c.firstOnly = true)
    (h : c.collect m = .ok found) : found.repeated = false := by
  refine Bool.eq_false_iff.2 fun hrepeated => ?_
  obtain ⟨p, v, hp, -, -, -, hv⟩ := exists_pursued_of_repeated h hrepeated
  simp [hp.first hfirst] at hv

/-- A collection that is content with one value comes back whenever the full one does. -/
theorem collect_first (first : Collection) {found : HaltingValues}
    (h : full.collect m = .ok found) (hstop : found.stop ≠ .endless)
    (hgate : first.gate = full.gate) (hbudget : first.budget = full.budget)
    (hfull : full.firstOnly = false) (hfirst : first.firstOnly = true) :
    ∃ found', first.collect m = .ok found' ∧ found'.stop ≠ .endless ∧
      found'.values.toList = found.values.toList.take 1 ∧ found'.repeated = false := by
  have hallowance : first.allowance m = full.allowance m := by simp only [allowance, hbudget]
  have hlimit : first.limit = full.limit := by simp only [limit, hbudget]
  rw [collect_eq] at h
  obtain ⟨r, hr, rfl⟩ := Except.map_eq_ok_iff.1 h
  obtain ⟨r', hr', hvalues, hdone⟩ := follow_first hgate hfull hfirst (by simp) rfl hr
  have hcollect : first.collect m = .ok (r'.close first.limit) := by
    rw [collect_eq, hallowance, upTo, hr']
    rfl
  refine ⟨_, hcollect, ?_, ?_, repeated_of_firstOnly hfirst hcollect⟩
  · cases r' with
    | done found' => exact (stop_of_done hr').1
    | underWay p' =>
      cases r with
      | done found =>
        obtain ⟨found', hfound'⟩ := hdone found rfl
        cases hfound'
      | underWay p =>
        rw [hlimit]
        exact hstop
  · rw [Progress.close_values, Progress.close_values, hvalues]

end Collection

/-! ## Repeated values -/

/-- Where the forced run compares a value again there is a first step in which it does so: what it
has compared before is all different. -/
theorem State.Records.exists_first_repeat {gate : Option Int} {s : State n} {k : Nat}
    {vs : List Int} {v : Int} (h : s.Records w gate k vs v) (hv : v ∈ vs) :
    ∃ j xs x, j ≤ k ∧ s.Records w gate j xs x ∧ x ∈ xs ∧ xs.Nodup := by
  induction k using Nat.strongRecOn generalizing vs v with
  | ind k ih =>
    by_cases hvs : vs.Nodup
    · exact ⟨k, vs, v, Nat.le_refl k, h, hv, hvs⟩
    · rw [List.nodup_iff_getElem?_ne_getElem?] at hvs
      push Not at hvs
      obtain ⟨i, j, hij, hj, heq⟩ := hvs
      have hx : vs[j]? = some vs[j] := List.getElem?_eq_getElem hj
      have ⟨t, hrun, _⟩ := h
      obtain ⟨l, hl⟩ := hrun.exists_records hx
      have hlk : l < k := hl.lt_of_length_lt h (by simp; omega)
      have hmem : vs[j] ∈ vs.take j := by
        rw [hx] at heq
        exact List.mem_of_getElem? (by rw [List.getElem?_take_of_lt hij, heq])
      obtain ⟨l', xs, x, hle, hrest⟩ := ih l hlk hl hmem
      exact ⟨l', xs, x, by omega, hrest⟩

namespace Collection

variable {c : Collection} {m : Machine n} {k : Nat}

/-- At a gate that compares a value found before a collection of all values stops. -/
theorem upTo_of_repeat {vs : List Int} {v : Int} (hfirst : c.firstOnly = false)
    (h : m.state.Records m.wiring c.gate k vs v) (hv : v ∈ vs) (hvs : vs.Nodup) :
    c.upTo m (k + 1) = .ok (.done ⟨vs.toArray, .repeated, k⟩) := by
  obtain ⟨t, hrun, ht, u, ins, hf, hvalue⟩ := h
  obtain ⟨⟨seen, values, steps, s⟩, hp, rfl, rfl⟩ :=
    upTo_of_forcedRun hrun ht hvs (by simp [hfirst])
  obtain ⟨hpursued, rfl⟩ := pursued_of_underWay hp
  have hseen : seen.contains v = true := (hpursued.seen v).2 hv
  rw [upTo_add, hp, bind_resume_underWay, follow, if_neg (by simp [ht]), hf]
  simp only [hvalue, hseen, if_true, Array.toArray_toList]

/-- A collection of all values reports a repetition just if the forced run compares a value for the
second time within the budget. -/
theorem exists_repeated_iff (hfirst : c.firstOnly = false) :
    (∃ found, c.collect m = .ok found ∧ found.repeated = true) ↔
      ∃ k vs v, c.Allows (k + 1) ∧ m.state.Records m.wiring c.gate k vs v ∧ v ∈ vs := by
  constructor
  · rintro ⟨found, h, hrepeated⟩
    obtain ⟨p, v, hp, hallows, hh, hmeets, hv⟩ := exists_pursued_of_repeated h hrepeated
    exact ⟨p.steps, _, v, hallows, ⟨_, hp.run, hh, hmeets⟩, hv⟩
  · rintro ⟨k, vs, v, hk, h, hv⟩
    obtain ⟨j, xs, x, hjk, hx, hmem, hxs⟩ := h.exists_first_repeat hv
    have hj : c.Allows (j + 1) := fun b hb => (Nat.succ_le_succ hjk).trans (hk b hb)
    exact ⟨_, collect_of_upTo (r := .ok _) hj (upTo_of_repeat hfirst hx hmem hxs), rfl⟩

/-- A collection comes back with `found`: it neither fails nor goes on forever. -/
def Returns (setup : Setup) (c : Collection) (program : Program) (registers : Registers n)
    (found : HaltingValues) : Prop :=
  haltingValues setup c program registers = .ok found ∧ found.stop ≠ .endless

end Collection

/-- The values of a collection are all different. A smaller budget leaves the first of them, and the
same result if some of its steps are left; to be content with one value leaves the first. A
collection of all values reports a repetition just if the forced run compares a value for the second
time within the budget. -/
theorem collection_budget_shortens (setup : Setup) (c : Collection) (program : Program)
    (registers : Registers n) :
    (∀ found, haltingValues setup c program registers = .ok found → found.values.toList.Nodup) ∧
    (∀ budget budget' found found', BudgetLe budget budget' →
      { c with budget := budget }.Returns setup program registers found →
      { c with budget := budget' }.Returns setup program registers found' →
        found.values.toList <+: found'.values.toList ∧
        ∀ b, budget = some b → (found.steps : Int) < b → found' = found) ∧
    (∀ found, { c with firstOnly := false }.Returns setup program registers found →
      ∃ first, { c with firstOnly := true }.Returns setup program registers first ∧
        first.values.toList = found.values.toList.take 1 ∧ first.repeated = false) ∧
    (c.firstOnly = false →
      ((∃ found, haltingValues setup c program registers = .ok found ∧ found.repeated = true) ↔
        ∃ m k vs v, Machine.load setup program registers = .ok m ∧ c.Allows (k + 1) ∧
          m.state.Records m.wiring c.gate k vs v ∧ v ∈ vs)) := by
  cases hload : Machine.load setup program registers with
  | error fault =>
    have hfails : ∀ c', haltingValues setup c' program registers = .error fault := by
      intro c'
      rw [haltingValues, hload]
      rfl
    simp [Collection.Returns, hfails]
  | ok m =>
    simp only [Collection.Returns, haltingValues_of_load hload]
    refine ⟨fun found h => ?_, ?_, ?_, fun hfirst => ?_⟩
    · exact (h ▸ c.gathered_collect m).records.1
    · rintro budget budget' found found' hle ⟨h, -⟩ ⟨h', hstop⟩
      exact Collection.collect_budget_shortens h h' rfl rfl hle hstop
    · rintro found ⟨h, hstop⟩
      obtain ⟨first, hfirst, hstop', hvalues⟩ :=
        Collection.collect_first { c with firstOnly := true } h hstop rfl rfl rfl rfl
      exact ⟨first, ⟨hfirst, hstop'⟩, hvalues⟩
    · rw [Collection.exists_repeated_iff hfirst]
      simp

/-- The two values of the loop, of which one step leaves the first; after three steps a value comes
again, so that nine are as good as no budget. -/
theorem collection_budget_shortens_gateLoop :
    let registers : Registers 5 := #v[0, 5, 7, 0, -1]
    ∃ one nine all, BudgetLe (some 1) none ∧ BudgetLe (some 9) none ∧
      Collection.Returns { ip := some 4 } { budget := some 1 } gateLoop registers one ∧
      Collection.Returns { ip := some 4 } { budget := some 9 } gateLoop registers nine ∧
      Collection.Returns { ip := some 4 } {} gateLoop registers all ∧ all.values.toList.Nodup ∧
      one.values.toList <+: all.values.toList ∧ (nine.steps : Int) < 9 ∧ all = nine ∧
      (∃ first, Collection.Returns { ip := some 4 } { firstOnly := true } gateLoop registers first ∧
        first.values.toList = [5] ∧ first.repeated = false) ∧
      ∃ m k vs v, Machine.load { ip := some 4 } gateLoop registers = .ok m ∧
        m.state.Records m.wiring (some 0) k vs v ∧ v ∈ vs := by
  intro registers
  have hone : haltingValues { ip := some 4 } { budget := some 1 } gateLoop registers =
      .ok ⟨#[5], .budget, 1⟩ := by cbv
  have hnine : haltingValues { ip := some 4 } { budget := some 9 } gateLoop registers =
      .ok ⟨#[5, 7], .repeated, 3⟩ := by cbv
  have hall : haltingValues { ip := some 4 } {} gateLoop registers =
      .ok ⟨#[5, 7], .repeated, 3⟩ := by cbv
  have hone' : Collection.Returns { ip := some 4 } { budget := some 1 } gateLoop registers _ :=
    ⟨hone, by decide⟩
  have hnine' : Collection.Returns { ip := some 4 } { budget := some 9 } gateLoop registers _ :=
    ⟨hnine, by decide⟩
  have hall' : Collection.Returns { ip := some 4 } {} gateLoop registers _ := ⟨hall, by decide⟩
  obtain ⟨hnodup, hbudget, hfirst, hrepeated⟩ :=
    collection_budget_shortens { ip := some 4 } {} gateLoop registers
  obtain ⟨hshort, -⟩ := hbudget (some 1) none _ _ trivial hone' hall'
  obtain ⟨-, hsame⟩ := hbudget (some 9) none _ _ trivial hnine' hall'
  obtain ⟨m, k, vs, v, hload, -, hrecords, hmem⟩ := (hrepeated rfl).1 ⟨_, hall, rfl⟩
  exact ⟨_, _, _, trivial, trivial, hone', hnine', hall', hnodup _ hall, hshort, by decide,
    hsame 9 rfl (by decide), hfirst _ hall', m, k, vs, v, hload, hrecords, hmem⟩

end WordMachine

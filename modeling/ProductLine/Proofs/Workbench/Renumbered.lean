import ProductLine.Proofs.Diagnosis.Renumbered
import ProductLine.Proofs.Workbench.Diagnoses
import ProductLine.Proofs.Workbench.Cancellation

/-! # Work on a workbench that has given out other numbers

An analysis uses up numbers of constraints, and time. Two workbenches that are `Steady` differ in no
more than that, and whatever is diagnosed on the one is explained just the same on the other: a
perturbed model (`perturbed_retells`), a void one (`void_retells`) and a redundant constraint
(`implied_retells`). Whether no product has some values is answered alike, too, for without faults the
engine's answer hangs on nothing but the formulas (`infeasible_affirms`). -/

namespace ProductLine

open Constraint

theorem Oracle.mishap?_mono {settings : Oracle.Settings} {cs ds : List Constraint}
    (hsub : formulas ds ⊆ formulas cs) (h : mishap? settings cs = none) :
    mishap? settings ds = none := by
  have hvars : (ds.flatMap fun d => d.formula.vars) ⊆ cs.flatMap fun c => c.formula.vars := by
    intro name hname
    obtain ⟨d, hd, hmem⟩ := List.mem_flatMap.mp hname
    obtain ⟨c, hc, hsame⟩ := List.mem_map.mp (hsub (List.mem_map_of_mem hd))
    exact List.mem_flatMap.mpr ⟨c, hc, hsame ▸ hmem⟩
  unfold mishap? at h ⊢
  cases hsolver : Settings.solverMishap? settings.solver with
  | some mishap =>
    rw [hsolver] at h
    cases h
  | none =>
    rw [hsolver] at h
    cases hwrite : unwritable? cs with
    | some points =>
      rw [hwrite] at h
      cases h
    | none =>
      rw [hwrite] at h
      have hnone : unwritable? ds = none := by
        unfold unwritable? at hwrite ⊢
        rw [List.findSome?_eq_none_iff] at hwrite ⊢
        exact fun name hname => hwrite name (hvars hname)
      rw [hnone]
      exact h

theorem Oracle.affirms_mono {settings : Oracle.Settings} {cs ds : List Constraint}
    (hsub : formulas ds ⊆ formulas cs) (h : affirms settings cs = true) :
    affirms settings ds = true := by
  unfold affirms at h ⊢
  rw [Bool.or_eq_true] at h ⊢
  rcases h with hnone | hyes
  · left
    rw [List.isEmpty_iff] at hnone ⊢
    rw [hnone] at hsub
    exact List.map_eq_nil_iff.mp (List.subset_nil.mp hsub)
  · right
    cases hmishap : mishap? settings cs with
    | some mishap =>
      unfold solve at hyes
      rw [hmishap] at hyes
      cases hyes
    | none =>
      rw [solve_of_mishap?_eq_none hmishap] at hyes
      rw [solve_of_mishap?_eq_none (mishap?_mono hsub hmishap)]
      exact (Formula.satisfiable_iff _).mpr
        ((Formula.satisfiable_iff _).mp hyes |>.imp fun v hv f hf => hv f (hsub hf))

/-- The engine looks at nothing but which formulas there are. -/
theorem Oracle.affirms_congr (settings : Oracle.Settings) {cs ds : List Constraint}
    (h : ∀ f, f ∈ formulas cs ↔ f ∈ formulas ds) : affirms settings cs = affirms settings ds :=
  Bool.eq_iff_iff.mpr ⟨affirms_mono fun f => (h f).mpr, affirms_mono fun f => (h f).mp⟩

/-- The world apart from the clock and the journal. -/
def World.untimed (w : World) : World := { w with clock := 0, lapses := [], notes := #[] }

namespace Workbench

variable {b b' c c' : Workbench}

/-- The workbench apart from the clock and the journal. -/
def untimed (b : Workbench) : Workbench := { b with world := b.world.untimed }

/-! ### Undisturbed checks -/

/-- Nothing gets in the way of checks: no fault is to come, nothing is called off, and nothing is posted
twice. -/
structure Smooth (b : Workbench) : Prop where
  faults : b.world.faults = []
  idle : b.world.Idle
  posting : b.store.posting.Sound

/-- What diagnoses see of a workbench is kept. -/
structure Kept (b c : Workbench) : Prop where
  store : c.store = b.store
  settings : c.settings = b.settings
  faults : c.world.faults = b.world.faults
  idle : b.world.Idle → c.world.Idle

theorem Smooth.kept (h : Smooth b) (hc : Kept b c) : Smooth c :=
  ⟨hc.faults.trans h.faults, hc.idle h.idle, hc.store ▸ h.posting⟩

theorem kept_noted (b : Workbench) (n : Journal.Note) :
    Kept b { b with world := { b.world with notes := b.world.notes.push n } } :=
  ⟨rfl, rfl, rfl, id⟩

theorem kept_tick (b : Workbench) : Kept b { b with world := b.world.tick } :=
  ⟨rfl, rfl, World.faults_tick _, fun h t ht => h t (World.token_tick _ ▸ ht)⟩

theorem passToken_of_idle (h : b.world.Idle) :
    Work.passToken b = .ok () (b.under (b.world.token.map .check)) ∧
      (b.under (b.world.token.map .check)).world.Idle := by
  refine ⟨Work.passToken_of_permits fun t ht => (h t ht).check.1, ?_⟩
  intro t ht
  obtain ⟨u, hu, rfl⟩ := Option.map_eq_some_iff.mp ht
  exact (h u hu).check

/-- A check that is not called off gives an answer that hangs neither on the clock nor on the journal.
The clock is not read, and what is posted before is posted after it. -/
theorem isConsistent_idle (h : b.world.Idle) (cs : List Constraint) :
    ∃ (answer : Bool) (c : Workbench),
      (b.world.faults = [] → answer = Oracle.affirms b.settings (post [] cs)) ∧
      c.store = b.store.clear.post b.store.posted ∧ c.settings = b.settings ∧
      c.world.faults = b.world.faults ∧ c.world.Idle ∧
      ∀ w, w.untimed = b.world.untimed → ∃ d, Work.isConsistent cs { b with world := w } =
        .ok answer d ∧ d.untimed = c.untimed ∧ d.world.reading = w.reading := by
  have hask : ∀ w, w.untimed = b.world.untimed → Work.isConsistent cs { b with world := w } =
      Work.swapped cs Work.consult ({ b with world := w }.under (b.world.token.map .check)) := by
    intro w hw
    have htoken : w.token = b.world.token := (congrArg World.token hw :)
    have hidle : w.Idle := fun t ht => h t (htoken ▸ ht)
    rw [← htoken]
    exact bind_eq_of_ok (passToken_of_idle (b := { b with world := w }) hidle).1
  have hidle := (passToken_of_idle h).2
  cases cs with
  | nil =>
    refine ⟨true, { b.under (b.world.token.map .check) with
      store := b.store.clear.post b.store.posted }, fun _ => rfl, rfl, rfl, rfl, hidle, fun w hw => ?_⟩
    have hrun := Work.closing_eq_of_ok (fun s => s.clear.post b.store.posted)
      (rfl : (pure true : Work Bool) { { b with world := w }.under (b.world.token.map .check) with
        store := b.store.clear.post [] } = .ok true _) rfl
    rw [hask w hw]
    exact ⟨_, hrun, congrArg (fun v : World => (⟨b.model, b.attached,
      b.store.clear.post b.store.posted, b.edition, b.settings, b.calls, b.failures,
      { v with token := b.world.token.map .check }⟩ : Workbench)) hw,
      funext (World.reading_congr rfl rfl rfl)⟩
  | cons d rest =>
    obtain ⟨answer, o, n, hanswer, -, htold⟩ := Work.swapped_told (List.cons_ne_nil d rest) b
    refine ⟨answer, { (b.under (b.world.token.map .check)).told o n with
      store := b.store.clear.post b.store.posted }, hanswer, rfl, rfl, rfl, hidle, fun w hw => ?_⟩
    have hrun := htold (w.under (b.world.token.map .check)) (congrArg World.faults hw :)
      (congrArg World.calls hw :)
    rw [hask w hw]
    exact ⟨_, hrun, congrArg (fun v : World => (⟨b.model, b.attached,
      b.store.clear.post b.store.posted, b.edition, b.settings, b.calls + 1,
      b.failures ++ o.toList, { v with token := b.world.token.map .check, calls := v.calls + 1 }⟩ :
        Workbench)) hw, funext (World.reading_congr rfl rfl rfl)⟩

/-- Without a fault a check gives the engine's answer, and the clock is not read. -/
theorem isConsistent_smooth (h : Smooth b) (cs : List Constraint) :
    ∃ c, Work.isConsistent cs b = .ok (Oracle.affirms b.settings (post [] cs)) c ∧ Kept b c ∧
      ∀ n, c.world.reading n = b.world.reading n := by
  obtain ⟨answer, c, hanswer, hstore, hsettings, hfaults, hidle, hrun⟩ := isConsistent_idle h.idle cs
  obtain ⟨d, hd, hsame, hread⟩ := hrun b.world rfl
  rw [hanswer h.faults] at hd
  have hback : b.store.clear.post b.store.posted = b.store := Store.clear_post_posted h.posting
  have hworld : d.world.untimed = c.world.untimed := congrArg Workbench.world hsame
  refine ⟨d, hd, ⟨?_, ?_, ?_, fun _ t ht => ?_⟩, congrFun hread⟩
  · exact (congrArg Workbench.store hsame).trans (hstore.trans hback)
  · exact (congrArg Workbench.settings hsame).trans hsettings
  · exact (congrArg World.faults hworld).trans hfaults
  · exact hidle t ((congrArg World.token hworld).symm.trans ht)

/-! ### Two workbenches -/

/-- The second workbench has the same constraints posted as the first one, under other numbers. If time
is bounded, its clock is ahead by the lag. -/
structure Renumbered (ρ : Int → Int) (timed : Bool) (lag : Int) (b b' : Workbench) : Prop where
  settings : b'.settings = b.settings
  cf : b'.store.cf = b.store.cf.map (renumber ρ)
  posted : b'.store.posted = b.store.posted.map (renumber ρ)
  first : b.Smooth
  second : b'.Smooth
  clock : timed = true → ∀ n, b'.world.reading n = b.world.reading n + lag

namespace Renumbered

variable {ρ : Int → Int} {timed : Bool} {lag : Int}

theorem kept (h : Renumbered ρ timed lag b b') (hc : Kept b c) (hc' : Kept b' c')
    (hclock : timed = true → ∀ n, c'.world.reading n = c.world.reading n + lag) :
    Renumbered ρ timed lag c c' := by
  refine ⟨?_, ?_, ?_, h.first.kept hc, h.second.kept hc', hclock⟩
  · rw [hc.settings, hc'.settings, h.settings]
  · rw [hc.store, hc'.store, h.cf]
  · rw [hc.store, hc'.store, h.posted]

theorem candidates (h : Renumbered ρ timed lag b b') (recentFirst : Bool) :
    Anomaly.Analysis.candidates recentFirst b'.store =
      (Anomaly.Analysis.candidates recentFirst b.store).map (renumber ρ) := by
  unfold Anomaly.Analysis.candidates
  rw [h.cf]
  split
  · exact List.map_reverse.symm
  · rfl

theorem background (hρ : Function.Injective ρ) (h : Renumbered ρ timed lag b b') :
    b'.store.background = b.store.background.map (renumber ρ) := by
  unfold Store.background
  rw [h.posted, h.cf, subtract_renumber hρ]

theorem constraintsOf (h : Renumbered ρ timed lag b b') (r : Relationship) :
    b'.store.constraintsOf r = (b.store.constraintsOf r).map (renumber ρ) := by
  unfold Store.constraintsOf
  rw [h.cf, List.filter_map]
  rfl

end Renumbered
end Workbench

namespace Anomaly.Analysis

open Workbench Diagnosis

variable {ρ : Int → Int} {lag : Int} {limits : Limits}

/-! ### Diagnoses -/

/-- The diagnoses have the same explanations and stopped at the same limit. -/
def Retells (all all' : Enumeration) : Prop :=
  explanations all'.diagnoses = explanations all.diagnoses ∧ all'.stopped = all.stopped

theorem Retells.symm {all all' : Enumeration} (h : Retells all all') : Retells all' all :=
  ⟨h.1.symm, h.2.symm⟩

theorem explanations_renumber (diagnoses : List (List Constraint)) :
    explanations (diagnoses.map (List.map (renumber ρ))) = explanations diagnoses := by
  unfold explanations
  rw [List.foldlM_map]
  simp only [explain_renumber]

theorem setting_blind (timed : Bool) (lag : Int) (hρ : Function.Injective ρ) :
    setting.Blind ρ timed lag (Renumbered ρ timed lag) where
  isConsistent cs := by
    intro b b' h a t a' t' hr hr'
    obtain ⟨c, hrun, hkept, hread⟩ := isConsistent_smooth h.first cs
    obtain ⟨c', hrun', hkept', hread'⟩ := isConsistent_smooth h.second (cs.map (renumber ρ))
    cases hrun.symm.trans hr
    cases hrun'.symm.trans hr'
    refine ⟨?_, h.kept hkept hkept' fun htimed n => ?_⟩
    · rw [h.settings]
      apply Oracle.affirms_congr
      intro f
      rw [← formulas_renumber (ρ := ρ) (post [] cs), ← post_renumber hρ]
      rfl
    · rw [hread, hread', h.clock htimed]
  note n n' := .modify fun b b' h => h.kept (kept_noted b n) (kept_noted b' n') fun htimed k => by
    have hunread : ∀ (c : Workbench) n,
        World.reading { c.world with notes := c.world.notes.push n } k = c.world.reading k := by
      intro c n
      apply World.reading_congr <;> rfl
    exact (hunread b' n').trans ((h.clock htimed k).trans (congrArg (· + lag) (hunread b n).symm))
  readClock := by
    rintro b b' h _ _ _ _ ⟨⟩ ⟨⟩
    refine ⟨fun htimed => h.clock htimed 0, ?_⟩
    exact h.kept (kept_tick b) (kept_tick b') fun htimed n => h.clock htimed (n + 1)

theorem diagnose_agree (hρ : Function.Injective ρ) (candidates background : List Constraint) :
    Agree (Renumbered ρ limits.timed lag) (diagnose limits candidates background)
      (diagnose limits (candidates.map (renumber ρ)) (background.map (renumber ρ)))
      fun all all' b b' => Retells all all' ∧ Renumbered ρ limits.timed lag b b' := by
  have he := setting_blind limits.timed lag hρ
  unfold diagnose
  refine .bind (first_agree hρ he.toHeedless candidates background) fun found found' => .assuming ?_
  rintro rfl
  refine .bind (enumerate_agree hρ he found candidates background) fun all all' => .assuming ?_
  rintro ⟨hdiagnoses, hstopped⟩
  have hretells : Retells all all' :=
    ⟨hdiagnoses ▸ explanations_renumber all.diagnoses, hstopped⟩
  rw [hstopped]
  split
  · refine .bind (he.note _ _) fun _ _ => ?_
    exact .pure fun _ _ h => ⟨hretells, h⟩
  · exact .pure fun _ _ h => ⟨hretells, h⟩

/-- Whatever part of the relationships is to be diagnosed, it is so in both stores. -/
theorem diagnose_store_agree (hρ : Function.Injective ρ) (recentFirst : Bool) :
    Agree (Renumbered ρ limits.timed lag)
      (do
        let s := (← get).store
        diagnose limits (candidates recentFirst s) s.background)
      (do
        let s := (← get).store
        diagnose limits (candidates recentFirst s) s.background)
      fun all all' b b' => Retells all all' ∧ Renumbered ρ limits.timed lag b b' := by
  refine .get_bind fun b b' h => ?_
  dsimp only
  rw [h.candidates, h.background hρ]
  exact (diagnose_agree hρ _ _).inStates h

theorem diagnoseVoid_agree (hρ : Function.Injective ρ) (a : Analyzer) (posted : List Constraint) :
    Agree (Renumbered ρ a.limits.timed lag) (diagnoseVoid a posted)
      (diagnoseVoid a (posted.map (renumber ρ))) fun found found' b b' =>
        Option.Rel Retells found found' ∧ Renumbered ρ a.limits.timed lag b b' := by
  have he := setting_blind a.limits.timed lag hρ
  unfold diagnoseVoid
  refine .bind (he.isConsistent posted) fun consistent consistent' => .assuming ?_
  rintro rfl
  split
  · refine .bind (he.note _ _) fun _ _ => ?_
    exact .pure fun _ _ h => ⟨.none, h⟩
  · refine .bind (he.note _ _) fun _ _ => ?_
    refine .get_bind fun b b' h => ?_
    dsimp only
    rw [h.candidates, h.background hρ]
    refine .bind ((diagnose_agree hρ _ _).inStates h) fun all all' => ?_
    exact .pure fun _ _ h => ⟨.some h.1, h.2⟩

theorem diagnoseImplied_agree (hρ : Function.Injective ρ) (a : Analyzer) (r : Relationship) :
    Agree (Renumbered ρ a.limits.timed lag) (diagnoseImplied a r) (diagnoseImplied a r)
      fun found found' b b' =>
        Option.Rel (fun x x' => x'.1 = x.1 ∧ Retells x.2 x'.2) found found' ∧
          Renumbered ρ a.limits.timed lag b b' := by
  have he := setting_blind a.limits.timed lag hρ
  unfold diagnoseImplied
  refine .get_bind fun b b' h => ?_
  rw [h.posted]
  refine .bind ((he.isConsistent _).inStates h) fun consistent consistent' => .assuming ?_
  rintro rfl
  split
  · exact .pure fun _ _ h => ⟨.none, h⟩
  · have hrule : Agree (Renumbered ρ a.limits.timed lag) (orFail r.rule) (orFail r.rule)
        fun rule rule' c c' => rule' = rule ∧ Renumbered ρ a.limits.timed lag c c' :=
      .orFail fun rule rule' h h' _ _ hc => ⟨Except.ok.inj (h'.symm.trans h), hc⟩
    refine .bind hrule fun rule rule' => .assuming ?_
    rintro rfl
    refine .bind (he.note _ _) fun _ _ => ?_
    refine .get_bind fun c c' hc => ?_
    dsimp only
    rw [hc.candidates, hc.background hρ, hc.constraintsOf, subtract_renumber hρ]
    refine .bind ((diagnose_agree hρ _ _).inStates hc) fun all all' => ?_
    exact .pure fun _ _ h => ⟨.some ⟨rfl, h.1⟩, h.2⟩

end Anomaly.Analysis

/-! ### Workbenches of one analysis -/

namespace Workbench

variable {m : FeatureModel} {o : FeatureOrder} {s : Store} {settings : Oracle.Settings} {w : World}
  {b b' c : Workbench} {timed : Bool} {lag : Int}

/-- How a workbench stands in an analysis that nothing disturbs: nothing but tags was put on the model,
nothing but numbers was given out of the store, whose variables may stand in another order, and if time
is bounded, the clock keeps the pace of the world. -/
structure Steady (m : FeatureModel) (s : Store) (settings : Oracle.Settings) (timed : Bool) (w : World)
    (b : Workbench) : Prop where
  alike : m.Alike b.model
  store : ∃ vars n, (∀ name, name ∈ vars ↔ name ∈ s.vars) ∧ s.nextId ≤ n ∧
    b.store = { s with vars := vars, nextId := n }
  settings : b.settings = settings
  faults : b.world.faults = []
  idle : b.world.Idle
  time : timed = true → w.Paces b.world

/-- If time is bounded, the clocks go alike. -/
def Clocked (timed : Bool) (b b' : Workbench) : Prop := timed = true → b.world.InStep b'.world

theorem Renumbered.clocked {ρ : Int → Int} (h : Renumbered ρ timed lag b b') : Clocked timed b b' :=
  fun htimed => ⟨lag, h.clock htimed⟩

theorem Steady.probed (hb : Steady m s settings timed w b) (h : Probed b c) :
    Steady m s settings timed w c := by
  obtain ⟨vars, n, hvars, hn, hstore⟩ := hb.store
  obtain ⟨k, hk, hstore'⟩ := h.store
  refine ⟨h.model ▸ hb.alike, ⟨vars, k, hvars, ?_, ?_⟩, h.settings.trans hb.settings, h.faults.trans hb.faults,
    h.idle hb.idle, fun htimed => (hb.time htimed).later h.time⟩
  · rw [hstore] at hk
    exact Nat.le_trans hn hk
  · rw [hstore', hstore]

theorem Steady.nextId_le (hb : Steady m s settings timed w b) : s.nextId ≤ b.store.nextId := by
  obtain ⟨vars, n, -, hn, hstore⟩ := hb.store
  rw [hstore]
  exact hn

theorem Steady.ac_eq (hb : Steady m s settings timed w b) : b.store.ac = s.ac := by
  obtain ⟨vars, n, -, -, hstore⟩ := hb.store
  rw [hstore]
  rfl

theorem Steady.cf_eq (hb : Steady m s settings timed w b) : b.store.cf = s.cf := by
  obtain ⟨vars, n, -, -, hstore⟩ := hb.store
  rw [hstore]

section made

variable (hs : Store.ofModel m o = .ok s)
include hs

theorem Steady.standing (hb : Steady m s settings timed w b) : Standing m b := by
  obtain ⟨hfaithful, hposting⟩ := Store.faithful_of_attempt hs
  obtain ⟨vars, n, hvars, hn, hstore⟩ := hb.store
  refine ⟨hb.alike, ?_, ?_⟩
  · rw [hstore]
    exact (hfaithful.reordered hvars).numbered hn s.posting
  · rw [hstore]
    exact hposting

theorem Steady.renumbered (hb : Steady m s settings timed w b)
    (hb' : Steady m s settings timed w b')
    (hlag : timed = true → ∀ n, b'.world.reading n = b.world.reading n + lag) (gap : Nat)
    {cs : List Constraint} (hnd : (ids cs).Nodup) (n n' : Nat) :
    Renumbered (shift s.nextId gap) timed lag ((b.numbered n).posting cs)
      ((b'.numbered n').posting (cs.map (renumber (shift s.nextId gap)))) := by
  have hkept : s.cf.map (renumber (shift s.nextId gap)) = s.cf := by
    apply map_shift_of_lt
    intro i hi
    apply (Store.faithful_of_attempt hs).1.ids_lt
    unfold Store.ac
    rw [ids_append]
    exact List.mem_append_left _ hi
  refine ⟨hb'.settings.trans hb.settings.symm, ?_, rfl, ⟨hb.faults, hb.idle, .of_nodup hnd⟩,
    ⟨hb'.faults, hb'.idle, .of_nodup (ids_renumber_nodup shift_injective hnd)⟩, hlag⟩
  show b'.store.cf = b.store.cf.map _
  rw [hb.cf_eq, hb'.cf_eq, hkept]

theorem map_shift_ac (hb : Steady m s settings timed w b) (hb' : Steady m s settings timed w b')
    (gap : Nat) : b.store.ac.map (renumber (shift s.nextId gap)) = b'.store.ac := by
  rw [hb.ac_eq, hb'.ac_eq]
  exact map_shift_of_lt (Store.faithful_of_attempt hs).1.ids_lt

end made
end Workbench

namespace Work

open Workbench Diagnosis Anomaly.Analysis

variable {α β : Type} {m : FeatureModel} {o : FeatureOrder} {s : Store}
  {settings : Oracle.Settings} {timed : Bool} {w : World} {b b' : Workbench} {limits : Limits}

theorem world_closed (p : Prop) [Decidable p] (s : Store) (b : Workbench) :
    (if p then { b with store := s } else b).world = b.world := by
  split <;> rfl

theorem closing_agree {change change' : Store → Store} {pre : Workbench → Workbench → Prop}
    {ρ : Int → Int} {lag : Int} {work work' : Work α} {Q : α → α → Prop}
    (h : Agree pre work work' fun x x' b b' => Q x x' ∧ Renumbered ρ timed lag b b') :
    Agree pre (closing change work) (closing change' work')
      fun x x' b b' => Q x x' ∧ Clocked timed b b' := by
  unfold closing
  refine .get_bind fun b b' hb => (h.inStates hb).always fun _ _ c c' hx => ⟨hx.1, ?_⟩
  unfold Clocked
  rw [world_closed, world_closed]
  exact hx.2.clocked

theorem rel_symm {R : α → α → Prop} (h : ∀ x x', R x x' → R x' x) {found found' : Option α}
    (hfound : Option.Rel R found found') : Option.Rel R found' found := by
  cases hfound with
  | none => exact .none
  | some hx => exact .some (h _ _ hx)

/-- It is enough to compare with a workbench that has given out more numbers. -/
theorem agree_of_le {work : Work α} {Q : α → α → Prop} (hsymm : ∀ x x', Q x x' → Q x' x)
    (h : ∀ {b b'} {lag : Int} {gap : Nat}, Steady m s settings timed w b →
      Steady m s settings timed w b' → b'.store.nextId = b.store.nextId + gap →
      (timed = true → ∀ n, b'.world.reading n = b.world.reading n + lag) →
      Agree (fun c c' => c = b ∧ c' = b') work work
        fun x x' c c' => Q x x' ∧ Clocked timed c c') :
    Agree (fun b b' => (Steady m s settings timed w b ∧ Steady m s settings timed w b') ∧
      Clocked timed b b') work work fun x x' b b' => Q x x' ∧ Clocked timed b b' := by
  have hlag : ∀ {b b'}, Clocked timed b b' →
      ∃ lag, timed = true → ∀ n, b'.world.reading n = b.world.reading n + lag := by
    intro b b' hb
    cases timed with
    | false => exact ⟨0, fun h => absurd h Bool.false_ne_true⟩
    | true => exact (hb rfl).imp fun _ hlag _ => hlag
  refine .ofStates fun b b' ⟨hb, hclocked⟩ => ?_
  rcases Nat.le_total b.store.nextId b'.store.nextId with hle | hle
  · obtain ⟨lag, hclocks⟩ := hlag hclocked
    exact h hb.1 hb.2 (Nat.add_sub_cancel' hle).symm hclocks
  · have hback : Clocked timed b' b := fun htimed => (hclocked htimed).symm
    obtain ⟨lag, hclocks⟩ := hlag hback
    have hagree := (h hb.2 hb.1 (Nat.add_sub_cancel' hle).symm hclocks).symm
    refine (hagree.strengthen fun _ _ hc => hc.symm).weaken fun x x' _ _ hx => ?_
    exact ⟨hsymm x' x hx.1, fun htimed => (hx.2 htimed).symm⟩

/-! ### Perturbed models -/

theorem assignments_shift {first gap n : Nat} (h : first ≤ n) (values : List (String × Bool)) :
    (assignments n values).map (renumber (shift first gap)) = assignments (n + gap) values := by
  induction values generalizing n with
  | nil => rfl
  | cons x rest ih =>
    have hfirst : renumber (shift first gap) ⟨n, .literal x.1 x.2, .assignment, none⟩ =
        ⟨(n + gap : Nat), .literal x.1 x.2, .assignment, none⟩ := by
      unfold renumber
      rw [shift_of_le h]
    unfold assignments
    rw [List.map_cons, hfirst, ih (Nat.le_succ_of_le h), Nat.add_right_comm]

theorem formulas_assignments (n k : Nat) (values : List (String × Bool)) :
    formulas (assignments n values) = formulas (assignments k values) := by
  induction values generalizing n k with
  | nil => rfl
  | cons x rest ih => exact congrArg (_ :: ·) (ih (n + 1) (k + 1))

theorem perturbed_eq {values : List (String × Bool)} {work : List Constraint → Work α}
    (hb : Standing m b) (hvalues : ∀ x ∈ values, x.1 ∈ m.names) :
    (perturbation values >>= fun cs => probe cs work) b =
      closing Store.reset (work (b.perturbed values).store.posted) (b.perturbed values) := by
  have hvars : ∀ x ∈ values, x.1 ∈ b.store.vars := fun x hx =>
    (hb.faithful.mem_vars x.1).mpr (hvalues x hx)
  rw [bind_eq_of_ok (perturbation_eq hvars)]
  exact probe_eq (b := b.numbered values.length) (hb.faithful.ids_assignments_nodup values)

/-- What no product has is what the engine does not affirm. -/
theorem infeasible_affirms (hs : Store.ofModel m o = .ok s) {values : List (String × Bool)}
    (hb : Steady m s settings timed w b) (hvalues : ∀ x ∈ values, x.1 ∈ m.names) :
    Ensures (· = b)
      (perturbation values >>= fun cs => probe cs fun posted => return !(← isConsistent posted))
      (fun found c => (found = !Oracle.affirms settings (s.ac ++ assignments s.nextId values)) ∧
        c.world.reading = b.world.reading) fun _ _ => True := by
  have hstanding := hb.standing hs
  have hnd : (ids (b.perturbed values).store.posted).Nodup :=
    hstanding.faithful.ids_assignments_nodup values
  have hsmooth : (b.perturbed values).Smooth := ⟨hb.faults, hb.idle, .of_nodup hnd⟩
  obtain ⟨c, hrun, -, hread⟩ := isConsistent_smooth hsmooth (b.perturbed values).store.posted
  have hanswer : Oracle.affirms (b.perturbed values).settings
      (post [] (b.perturbed values).store.posted) =
        Oracle.affirms settings (s.ac ++ assignments s.nextId values) := by
    rw [post_nil_of_nodup hnd]
    show Oracle.affirms b.settings (b.store.ac ++ assignments b.store.nextId values) = _
    rw [hb.settings, hb.ac_eq]
    apply Oracle.affirms_congr
    intro f
    unfold formulas
    rw [List.map_append, List.map_append]
    exact Iff.of_eq (congrArg (f ∈ _ ++ ·) (formulas_assignments _ _ values))
  rw [hanswer] at hrun
  rintro _ rfl
  rw [perturbed_eq hstanding hvalues, closing_eq, bind_eq_of_ok hrun]
  refine ⟨rfl, ?_⟩
  rw [world_closed]
  exact funext hread

theorem perturbed_retells (hs : Store.ofModel m o = .ok s) (recentFirst : Bool)
    {values : List (String × Bool)} (hvalues : ∀ x ∈ values, x.1 ∈ m.names) :
    Agree (fun b b' => (Steady m s settings limits.timed w b ∧
        Steady m s settings limits.timed w b') ∧ Clocked limits.timed b b')
      (perturbation values >>= fun cs => probe cs fun _ => do
        let s := (← get).store
        diagnose limits (candidates recentFirst s) s.background)
      (perturbation values >>= fun cs => probe cs fun _ => do
        let s := (← get).store
        diagnose limits (candidates recentFirst s) s.background)
      fun all all' b b' => Retells all all' ∧ Clocked limits.timed b b' := by
  refine agree_of_le (fun _ _ => .symm) ?_
  intro b b' lag gap hb hb' hgap hlag
  have hposted : (b.store.ac ++ assignments b.store.nextId values).map
      (renumber (shift s.nextId gap)) = b'.store.ac ++ assignments b'.store.nextId values := by
    rw [List.map_append, map_shift_ac hs hb hb', assignments_shift hb.nextId_le, hgap]
  have hopened := hb.renumbered hs hb' hlag gap
    ((hb.standing hs).faithful.ids_assignments_nodup values) values.length values.length
  rw [hposted] at hopened
  rintro _ _ ⟨rfl, rfl⟩ all c all' c' hr hr'
  rw [perturbed_eq (hb.standing hs) hvalues] at hr
  rw [perturbed_eq (hb'.standing hs) hvalues] at hr'
  exact closing_agree (diagnose_store_agree shift_injective recentFirst) _ _ hopened all c all' c'
    hr hr'

/-! ### Void models and redundant constraints -/

theorem void_retells (hs : Store.ofModel m o = .ok s) (a : Anomaly.Analyzer) :
    Agree (fun b b' => (Steady m s settings a.limits.timed w b ∧
        Steady m s settings a.limits.timed w b') ∧ Clocked a.limits.timed b b')
      (probe [] (diagnoseVoid a)) (probe [] (diagnoseVoid a))
      fun found found' b b' => Option.Rel Retells found found' ∧ Clocked a.limits.timed b b' := by
  refine agree_of_le (fun _ _ => rel_symm fun _ _ => .symm) ?_
  intro b b' lag gap hb hb' _ hlag
  have hnd : ∀ {c}, Steady m s settings a.limits.timed w c → (ids (c.store.ac ++ [])).Nodup := by
    intro c hc
    rw [List.append_nil]
    exact (hc.standing hs).faithful.ids_nodup
  have hposted : (b.store.ac ++ []).map (renumber (shift s.nextId gap)) = b'.store.ac ++ [] := by
    rw [List.append_nil, List.append_nil]
    exact map_shift_ac hs hb hb' gap
  have hopened := hb.renumbered hs hb' hlag gap (hnd hb) 0 0
  have hagree : Agree (Renumbered (shift s.nextId gap) a.limits.timed lag)
      (diagnoseVoid a (b.store.ac ++ []))
      (diagnoseVoid a ((b.store.ac ++ []).map (renumber (shift s.nextId gap))))
      fun found found' b b' => Option.Rel Retells found found' ∧
        Renumbered (shift s.nextId gap) a.limits.timed lag b b' :=
    diagnoseVoid_agree shift_injective a _
  rw [hposted] at hopened hagree
  rintro _ _ ⟨rfl, rfl⟩ found c found' c' hr hr'
  rw [probe_eq (hnd hb)] at hr
  rw [probe_eq (hnd hb')] at hr'
  exact closing_agree hagree _ _ hopened found c found' c' hr hr'

theorem implied_retells (hs : Store.ofModel m o = .ok s) (a : Anomaly.Analyzer) {r : Relationship}
    (hr : r ∈ m.crossTree) :
    Agree (fun b b' => (Steady m s settings a.limits.timed w b ∧
        Steady m s settings a.limits.timed w b') ∧ Clocked a.limits.timed b b')
      (retracted r fun _ => diagnoseImplied a r) (retracted r fun _ => diagnoseImplied a r)
      fun found found' b b' =>
        Option.Rel (fun x x' => x'.1 = x.1 ∧ Retells x.2 x'.2) found found' ∧
          Clocked a.limits.timed b b' := by
  refine agree_of_le (fun _ _ => rel_symm fun _ _ h => ⟨h.1.symm, h.2.symm⟩) ?_
  intro b b' lag gap hb hb' hgap hlag
  obtain ⟨hkind, x, y, rest, hx, hy, hleft, hright⟩ :=
    (Store.faithful_of_attempt hs).1.crossTree r hr
  have hvars : ∀ {c : Workbench}, Steady m s settings a.limits.timed w c →
      x ∈ c.store.vars ∧ y ∈ c.store.vars := by
    intro c hc
    have hfaithful := (hc.standing hs).faithful
    exact ⟨(hfaithful.mem_vars x).mpr hx, (hfaithful.mem_vars y).mpr hy⟩
  have hopposite : renumber (shift s.nextId gap) (b.opposite r x y) = b'.opposite r x y := by
    unfold Workbench.opposite renumber
    rw [shift_of_le hb.nextId_le, hgap]
  have hopened := hb.renumbered hs hb' hlag gap
    (ids_replaced_nodup (hb.standing hs) r x y) 1 1
  have hgroup : (b.store.constraintsOf r).map (renumber (shift s.nextId gap)) =
      b'.store.constraintsOf r := (hopened.constraintsOf r).symm
  have hposted : (b.replaced r x y).store.posted.map (renumber (shift s.nextId gap)) =
      (b'.replaced r x y).store.posted := by
    show (subtract b.store.ac (b.store.constraintsOf r) ++ [b.opposite r x y]).map _ =
      subtract b'.store.ac (b'.store.constraintsOf r) ++ [b'.opposite r x y]
    rw [List.map_append, ← subtract_renumber shift_injective, map_shift_ac hs hb hb', hgroup,
      List.map_singleton, hopposite]
  rw [hposted] at hopened
  rintro _ _ ⟨rfl, rfl⟩ found c found' c' hrun hrun'
  rw [retracted_eq (hb.standing hs) hkind hleft hright (hvars hb).1 (hvars hb).2] at hrun
  rw [retracted_eq (hb'.standing hs) hkind hleft hright (hvars hb').1 (hvars hb').2] at hrun'
  exact closing_agree (diagnoseImplied_agree shift_injective a r) _ _ hopened found c found' c' hrun
    hrun'

end Work
end ProductLine

import ProductLine.Proofs.Workbench.Booked

/-! # What a check answers when the engine fails

With valid settings, a call of the engine fails if it is `Oracle.Struck`, or if its status is lost and
there is no solution. A check that is not called off always returns, whatever becomes of the call, and
`Work.Settles` its question: its answer is yes exactly if there is nothing to ask or the call is not
struck and the constraints can hold together, one call is booked for it if the engine was asked, one
failure if the call failed, and the store is as before. This is so on every workbench that a program can
come to (`isConsistent_settles`). -/

namespace ProductLine

open Constraint Diagnosis

namespace Oracle

/-- The settings ask for an engine at hand, and set a time limit that it takes, if any. -/
def Settings.Valid (settings : Settings) : Prop :=
  Settings.solverMishap? settings.solver = none ∧ Settings.limitMishap? settings.timeLimit = none

/-- The call is hit by a fault, except for one of the status, or the engine raises an exception because
it cannot write the name of a variable. -/
def Struck (fault : Option Fault) (cs : List Constraint) : Prop :=
  (∃ f, fault = some f ∧ f ≠ .lostStatus) ∨ (unwritable? cs).isSome

/-- The call is struck, or its status is lost where it is asked for. -/
def Fails (fault : Option Fault) (cs : List Constraint) : Prop :=
  Struck fault cs ∨ fault = some .lostStatus ∧ ¬Consistent cs

variable {settings : Settings} {fault : Option Fault} {cs ds : List Constraint}

theorem bind_mishap?_eq_none_iff : fault.bind (Fault.mishap? settings) = none ↔
    ¬∃ f, fault = some f ∧ f ≠ .lostStatus := by
  cases fault with
  | none => exact iff_of_true rfl fun ⟨f, h, _⟩ => nomatch h
  | some f =>
    cases f with
    | lostStatus => exact iff_of_true rfl fun ⟨f, h, hne⟩ => hne (Option.some.inj h).symm
    | refusal => exact iff_of_false nofun fun h => h ⟨_, rfl, nofun⟩
    | breakdown => exact iff_of_false nofun fun h => h ⟨_, rfl, nofun⟩
    | timeout => exact iff_of_false nofun fun h => h ⟨_, rfl, nofun⟩

theorem mishap?_eq_none_iff (hvalid : settings.Valid) :
    mishap? settings cs = none ↔ ¬(unwritable? cs).isSome := by
  unfold mishap?
  rw [hvalid.1, hvalid.2]
  cases unwritable? cs with
  | none => exact iff_of_true rfl Bool.false_ne_true
  | some points => exact iff_of_false nofun fun h => h rfl

theorem solve_of_struck (hvalid : settings.Valid) (h : Struck fault cs) :
    ∃ mishap, solve settings fault cs = .error mishap := by
  unfold solve
  cases hfault : fault.bind (Fault.mishap? settings) with
  | some mishap => exact ⟨mishap, rfl⟩
  | none =>
    have hname := h.resolve_left (bind_mishap?_eq_none_iff.mp hfault)
    cases hmishap : mishap? settings cs with
    | some mishap => exact ⟨mishap, rfl⟩
    | none => exact absurd hname ((mishap?_eq_none_iff hvalid).mp hmishap)

/-- A call that is not struck decides, except that a lost status keeps it from saying no. -/
theorem solve_of_not_struck (hvalid : settings.Valid) (h : ¬Struck fault cs) :
    solve settings fault cs = if Formula.satisfiable (formulas cs) then .ok true
      else if fault = some .lostStatus then .error .statusLost else .ok false := by
  obtain ⟨hfault, hname⟩ := not_or.mp h
  unfold solve
  rw [bind_mishap?_eq_none_iff.mpr hfault, (mishap?_eq_none_iff hvalid).mpr hname]

theorem failure?_eq_some (constraints : Nat) (hvalid : settings.Valid) (h : Fails fault cs) :
    ∃ mishap, failure? constraints (solve settings fault cs) = some ⟨mishap, constraints⟩ := by
  have hsolve : ∃ mishap, solve settings fault cs = .error mishap := by
    by_cases hstruck : Struck fault cs
    · exact solve_of_struck hvalid hstruck
    · obtain ⟨hlost, hnot⟩ := h.resolve_left hstruck
      rw [consistent_iff] at hnot
      rw [solve_of_not_struck hvalid hstruck, if_neg hnot, if_pos hlost]
      exact ⟨_, rfl⟩
  obtain ⟨mishap, hmishap⟩ := hsolve
  exact ⟨mishap, by rw [hmishap]; rfl⟩

theorem failure?_eq_none (constraints : Nat) (hvalid : settings.Valid) (h : ¬Fails fault cs) :
    failure? constraints (solve settings fault cs) = none := by
  obtain ⟨hstruck, hlost⟩ := not_or.mp h
  rw [solve_of_not_struck hvalid hstruck]
  split
  · rfl
  · next hsat =>
    rw [if_neg fun hfault => hlost ⟨hfault, (consistent_iff cs).not.mpr hsat⟩]
    rfl

theorem affirmed_iff (hvalid : settings.Valid) :
    (solve settings fault cs).toOption.getD false = true ↔ Consistent cs ∧ ¬Struck fault cs := by
  by_cases hstruck : Struck fault cs
  · obtain ⟨mishap, hmishap⟩ := solve_of_struck hvalid hstruck
    rw [hmishap]
    exact iff_of_false Bool.false_ne_true fun h => h.2 hstruck
  · rw [solve_of_not_struck hvalid hstruck, consistent_iff, and_iff_left hstruck]
    split
    · next hsat => exact iff_of_true rfl hsat
    · next hsat =>
      refine iff_of_false ?_ hsat
      split <;> exact Bool.false_ne_true

theorem unwritable?_mono (h : (unwritable? ds).isSome = false) (sub : cs ⊆ ds) :
    (unwritable? cs).isSome = false := by
  unfold unwritable? at h ⊢
  rw [Option.isSome_eq_false_iff, Option.isNone_iff_eq_none, List.findSome?_eq_none_iff] at h ⊢
  intro name hname
  obtain ⟨c, hc, hvar⟩ := List.mem_flatMap.mp hname
  exact h name (List.mem_flatMap.mpr ⟨c, sub hc, hvar⟩)

end Oracle

/-- The fault that hits the next call of the engine, if any. -/
def World.fault (w : World) : Option Oracle.Fault := w.faults.lookup (w.calls + 1)

namespace Work

open Workbench

variable {cs ds : List Constraint} {answer : Bool} {b c d : Workbench}

/-- What becomes of a check of constraints, each number of which counts at its first place. -/
structure Settles (cs : List Constraint) (b : Workbench) (answer : Bool) (c : Workbench) : Prop where
  store : c.store = b.store
  answer : answer = true ↔
    cs = [] ∨ Consistent (post [] cs) ∧ ¬Oracle.Struck b.world.fault (post [] cs)
  calls : c.calls = b.calls + if cs = [] then 0 else 1
  failed : cs ≠ [] ∧ Oracle.Fails b.world.fault (post [] cs) →
    ∃ mishap, c.failures = b.failures ++ [⟨mishap, (ids cs).toFinset.card⟩]
  unfailing : ¬(cs ≠ [] ∧ Oracle.Fails b.world.fault (post [] cs)) → c.failures = b.failures

theorem card_ids_post (cs : List Constraint) : (post [] cs).length = (ids cs).toFinset.card := by
  have hsame : (ids (post [] cs)).toFinset = (ids cs).toFinset := by
    ext i
    rw [List.mem_toFinset, List.mem_toFinset, mem_ids_post]
    exact or_iff_right List.not_mem_nil
  rw [← hsame, List.toFinset_card_of_nodup ids_post_nil_nodup]
  exact (List.length_map _).symm

/-- With the same posted as before, nothing is left of the swap but what the engine was asked. -/
theorem swapped_consult (hsound : b.store.posting.Sound) (hcs : cs ≠ []) :
    swapped cs consult b = .ok ((b.reply (post [] cs)).toOption.getD false)
      (b.told (Oracle.failure? (post [] cs).length (b.reply (post [] cs)))
        (.ofReply (b.calls + 1) (post [] cs).length (b.reply (post [] cs)))) := by
  have hposted : post [] cs ≠ [] := post_ne_nil hcs
  have hasked := consult_eq hposted (b.posting (post [] cs))
  have hback : (b.posting (post [] cs)).store.clear.post b.store.posted = b.store :=
    Store.clear_post_posted hsound
  rw [swapped_eq, closing_eq_of_ok _ hasked rfl]
  show EStateM.Result.ok _ { b.told _ _ with
    store := (b.posting (post [] cs)).store.clear.post b.store.posted } = _
  rw [hback]
  rfl

theorem swapped_consult_nil (hsound : b.store.posting.Sound) : swapped [] consult b = .ok true b := by
  have hasked : consult (post [] []) (b.posting (post [] [])) = .ok true (b.posting (post [] [])) := rfl
  have hback : (b.posting (post [] [])).store.clear.post b.store.posted = b.store :=
    Store.clear_post_posted hsound
  rw [swapped_eq, closing_eq_of_ok _ hasked rfl]
  show EStateM.Result.ok _ { b with
    store := (b.posting (post [] [])).store.clear.post b.store.posted } = _
  rw [hback]

theorem isConsistent_returns (hsound : b.store.posting.Sound) (hvalid : b.settings.Valid)
    (hpermits : b.world.Permits) (cs : List Constraint) :
    ∃ answer c, isConsistent cs b = .ok answer c ∧ Settles cs b answer c := by
  unfold isConsistent
  rw [bind_eq_of_ok (passToken_of_permits hpermits)]
  by_cases hcs : cs = []
  · have hrun : swapped [] consult (b.under (b.world.token.map .check)) = _ :=
      swapped_consult_nil hsound
    rw [hcs, hrun]
    refine ⟨_, _, rfl, rfl, iff_of_true rfl (.inl rfl), rfl, ?_, fun _ => rfl⟩
    exact fun h => absurd rfl h.1
  · have hrun : swapped cs consult (b.under (b.world.token.map .check)) = _ :=
      swapped_consult hsound hcs
    rw [hrun]
    refine ⟨_, _, rfl, rfl, ?_, ?_, ?_, ?_⟩
    · rw [or_iff_right hcs]
      exact Oracle.affirmed_iff hvalid
    · rw [if_neg hcs]
      rfl
    · rintro ⟨-, hfails⟩
      obtain ⟨mishap, hmishap⟩ := Oracle.failure?_eq_some (post [] cs).length hvalid hfails
      refine ⟨mishap, ?_⟩
      rw [← card_ids_post]
      exact congrArg (b.failures ++ Option.toList ·) hmishap
    · intro hnot
      have hnone := Oracle.failure?_eq_none (post [] cs).length hvalid fun h => hnot ⟨hcs, h⟩
      exact (congrArg (b.failures ++ Option.toList ·) hnone).trans (List.append_nil _)

/-! ### Without faults -/

/-- Without faults a check says yes exactly if the constraints can hold together and can be written; no
constraints at all can. -/
theorem Settles.answer_iff (h : Settles cs b answer c) (hfaults : b.world.faults = []) :
    answer = true ↔ Consistent (post [] cs) ∧ ¬Oracle.Struck none (post [] cs) := by
  have hnone : b.world.fault = none := by
    unfold World.fault
    rw [hfaults]
    rfl
  rw [h.answer, hnone]
  refine or_iff_right_of_imp ?_
  rintro rfl
  refine ⟨⟨fun _ => true, List.forall_mem_nil _⟩, ?_⟩
  rintro (⟨f, hf, -⟩ | hname)
  · cases hf
  · exact Bool.false_ne_true hname

theorem yes_mono (h : Consistent ds ∧ ¬Oracle.Struck none ds) (sub : cs ⊆ ds) :
    Consistent cs ∧ ¬Oracle.Struck none cs := by
  obtain ⟨hcons, hnot⟩ := h
  refine ⟨hcons.mono sub, ?_⟩
  rintro (⟨f, hf, -⟩ | hname)
  · cases hf
  · have hwritable := Bool.eq_false_iff.mpr fun hds => hnot (.inr hds)
    exact absurd hname (Bool.eq_false_iff.mp (Oracle.unwritable?_mono hwritable sub))

/-- If the constraints are told apart by their numbers, all of them count. -/
theorem mem_post_iff (htold : ∀ x ∈ cs, ∀ y ∈ cs, x.id = y.id → x = y) {x : Constraint} :
    x ∈ post [] cs ↔ x ∈ cs := by
  have hsub : ∀ y ∈ post [] cs, y ∈ cs := fun y hy =>
    (mem_of_mem_post hy).resolve_left List.not_mem_nil
  refine ⟨hsub x, fun hx => ?_⟩
  obtain ⟨y, hy, hid⟩ := mem_ids.mp (mem_ids_post.mpr (.inr (id_mem_ids hx)) : x.id ∈ ids (post [] cs))
  exact htold y (hsub y hy) x hx hid ▸ hy

/-! ### Checks in programs -/

/-- **What a check can be relied on for.** On a store that was made of a model, with valid settings and
whatever faults, whatever a program has done: at most every call has failed. A check that is not called
off returns and settles its question, with what is posted left as it was. Without faults, it says yes
about every part of a set about which it says yes anywhere else, and the same about lists of the same
constraints. -/
theorem isConsistent_settles {m : FeatureModel} {o : FeatureOrder} {s : Store} {α : Type}
    (hs : Store.ofModel m o = .ok s) (hb : b.store = s) (hvalid : b.settings.Valid) (p : Program α)
    (hpoint : Program.Point p b c) :
    c.failures.length + b.calls ≤ b.failures.length + c.calls ∧
    (c.world.Permits → ∀ cs, ∃ answer d, isConsistent cs c = .ok answer d ∧ Settles cs c answer d) ∧
    (b.world.faults = [] → ∀ (β : Type) (q : Program β) (c' : Workbench), Program.Point q b c' →
      c.world.Permits → c'.world.Permits → ∀ cs ds answer answer' d d',
        isConsistent cs c = .ok answer d → isConsistent ds c' = .ok answer' d' →
        (post [] cs ⊆ post [] ds → answer' = true → answer = true) ∧
        ((∀ x ∈ cs, ∀ y ∈ cs, x.id = y.id → x = y) → (∀ x, x ∈ cs ↔ x ∈ ds) → answer = answer')) := by
  obtain ⟨hnd, hholds⟩ := Program.holds_of_ofModel hs hb
  have hreturns : ∀ {γ : Type} {r : Program γ} {e : Workbench}, Program.Point r b e → e.world.Permits →
      ∀ cs, ∃ answer d, isConsistent cs e = .ok answer d ∧ Settles cs e answer d := by
    intro γ r e he hpermits cs
    exact isConsistent_returns (he.holds hnd hholds).intact.sound
      ((point_booked he).settings ▸ hvalid) hpermits cs
  refine ⟨(point_booked hpoint).failures_le, hreturns hpoint, ?_⟩
  intro hfaults β q c' hpoint' hpermits hpermits' cs ds answer answer' d d' hrun hrun'
  obtain ⟨_, _, hr, hsettles⟩ := hreturns hpoint hpermits cs
  cases hrun.symm.trans hr
  obtain ⟨_, _, hr', hsettles'⟩ := hreturns hpoint' hpermits' ds
  cases hrun'.symm.trans hr'
  have hyes := hsettles.answer_iff ((point_booked hpoint).faults.trans hfaults)
  have hyes' := hsettles'.answer_iff ((point_booked hpoint').faults.trans hfaults)
  refine ⟨fun hsub h => hyes.mpr (yes_mono (hyes'.mp h) hsub), fun htold hsame => ?_⟩
  have htold' : ∀ x ∈ ds, ∀ y ∈ ds, x.id = y.id → x = y := fun x hx y hy =>
    htold x ((hsame x).mpr hx) y ((hsame y).mpr hy)
  have hposted : ∀ x, x ∈ post [] cs ↔ x ∈ post [] ds := fun x =>
    (mem_post_iff htold).trans ((hsame x).trans (mem_post_iff htold').symm)
  rw [Bool.eq_iff_iff, hyes, hyes']
  exact ⟨fun h => yes_mono h fun x hx => (hposted x).mpr hx,
    fun h => yes_mono h fun x hx => (hposted x).mp hx⟩

open Program in
/-- The engine runs out of time in the first check of the baseline, which counts as no, and affirms it in
the second one. -/
theorem isConsistent_settles_bench :
    Store.ofModel offered .declared = .ok bench.store ∧ bench.settings.Valid ∧ ∃ c d mishap,
      isConsistent bench.store.ac bench = .ok false c ∧
      isConsistent bench.store.ac c = .ok true d ∧
      d.store = bench.store ∧ d.calls = 2 ∧ d.failures = [⟨mishap, 4⟩] := by
  have hs : Store.ofModel offered .declared = .ok bench.store := rfl
  have hvalid : bench.settings.Valid := ⟨by decide, rfl⟩
  have hne : bench.store.ac ≠ [] := by
    intro hnil
    exact absurd (congrArg List.length hnil) (by decide)
  obtain ⟨-, hreturns, -⟩ := isConsistent_settles hs rfl hvalid (check bench.store.ac) (.before .whole)
  obtain ⟨answer, c, hrun, hsettles⟩ := hreturns (fun _ h => nomatch h) bench.store.ac
  have hstruck : Oracle.Struck bench.world.fault (post [] bench.store.ac) :=
    .inl ⟨.timeout, rfl, nofun⟩
  have hno : answer = false := by
    rw [Bool.eq_false_iff, ne_eq, hsettles.answer]
    exact not_or.mpr ⟨hne, fun h => h.2 hstruck⟩
  obtain ⟨mishap, hfailed⟩ := hsettles.failed ⟨hne, .inl hstruck⟩
  have hc : (check bench.store.ac).leaves bench = c := by
    unfold leaves run
    rw [hrun]
  have hfree : c.world.token = none := by
    rw [← hc]
    decide
  have hfault : c.world.fault = none := by
    rw [← hc]
    decide
  obtain ⟨-, hreturns', -⟩ := isConsistent_settles hs rfl hvalid (check bench.store.ac)
    (hc ▸ .behind .whole : Point (check bench.store.ac) bench c)
  obtain ⟨answer', d, hrun', hsettles'⟩ := hreturns' (fun t h => nomatch hfree.symm.trans h) bench.store.ac
  have hnot : ¬Oracle.Struck c.world.fault (post [] bench.store.ac) := by
    rw [hfault]
    rintro (⟨f, hf, -⟩ | hname)
    · cases hf
    · exact absurd hname (by decide)
  have hcons : Consistent (post [] bench.store.ac) := by
    rw [consistent_iff]
    decide
  have hyes : answer' = true := hsettles'.answer.mpr (.inr ⟨hcons, hnot⟩)
  have hunfailing := hsettles'.unfailing fun h => h.2.elim hnot fun k => k.2 hcons
  have hcalls := hsettles'.calls.trans (congrArg (· + _) hsettles.calls)
  have hcard : (ids bench.store.ac).toFinset.card = 4 := by decide
  rw [if_neg hne] at hcalls
  rw [hcard] at hfailed
  exact ⟨hs, hvalid, c, d, mishap, hno ▸ hrun, hyes ▸ hrun', hsettles'.store.trans hsettles.store,
    hcalls, hunfailing.trans hfailed⟩

end Work
end ProductLine

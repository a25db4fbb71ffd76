import ProductLine.Proofs.Diagnosis.Bounded
import ProductLine.Proofs.Diagnosis.Renumbered
import ProductLine.Proofs.Diagnosis.Unbounded

/-! # Two searches side by side

A search with limits accepts what the one without limits accepts, in the same order, until a limit cuts
it off. This hangs on nothing but the setting being `Clocked`: what is answered may be wrong, as long as
it does not depend on the clock. The searches go in step (`Running`) until the limited one is cut off;
from then on the free one goes on alone (`Pace`). So every search with limits ends whole or cut
(`search_ends`), and limits only cut the enumeration (`enumerate_only_cut`). -/

namespace ProductLine
namespace Diagnosis

open Constraint

variable {σ : Type}

/-- The branches that an enumeration without limits accepts. -/
def branches (e : Setting σ) (found candidates background : List Constraint) (s : σ) : List Branch :=
  if found.isEmpty then []
  else
    match search e Limits.none found candidates background s with
    | .ok r _ => r.accepted
    | .error _ _ => []

/-! ### Settings with a clock -/

/-- In states that are alike the same is done, and they stay alike. They need not agree in what the clock
says at its readings to come, which only a reading changes; nothing fails. -/
structure Setting.Clocked (e : Setting σ) (like : σ → σ → Prop) (clock : σ → Nat → Int) : Prop where
  symm : ∀ {s t}, like s t → like t s
  trans : ∀ {s t u}, like s t → like t u → like s u
  isConsistent : ∀ cs {s t}, like s t → ∃ answer s' t', e.isConsistent cs s = .ok answer s' ∧
    e.isConsistent cs t = .ok answer t' ∧ like s' t' ∧ clock s' = clock s ∧ clock t' = clock t
  note : ∀ n n' {s t}, like s t → ∃ s' t', e.note n s = .ok () s' ∧ e.note n' t = .ok () t' ∧
    like s' t' ∧ clock s' = clock s ∧ clock t' = clock t
  readClock : ∀ {s t}, like s t → ∃ t', e.readClock t = .ok (clock t 0) t' ∧ like s t' ∧
    ∀ k, clock t' k = clock t (k + 1)

namespace Setting.Clocked

variable {e : Setting σ} {like : σ → σ → Prop} {clock : σ → Nat → Int}
variable (he : e.Clocked like clock)
include he

theorem refl_right {s t : σ} (h : like s t) : like t t := he.trans (he.symm h) h

/-- What is asked of constraints is the same in states that are alike, and the clocks stand still. -/
theorem heedless (g g' : Nat → Int) :
    e.Heedless id fun s t => like s t ∧ clock s = g ∧ clock t = g' where
  isConsistent cs := by
    have hcs : cs.map (renumber id) = cs := List.map_id cs
    rw [hcs]
    rintro s t ⟨hlike, rfl, rfl⟩ _ _ _ _ hr hr'
    obtain ⟨answer, s', t', hs, ht, h⟩ := he.isConsistent cs hlike
    cases hs.symm.trans hr
    cases ht.symm.trans hr'
    exact ⟨rfl, h⟩
  note n n' := by
    rintro s t ⟨hlike, rfl, rfl⟩ _ _ _ _ hr hr'
    obtain ⟨s', t', hs, ht, h⟩ := he.note n n' hlike
    cases hs.symm.trans hr
    cases ht.symm.trans hr'
    exact h

theorem first_agree (g g' : Nat → Int) (candidates background : List Constraint) :
    Agree (fun s t => like s t ∧ clock s = g ∧ clock t = g') (first e candidates background)
      (first e candidates background)
      fun found found' s t => found' = found ∧ like s t ∧ clock s = g ∧ clock t = g' := by
  have hsame := Diagnosis.first_agree Function.injective_id (he.heedless g g') candidates background
  have hid : ∀ cs : List Constraint, cs.map (renumber id) = cs := List.map_id
  simp only [hid] at hsame
  exact hsame

theorem stable : e.Stable (fun s => like s s) fun _ _ => False where
  isConsistent cs := by
    intro s hs
    obtain ⟨answer, s', t', hr, hr', hlike, -⟩ := he.isConsistent cs hs
    cases hr.symm.trans hr'
    rw [hr]
    exact hlike
  note n _ := by
    intro s hs
    obtain ⟨s', t', hr, hr', hlike, -⟩ := he.note n n hs
    cases hr.symm.trans hr'
    rw [hr]
    exact hlike
  readClock := by
    intro s hs
    obtain ⟨t, hr, hlike, -⟩ := he.readClock hs
    rw [hr]
    exact he.refl_right hlike

end Setting.Clocked

/-! ### Two searches in step -/

section pace

variable {e : Setting σ} {like : σ → σ → Prop} {clock : σ → Nat → Int} {limits : Limits}
  {background : List Constraint} {readings : Nat → Int} {start : Int} {left : Nat} {a a' : Search}

/-- The two searches are the same so far, with so many looks at the clock left for this level. -/
structure Running (like : σ → σ → Prop) (clock : σ → Nat → Int) (limits : Limits)
    (readings : Nat → Int) (left : Nat) (a a' : Search) (s s' : σ) : Prop where
  same : a' = a
  going : a.stopped = none
  admitted : limits.Admits a.accepted
  like : like s s'
  looked : ∃ n, n + left + looks a.next = looks a.accepted ∧
    (∀ k, 1 ≤ k → k ≤ n → limits.overtime? (readings k - readings 0) = .ok none) ∧
    ∀ j, clock s' j = readings (1 + (if limits.timed then n else 0) + j)

/-- The two searches are the same so far, or the second one was cut off. -/
def Pace (like : σ → σ → Prop) (clock : σ → Nat → Int) (limits : Limits) (readings : Nat → Int)
    (left : Nat) (a a' : Search) (s s' : σ) : Prop :=
  Running like clock limits readings left a a' s s' ∨
    limits.Cut (fun k => readings k - readings 0) a.accepted a'

theorem levels_extends {fuel : Nat} {s t : σ}
    (h : levels e Limits.none start background fuel a s = .ok a' t) :
    a.accepted <+: a'.accepted := by
  have hgrows : Ensures (fun _ => True) (levels e Limits.none start background fuel a)
      (fun r _ => a.accepted <+: r.accepted ∧ True) fun _ _ => True :=
    levels_grows (stable_true e) (fun _ _ _ _ => trivial) fuel List.prefix_rfl
  exact (hgrows.of_eq_ok trivial h).1

/-- A step either goes on in both searches or only in the free one. -/
theorem unlessStopped_pace {α : Type} {step step' : Search → α → EStateM Failure σ Search} {x : α}
    {n : Nat}
    (hgrows : Ensures (fun _ => True) (step a x) (fun t _ => a.accepted <+: t.accepted ∧ True)
      fun _ _ => True)
    (hstep : Agree (Running like clock limits readings n a a) (step a x) (step' a x)
      (Pace like clock limits readings left)) :
    Agree (Pace like clock limits readings n a a') (unlessStopped step a x)
      (unlessStopped step' a' x) (Pace like clock limits readings left) := by
  unfold unlessStopped
  rintro s s' (hrun | hcut) u t u' t' hr hr'
  · obtain rfl := hrun.same
    rw [hrun.going] at hr hr'
    exact hstep s s' hrun u t u' t' hr hr'
  · rw [if_pos hcut.stopped] at hr'
    cases hr'
    refine .inr (hcut.mono ?_)
    split at hr
    · cases hr
      exact List.prefix_rfl
    · exact (hgrows.of_eq_ok trivial hr).1

/-- A run over a list uses up the looks that its items have. -/
theorem foldlM_pace {α : Type} {step step' : Search → α → EStateM Failure σ Search}
    (weight : α → Nat)
    (hstep : ∀ x left a a', Agree (Pace like clock limits readings (weight x + left) a a') (step a x)
      (step' a' x) (Pace like clock limits readings left))
    (l : List α) (left : Nat) (a a' : Search) :
    Agree (Pace like clock limits readings ((l.map weight).sum + left) a a') (l.foldlM step a)
      (l.foldlM step' a') (Pace like clock limits readings left) := by
  induction l generalizing a a' with
  | nil =>
    rw [List.map_nil, List.sum_nil, Nat.zero_add]
    exact .pure fun _ _ => id
  | cons x rest ih =>
    rw [List.map_cons, List.sum_cons, Nat.add_assoc, List.foldlM_cons, List.foldlM_cons]
    exact .bind (hstep x _ a a') fun t t' => ih t t'

theorem search_eq_of_stopped {found candidates : List Constraint} {r : Search} {s t u : σ}
    (hread : e.readClock s = .ok start t)
    (hlevels : levels e limits start background (candidates.length + 2)
      (Search.start found candidates) t = .ok r u) (hstopped : r.stopped.isSome) :
    search e limits found candidates background s = .ok r u := by
  have hnot : r.stopped.isNone = false := by rw [← Option.not_isSome, hstopped, Bool.not_true]
  unfold search
  rw [bind_eq_of_ok hread, bind_eq_of_ok hlevels, hnot]
  rfl

/-- A search that is not cut off reads the clock for a last time and tells how long it took. -/
theorem search_eq_of_going {found candidates : List Constraint} {r : Search} {s t u v w : σ}
    {now seconds : Int} (hread : e.readClock s = .ok start t)
    (hlevels : levels e limits start background (candidates.length + 2)
      (Search.start found candidates) t = .ok r u) (hgoing : r.stopped = none)
    (hlast : e.readClock u = .ok now v) (hseconds : Binary64.roundInt? (now - start) = some seconds)
    (hnote : e.note (.enumerated r.accepted.length seconds) v = .ok () w) :
    search e limits found candidates background s = .ok r w := by
  unfold search
  rw [bind_eq_of_ok hread, bind_eq_of_ok hlevels, hgoing]
  refine (bind_eq_of_ok hlast).trans ?_
  rw [hseconds]
  exact bind_eq_of_ok hnote

variable (he : e.Clocked like clock)
include he

/-- A look at the clock tells whether too much time has passed. In a search that is not limited in time
it leaves the clock alone. -/
theorem overtime_told {n : Nat} {passed : Option Limit} {s s' t' : σ} (hlike : like s s')
    (hclock : ∀ j, clock s' j = readings (1 + (if limits.timed then n else 0) + j))
    (h : overtime e limits (readings 0) s' = .ok passed t') :
    limits.overtime? (readings (n + 1) - readings 0) = .ok passed ∧ like s t' ∧
      ∀ j, clock t' j = readings (1 + (if limits.timed then n + 1 else 0) + j) := by
  unfold overtime at h
  split at h
  · next htimed =>
    obtain ⟨now, t, hread, h⟩ := Ensures.exists_of_bind_eq_ok h
    obtain ⟨t₀, hread₀, hlike₀, hclock₀⟩ := he.readClock hlike
    cases hread₀.symm.trans hread
    rw [htimed] at hclock ⊢
    have hnow : clock s' 0 = readings (n + 1) := by
      rw [hclock]
      exact congrArg readings (by rw [if_pos rfl]; omega)
    rw [hnow] at h
    cases hover : limits.overtime? (readings (n + 1) - readings 0) with
    | error failure =>
      rw [hover] at h
      cases h
    | ok stop =>
      rw [hover] at h
      cases h
      refine ⟨rfl, hlike₀, fun j => ?_⟩
      rw [hclock₀, hclock]
      exact congrArg readings (by rw [if_pos rfl, if_pos rfl]; omega)
  · next huntimed =>
    rw [Bool.not_eq_true] at huntimed
    cases h
    refine ⟨Limits.overtime?_of_untimed huntimed _, hlike, fun j => ?_⟩
    rw [hclock, huntimed]
    rfl

theorem overtime_pace :
    Agree (Running like clock limits readings (left + 1) a a) (overtime e Limits.none start)
      (overtime e limits (readings 0)) fun passed passed' s s' => passed = none ∧
        (passed' = none → Running like clock limits readings left a a s s') ∧
        ∀ limit, passed' = some limit →
          limits.Cut (fun k => readings k - readings 0) a.accepted (a.stopAt limit) := by
  rintro s s' hrun _ _ passed t' ⟨⟩ hr'
  refine ⟨rfl, ?_⟩
  obtain ⟨n, hn, hpassed, hclock⟩ := hrun.looked
  obtain ⟨hover, hlike, hclock'⟩ := overtime_told he hrun.like hclock hr'
  constructor
  · rintro rfl
    refine ⟨rfl, hrun.going, hrun.admitted, hlike, n + 1, by omega, ?_, hclock'⟩
    intro k hpos hk
    rcases Nat.lt_succ_iff_lt_or_eq.mp (Nat.lt_succ_of_le hk) with hlt | rfl
    · exact hpassed k hpos (Nat.le_of_lt_succ hlt)
    · exact hover
  · rintro limit rfl
    exact ⟨List.prefix_rfl, hrun.admitted, limit, rfl,
      .check (Nat.succ_pos n) (by omega) hover⟩

theorem first_pace (candidates background : List Constraint) :
    Agree (Running like clock limits readings left a a) (first e candidates background)
      (first e candidates background) fun found found' s s' =>
        found' = found ∧ Running like clock limits readings left a a s s' := by
  rintro s s' hrun found t found' t' hr hr'
  obtain ⟨hfound, hlike, -, hclock⟩ := he.first_agree (clock s) (clock s') candidates background
    s s' ⟨hrun.like, rfl, rfl⟩ found t found' t' hr hr'
  obtain ⟨n, hn, hpassed, hlooked⟩ := hrun.looked
  exact ⟨hfound, rfl, hrun.going, hrun.admitted, hlike, n, hn, hpassed,
    fun j => (congrFun hclock j).trans (hlooked j)⟩

omit he in
theorem consider_pace {b : Branch} {u u' : Search} {s s' : σ}
    (h : consider Limits.none a b = .ok u) (h' : consider limits a b = .ok u')
    (hrun : Running like clock limits readings left a a s s') :
    Pace like clock limits readings left u u' s s' := by
  rw [consider_none] at h
  unfold consider at h'
  split at h'
  · next hold =>
    rw [if_pos hold] at h
    cases h
    cases h'
    exact .inl hrun
  · next hnew =>
    rw [if_neg hnew] at h
    cases h
    obtain ⟨stop, hstop, h'⟩ := Outcome.bind_eq_ok_iff.mp h'
    cases stop with
    | some limit =>
      cases h'
      exact .inr ⟨List.prefix_append _ _, hrun.admitted, limit, rfl, .branch List.prefix_rfl hstop⟩
    | none =>
      cases h'
      obtain ⟨n, hn, hpassed, hclock⟩ := hrun.looked
      refine .inl ⟨rfl, hrun.going, hrun.admitted.append hstop, hrun.like, n,
        ?_, hpassed, hclock⟩
      show n + left + looks (a.next ++ [b]) = looks (a.accepted ++ [b])
      rw [looks_append, looks_append]
      omega

theorem expandAt_pace (b : Branch) (c : Constraint) (left : Nat) (a a' : Search) :
    Agree (Pace like clock limits readings (1 + left) a a')
      (unlessStopped (expandAt e Limits.none start background b) a c)
      (unlessStopped (expandAt e limits (readings 0) background b) a' c)
      (Pace like clock limits readings left) := by
  have hgrows : Ensures (fun _ => True) (expandAt e Limits.none start background b a c)
      (fun t _ => a.accepted <+: t.accepted ∧ True) fun _ _ => True :=
    expandAt_grows (stable_true e) (fun _ _ _ _ => trivial) List.prefix_rfl b c
  refine unlessStopped_pace hgrows ?_
  rw [Nat.add_comm]
  unfold expandAt
  refine .bind (overtime_pace he) fun passed passed' => .assuming ?_
  rintro rfl
  cases passed' with
  | some limit =>
    rintro s s' ⟨-, hcut⟩ u t u' t' hr hr'
    cases hr'
    exact .inr ((hcut limit rfl).mono (hgrows.of_eq_ok trivial hr).1)
  | none =>
    refine (Agree.bind (first_pace he _ _) fun found found' => .assuming ?_).strengthen
      fun s s' h => h.1 rfl
    rintro rfl
    exact .orFail fun u u' h h' s s' hrun => consider_pace h h' hrun

theorem expand_pace (b : Branch) (left : Nat) (a a' : Search) :
    Agree (Pace like clock limits readings (b.diagnosis.length + left) a a')
      (unlessStopped (expand e Limits.none start background) a b)
      (unlessStopped (expand e limits (readings 0) background) a' b)
      (Pace like clock limits readings left) := by
  have hgrows : Ensures (fun _ => True) (expand e Limits.none start background a b)
      (fun t _ => a.accepted <+: t.accepted ∧ True) fun _ _ => True :=
    expand_grows (stable_true e) (fun _ _ _ _ => trivial) List.prefix_rfl b
  have hones : (b.diagnosis.map fun _ => 1).sum = b.diagnosis.length := by
    rw [List.map_const', List.sum_replicate_nat, Nat.mul_one]
  refine unlessStopped_pace hgrows ?_
  have hrun : Agree (Pace like clock limits readings ((b.diagnosis.map fun _ => 1).sum + left) a a)
      (expand e Limits.none start background a b) (expand e limits (readings 0) background a b)
      (Pace like clock limits readings left) :=
    foldlM_pace (fun _ => 1) (expandAt_pace he b) b.diagnosis left a a
  rw [hones] at hrun
  exact hrun.strengthen fun _ _ => .inl

omit he in
theorem looks_eq_sum (bs : List Branch) : looks bs = (bs.map fun b => b.diagnosis.length).sum := by
  induction bs with
  | nil => rfl
  | cons b bs ih => rw [looks, ih, List.map_cons, List.sum_cons]

/-- Where a level ends, all looks at the clock have been taken that the level had. -/
theorem levels_pace (fuel : Nat) (a : Search) :
    Agree (Running like clock limits readings 0 a a)
      (levels e Limits.none start background fuel a)
      (levels e limits (readings 0) background fuel a) (Pace like clock limits readings 0) := by
  induction fuel generalizing a with
  | zero => exact .pure fun _ _ => .inl
  | succ fuel ih =>
    have hlevel : Agree (Running like clock limits readings 0 a a)
        (a.next.foldlM (unlessStopped (expand e Limits.none start background)) { a with next := [] })
        (a.next.foldlM (unlessStopped (expand e limits (readings 0) background))
          { a with next := [] }) (Pace like clock limits readings 0) := by
      refine (foldlM_pace (fun b : Branch => b.diagnosis.length) (expand_pace he) a.next 0 _
        _).strengthen fun s s' hrun => .inl ?_
      obtain ⟨n, hn, hlooked⟩ := hrun.looked
      refine ⟨rfl, hrun.going, hrun.admitted, hrun.like, n, ?_, hlooked⟩
      show n + ((a.next.map fun b => b.diagnosis.length).sum + 0) + 0 = looks a.accepted
      rw [← looks_eq_sum, ← hn]
      rfl
    unfold levels
    refine .bind hlevel fun t t' => ?_
    rintro s s' (hrun | hcut) u v u' v' hr hr'
    · obtain rfl := hrun.same
      split at hr
      · next hend =>
        rw [if_pos hend] at hr'
        cases hr
        cases hr'
        exact .inl hrun
      · next hmore =>
        rw [if_neg hmore] at hr'
        exact ih _ s s' hrun u v u' v' hr hr'
    · rw [hcut.stopped, Bool.true_or] at hr'
      cases hr'
      refine .inr (hcut.mono ?_)
      split at hr
      · cases hr
        exact List.prefix_rfl
      · exact levels_extends hr

/-! ### Whole searches -/

/-- The search without limits that is compared with the others: it starts from a first diagnosis and ends
because nothing is left to expand. -/
theorem levels_free {found : List Constraint} (hfound : found ≠ [])
    (candidates background : List Constraint) (start : Int) {s : σ} (hs : like s s) :
    ∃ all t, levels e Limits.none start background (candidates.length + 2)
        (Search.start found candidates) s = .ok all t ∧
      all.next = [] ∧ all.stopped = none ∧ Tiered all.accepted := by
  have hranked : Ensures (fun s => like s s) (levels e Limits.none start background
        (candidates.length + 2) (Search.start found candidates))
      (fun all t => (all.next = [] ∧ all.stopped = none ∧
        all.accepted.Pairwise (·.depth ≤ ·.depth)) ∧ like t t) fun _ _ => False :=
    levels_ranked he.stable (candidates.length + 2) 0 (by omega)
      (Search.Ranked.initial (Nat.le_refl candidates.length) hfound)
  obtain ⟨all, t, hrun, ⟨hnext, hstopped, hsorted⟩, -⟩ := hranked.returns hs
  refine ⟨all, t, hrun, hnext, hstopped, hsorted, fun b hb => ?_⟩
  obtain ⟨rest, hrest⟩ := levels_extends hrun
  obtain ⟨rest', hrest'⟩ := hb
  rw [← hrest] at hrest'
  have hhead : b = ⟨found, candidates, [], 0⟩ := (List.cons.inj hrest').1
  rw [hhead]

/-- **How searches end.** There are branches of which a search with limits accepts all, or it is cut
off. -/
theorem search_ends {found : List Constraint} (hfound : found ≠ [])
    (candidates background : List Constraint) {s : σ} (hs : like s s) :
    ∃ all, Tiered all ∧ ∀ limits : Limits, limits.Numeric →
      (Binary64.roundInt? (clock s (1 + (if limits.timed then looks all else 0)) -
        clock s 0)).isSome →
      ∃ r t, search e limits found candidates background s = .ok r t ∧
        limits.Ends (fun k => clock s k - clock s 0) all r := by
  obtain ⟨s₁, hread, hlike, hclock⟩ := he.readClock hs
  have hs₁ := he.refl_right hlike
  obtain ⟨all, t, hall, hnext, hgoing, htiered⟩ :=
    levels_free he hfound candidates background (clock s 0) hs₁
  refine ⟨all.accepted, htiered, fun limits hlimits htell => ?_⟩
  have hgrows : Ensures (fun s => like s s) (levels e limits (clock s 0) background
        (candidates.length + 2) (Search.start found candidates))
      (fun r t => (Search.start found candidates).accepted <+: r.accepted ∧ like t t)
      fun _ _ => False :=
    levels_grows he.stable (fun _ _ hr _ => hlimits.not_refuses hr) (candidates.length + 2)
      List.prefix_rfl
  obtain ⟨r, u, hlevels, -, hu⟩ := hgrows.returns hs₁
  have hbegin : Running like clock limits (clock s) 0 (Search.start found candidates)
      (Search.start found candidates) s₁ s₁ := by
    refine ⟨rfl, rfl, Limits.admits_singleton _, hs₁, 0, Nat.zero_add _, fun k hpos hk => by omega, ?_⟩
    intro j
    rw [hclock, ite_self]
    exact congrArg _ (Nat.add_comm j 1)
  rcases levels_pace he (candidates.length + 2) (Search.start found candidates) s₁ s₁ hbegin all t r u
    hall hlevels with hrun | hcut
  · -- the clock is read for a last time, which the journal tells
    obtain rfl := hrun.same
    obtain ⟨n, hn, hpassed, hclock'⟩ := hrun.looked
    have hadmitted := hrun.admitted
    rw [hnext] at hn
    have hdone : n = looks r.accepted := hn
    obtain ⟨u', hread', hlike', -⟩ := he.readClock hu
    obtain ⟨seconds, hseconds⟩ := Option.isSome_iff_exists.mp htell
    rw [← hdone, ← Nat.add_zero (1 + _), ← hclock'] at hseconds
    obtain ⟨v, v', hnote, -⟩ :=
      he.note (.enumerated r.accepted.length seconds) (.enumerated r.accepted.length seconds)
        (he.refl_right hlike')
    have hrun := search_eq_of_going hread hlevels hgoing hread' hseconds hnote
    exact ⟨r, v, hrun, .inl ⟨rfl, hgoing, hadmitted, fun k hpos hle => hpassed k hpos (hdone ▸ hle)⟩⟩
  · exact ⟨r, u, search_eq_of_stopped hread hlevels hcut.stopped, .inr hcut⟩

/-- **Limits only cut.** Whatever the checks answer, the enumeration with limits is the one without
them, cut off where a limit is reached, if its seconds can be told. -/
theorem enumerate_only_cut (found candidates background : List Constraint)
    {s : σ} (hs : like s s)
    (htell : ∀ k ≤ looks (branches e found candidates background s) + 1,
      (Binary64.roundInt? (clock s k - clock s 0)).isSome) :
    OnlyCut
      (fun limits all => ∃ t, enumerate e limits found candidates background s = .ok all t)
      (fun k => clock s k - clock s 0) (branches e found candidates background s) := by
  by_cases hempty : found.isEmpty
  · have hnone : branches e found candidates background s = [] := if_pos hempty
    have hrun : ∀ limits, enumerate e limits found candidates background s = .ok ⟨[], none⟩ s := by
      intro limits
      unfold enumerate
      rw [if_pos hempty]
      rfl
    rw [hnone]
    refine only_cut tiered_nil fun limits _ => ⟨⟨[], [], none⟩, ⟨s, hrun limits⟩, .inl ?_⟩
    exact ⟨rfl, rfl, Limits.admits_nil, fun k hpos hk => absurd (hpos.trans hk) (Nat.not_succ_le_zero 0)⟩
  · have hfound : found ≠ [] := fun hnil => hempty (by rw [hnil]; rfl)
    obtain ⟨all, htiered, hends⟩ := search_ends he hfound candidates background hs
    obtain ⟨r, t, hfree, hwhole | hcut⟩ := hends Limits.none Limits.numeric_none
      (htell 1 (Nat.le_add_left 1 _))
    · have hall : branches e found candidates background s = all := by
        unfold branches
        rw [if_neg hempty, hfree]
        exact hwhole.accepted
      rw [hall] at htell ⊢
      refine only_cut htiered fun limits hlimits => ?_
      have hlast : 1 + (if limits.timed then looks all else 0) ≤ looks all + 1 := by
        split <;> omega
      obtain ⟨r, t, hrun, hr⟩ := hends limits hlimits (htell _ hlast)
      refine ⟨r, ⟨t, ?_⟩, hr⟩
      unfold enumerate
      rw [if_neg hempty, bind_eq_of_ok hrun]
      rfl
    · exact absurd hcut Limits.not_cut_none

end pace
end Diagnosis
end ProductLine

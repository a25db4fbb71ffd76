import Mathlib.Data.Finset.Powerset
import ProductLine.Proofs.Diagnosis.Bounded
import ProductLine.Proofs.Diagnosis.Unbounded

/-! # The enumeration ends

The search goes level by level, with a bound on the number of levels. It does what a search without such
a bound does that has one queue of branches: it expands the first branch of the queue, puts what it
accepts at the end, and goes on until the queue is empty (`Drains`, `levels_drains`). That this comes to
an end hangs on no answer. A branch takes its diagnosis from its candidates, of which every step down
takes one away, and its diagnosis contains none that was accepted before, of which there are finitely
many (`Search.Drawn`, `Drains.drawn`). So the enumeration ends, whatever is answered
(`enumerate_terminates`). -/

namespace ProductLine
namespace Diagnosis

open Constraint Outcome

variable {σ : Type} {e : Setting σ} {limits : Limits} {start : Int}
  {candidates background found : List Constraint}

/-! ### The queue -/

namespace Search

/-- The search with branches to expand before those that it already has to expand. -/
def behind (queue : List Branch) (s : Search) : Search := { s with next := queue ++ s.next }

def finished (s : Search) : Search := { s with next := [] }

theorem accept_behind (queue : List Branch) (s : Search) (b : Branch) :
    (s.behind queue).accept b = (s.accept b).behind queue := by
  unfold accept behind
  rw [List.append_assoc]

theorem finished_eq_self {s : Search} (h : s.next = []) : s.finished = s := by
  unfold finished
  rw [← h]

theorem finished_behind (s : Search) : s.finished.behind s.next = s := by
  unfold finished behind
  rw [List.append_nil]

end Search

/-- The first branch of a queue is expanded, and what is accepted joins the queue at its end, over and
over until the queue is empty, a limit stops the search, or something fails: after how many branches
that is, and what comes of it. -/
inductive Drains (e : Setting σ) (limits : Limits) (start : Int) (background : List Constraint) :
    Search → σ → Nat → EStateM.Result Failure σ Search → Prop where
  | empty {s : Search} {t : σ} :
      s.next = [] → Drains e limits start background s t 0 (.ok s t)
  | failed {s : Search} {t u : σ} {b : Branch} {rest : List Branch} {failure : Failure} :
      s.next = b :: rest →
      expand e limits start background { s with next := rest } b t = .error failure u →
      Drains e limits start background s t 1 (.error failure u)
  | stopped {s s' : Search} {t u : σ} {b : Branch} {rest : List Branch} :
      s.next = b :: rest →
      expand e limits start background { s with next := rest } b t = .ok s' u →
      s'.stopped.isSome → Drains e limits start background s t 1 (.ok s'.finished u)
  | further {s s' : Search} {t u : σ} {b : Branch} {rest : List Branch} {n : Nat}
      {r : EStateM.Result Failure σ Search} :
      s.next = b :: rest →
      expand e limits start background { s with next := rest } b t = .ok s' u →
      s'.stopped = none → Drains e limits start background s' u n r →
      Drains e limits start background s t (n + 1) r

/-! ### A step does not see the queue -/

variable {s s' : Search} {b : Branch} {queue : List Branch}

theorem consider_behind (queue : List Branch) (s : Search) (b : Branch) :
    consider limits (s.behind queue) b = (consider limits s b).map (Search.behind queue) := by
  unfold consider
  show ite ((b.diagnosis.isEmpty || !isNew b.diagnosis s.diagnoses) = true) _ _ = _
  split
  · rfl
  · cases hstop : limits.stop? s.accepted.length b.depth with
    | error failure =>
      show (limits.stop? s.accepted.length b.depth >>= _) = _
      rw [hstop]
      rfl
    | ok stop =>
      show (limits.stop? s.accepted.length b.depth >>= _) = _
      rw [hstop]
      cases stop with
      | some limit => rfl
      | none => exact congrArg Except.ok (Search.accept_behind queue s b)

theorem orFail_map {α β : Type} (f : α → β) (r : Except Failure α) :
    (orFail (r.map f) : EStateM Failure σ β) = f <$> orFail r := by
  cases r <;> rfl

theorem expandAt_behind (queue : List Branch) (s : Search) (b : Branch) (c : Constraint) :
    expandAt e limits start background b (s.behind queue) c =
      Search.behind queue <$> expandAt e limits start background b s c := by
  unfold expandAt
  rw [map_bind]
  refine bind_congr fun passed => ?_
  cases passed with
  | some limit => rfl
  | none =>
    show (_ >>= _) = Search.behind queue <$> (_ >>= _)
    rw [map_bind]
    refine bind_congr fun diagnosis => ?_
    rw [consider_behind, orFail_map]

theorem expand_behind (queue : List Branch) (s : Search) (b : Branch) :
    expand e limits start background (s.behind queue) b =
      Search.behind queue <$> expand e limits start background s b := by
  unfold expand
  induction b.diagnosis generalizing s with
  | nil => rfl
  | cons c rest ih =>
    rw [List.foldlM_cons, List.foldlM_cons, map_bind]
    have hstep : unlessStopped (expandAt e limits start background b) (s.behind queue) c =
        Search.behind queue <$> unlessStopped (expandAt e limits start background b) s c := by
      unfold unlessStopped
      show ite (s.stopped.isSome = true) _ _ = _
      split
      · rfl
      · exact expandAt_behind queue s b c
    rw [hstep, bind_map_left]
    exact bind_congr fun s' => ih s'

/-! ### What the branches have left -/

/-- The branch takes its diagnosis from its candidates, which are all but the one taken away in every step
down to it. -/
structure Branch.Drawn (candidates : List Constraint) (b : Branch) : Prop where
  ne_nil : b.diagnosis ≠ []
  subset : b.diagnosis ⊆ b.candidates
  candidates_eq : b.candidates = subtract candidates b.excluded
  length_eq : b.depth + b.candidates.length = candidates.length

theorem Branch.Drawn.depth_lt (h : b.Drawn candidates) : b.depth < candidates.length := by
  obtain ⟨c, hc⟩ := List.exists_mem_of_ne_nil _ h.ne_nil
  have hone : 0 < b.candidates.length := List.length_pos_of_mem (h.subset hc)
  have heq := h.length_eq
  omega

/-- The branches are drawn from the candidates, those to be expanded are no higher than a level, all but
so many are still to be expanded, and no diagnosis contains an earlier one. -/
structure Search.Drawn (candidates : List Constraint) (level expanded : Nat) (s : Search) : Prop where
  accepted : ∀ b ∈ s.accepted, b.Drawn candidates
  next : ∀ b ∈ s.next, b.Drawn candidates ∧ level ≤ b.depth
  length_eq : s.accepted.length = expanded + s.next.length
  apart : s.diagnoses.Pairwise fun d d' => ¬ids d ⊆ ids d'

namespace Search.Drawn

variable {level expanded : Nat}

theorem initial (hsub : found ⊆ candidates) (hne : found ≠ []) :
    (Search.start found candidates).Drawn candidates 0 0 := by
  have hb : Branch.Drawn candidates ⟨found, candidates, [], 0⟩ :=
    ⟨hne, hsub, subtract_nil.symm, Nat.zero_add _⟩
  refine ⟨?_, ?_, rfl, List.pairwise_singleton _ _⟩
  · exact List.forall_mem_singleton.mpr hb
  · exact List.forall_mem_singleton.mpr ⟨hb, Nat.le_refl _⟩

/-- With nothing left to expand, all branches count as expanded. -/
theorem finished (h : s.Drawn candidates level expanded) (below : Nat) :
    s.finished.Drawn candidates below s.accepted.length :=
  ⟨h.accepted, List.forall_mem_nil _, rfl, h.apart⟩

theorem stopAt (h : s.Drawn candidates level expanded) (limit : Limit) :
    (s.stopAt limit).Drawn candidates level expanded := ⟨h.accepted, h.next, h.length_eq, h.apart⟩

theorem accept (h : s.Drawn candidates level expanded) (hb : b.Drawn candidates)
    (hlevel : level ≤ b.depth) (hnew : isNew b.diagnosis s.diagnoses = true) :
    (s.accept b).Drawn candidates level expanded where
  accepted := List.forall_mem_append.mpr ⟨h.accepted, List.forall_mem_singleton.mpr hb⟩
  next := List.forall_mem_append.mpr ⟨h.next, List.forall_mem_singleton.mpr ⟨hb, hlevel⟩⟩
  length_eq := by
    unfold Search.accept
    rw [List.length_append, List.length_append, h.length_eq, Nat.add_assoc]
  apart := by
    rw [Search.diagnoses_accept, List.pairwise_append]
    refine ⟨h.apart, List.pairwise_singleton _ _, ?_⟩
    intro d hd d' hd'
    rw [List.mem_singleton.mp hd']
    exact isNew_iff.mp hnew d hd

theorem pop {rest : List Branch} (h : s.Drawn candidates level expanded) (hnext : s.next = b :: rest) :
    b.Drawn candidates ∧ Search.Drawn candidates level (expanded + 1) { s with next := rest } := by
  have hall := h.next
  rw [hnext] at hall
  obtain ⟨hb, hrest⟩ := List.forall_mem_cons.mp hall
  refine ⟨hb.1, h.accepted, hrest, ?_, h.apart⟩
  rw [h.length_eq, hnext, List.length_cons]
  show expanded + (rest.length + 1) = expanded + 1 + rest.length
  omega

/-- The numbers of the accepted diagnoses are different sets. -/
theorem sets_nodup (h : s.Drawn candidates level expanded) :
    (s.diagnoses.map fun d => (ids d).toFinset).Nodup := by
  refine List.pairwise_map.mpr (h.apart.imp fun hnot heq => hnot fun i hi => ?_)
  exact List.mem_toFinset.mp (heq ▸ List.mem_toFinset.mpr hi)

/-- There are fewer accepted diagnoses than sets of candidates. -/
theorem length_lt (h : s.Drawn candidates level expanded) :
    s.accepted.length < 2 ^ candidates.length := by
  have hsets : (s.diagnoses.map fun d => (ids d).toFinset).toFinset ⊆
      (ids candidates).toFinset.powerset.erase ∅ := by
    intro set hset
    obtain ⟨d, hd, rfl⟩ := List.mem_map.mp (List.mem_toFinset.mp hset)
    obtain ⟨b, hb, rfl⟩ := List.mem_map.mp hd
    have hdrawn := h.accepted b hb
    obtain ⟨c, hc⟩ := List.exists_mem_of_ne_nil _ hdrawn.ne_nil
    refine Finset.mem_erase.mpr ⟨?_, Finset.mem_powerset.mpr fun i hi => ?_⟩
    · exact Finset.ne_empty_of_mem (List.mem_toFinset.mpr (id_mem_ids hc))
    · have hsub : b.diagnosis ⊆ candidates := fun d hd =>
        subtract_subset (hdrawn.candidates_eq ▸ hdrawn.subset hd)
      exact List.mem_toFinset.mpr (List.map_subset _ hsub (List.mem_toFinset.mp hi))
  have hcard := Finset.card_le_card hsets
  rw [List.toFinset_card_of_nodup h.sets_nodup, Finset.card_erase_of_mem (Finset.empty_mem_powerset _),
    Finset.card_powerset] at hcard
  have hlength : (s.diagnoses.map fun d => (ids d).toFinset).length = s.accepted.length := by
    unfold Search.diagnoses
    rw [List.length_map, List.length_map]
  have hids : 2 ^ (ids candidates).toFinset.card ≤ 2 ^ candidates.length := by
    refine Nat.pow_le_pow_right (Nat.succ_pos 1) ((List.toFinset_card_le _).trans ?_)
    exact (List.length_map _).le
  have hpos : 0 < 2 ^ (ids candidates).toFinset.card := Nat.two_pow_pos _
  omega

theorem next_eq_nil (h : s.Drawn candidates level expanded) (hlevel : candidates.length ≤ level) :
    s.next = [] := by
  refine List.eq_nil_iff_forall_not_mem.mpr fun b hb => ?_
  obtain ⟨hdrawn, hle⟩ := h.next b hb
  have hlt := hdrawn.depth_lt
  omega

end Search.Drawn

/-! ### Steps -/

theorem length_subtract_singleton {cs : List Constraint} {c : Constraint} (hnodup : (ids cs).Nodup)
    (hc : c ∈ cs) : (subtract cs [c]).length + 1 = cs.length := by
  have hids : ids (subtract cs [c]) = (ids cs).erase c.id := by
    rw [hnodup.erase_eq_filter]
    unfold ids subtract
    rw [List.filter_map]
    refine congrArg (List.map Constraint.id) (List.filter_congr fun d _ => ?_)
    show (!(c.id == d.id || false)) = !(d.id == c.id)
    rw [Bool.or_false, BEq.comm]
  have hlength := congrArg List.length hids
  rw [List.length_erase_of_mem (id_mem_ids hc)] at hlength
  unfold ids at hlength
  rw [List.length_map, List.length_map] at hlength
  have hpos := List.length_pos_of_mem hc
  omega

theorem Branch.Drawn.child (hc : (ids candidates).Nodup) (hb : b.Drawn candidates) {c : Constraint}
    (hmem : c ∈ b.diagnosis) (hne : found ≠ []) (hfound : found ⊆ subtract b.candidates [c]) :
    Branch.Drawn candidates ⟨found, subtract b.candidates [c], b.excluded ++ [c], b.depth + 1⟩ := by
  have hnodup : (ids b.candidates).Nodup := hb.candidates_eq ▸ ids_subtract_nodup hc
  have hless := length_subtract_singleton hnodup (hb.subset hmem)
  have heq := hb.length_eq
  refine ⟨hne, hfound, ?_, ?_⟩
  · show subtract b.candidates [c] = subtract candidates (b.excluded ++ [c])
    rw [hb.candidates_eq, subtract_append]
  · show b.depth + 1 + (subtract b.candidates [c]).length = candidates.length
    omega

variable {level expanded : Nat}

theorem consider_drawn (hs : s.Drawn candidates level expanded)
    (hb : b.diagnosis ≠ [] → b.Drawn candidates) (hlevel : level ≤ b.depth)
    (h : consider limits s b = .ok s') : s'.Drawn candidates level expanded := by
  unfold consider at h
  split at h
  · cases h
    exact hs
  · next hnew =>
    rw [Bool.or_eq_true, not_or, Bool.not_eq_true', Bool.not_eq_false, List.isEmpty_iff] at hnew
    obtain ⟨stop, -, h⟩ := bind_eq_ok_iff.mp h
    cases stop with
    | some limit =>
      cases h
      exact hs.stopAt limit
    | none =>
      cases h
      exact hs.accept (hb hnew.1) hlevel hnew.2

section stable

variable {keeps : σ → Prop} {fail : Failure → σ → Prop}
variable (hc : (ids candidates).Nodup) (he : e.Stable keeps fail)
  (hrefused : ∀ failure s, limits.Refuses failure → keeps s → fail failure s)
include hc he hrefused

theorem expandAt_drawn (hs : s.Drawn candidates level expanded) (hb : b.Drawn candidates)
    (hlevel : level ≤ b.depth + 1) {c : Constraint} (hmem : c ∈ b.diagnosis) :
    Ensures keeps (expandAt e limits start background b s c)
      (fun s' t => s'.Drawn candidates level expanded ∧ keeps t) fail := by
  unfold expandAt
  refine .bind (overtime_ensures hrefused he.readClock start) fun passed => ?_
  cases passed with
  | some limit => exact .pure fun t ht => ⟨hs.stopAt limit, ht⟩
  | none =>
    refine .bind (first_stable he _ _) fun found => .assuming fun hfound => ?_
    refine .orFail (fun s' h t ht => ⟨?_, ht⟩) fun failure h t ht => ?_
    · exact consider_drawn hs (fun hne => hb.child hc hmem hne hfound) hlevel h
    · exact hrefused failure t (consider_refuses h) ht

theorem expand_drawn (hs : s.Drawn candidates level expanded) (hb : b.Drawn candidates)
    (hlevel : level ≤ b.depth + 1) :
    Ensures keeps (expand e limits start background s b)
      (fun s' t => s'.Drawn candidates level expanded ∧ keeps t) fail :=
  foldlM_unlessStopped_keeps hs
    fun _ hmem _ hs => expandAt_drawn hc he hrefused hs hb hlevel hmem

end stable

/-! ### Levels of the queue -/

theorem foldlM_unlessStopped_of_stopped {α : Type} {step : Search → α → EStateM Failure σ Search}
    (hs : s.stopped.isSome) (l : List α) : l.foldlM (unlessStopped step) s = pure s := by
  induction l with
  | nil => rfl
  | cons a rest ih =>
    have hstep : unlessStopped step s a = pure s := if_pos hs
    rw [List.foldlM_cons, hstep, pure_bind, ih]

/-- A level is expanded as the first part of the queue, if what comes after it goes on with the rest of the
queue and does nothing once the search has stopped. -/
theorem foldlM_drains {more : Search → EStateM Failure σ Search}
    (hstop : ∀ s, s.stopped.isSome → more s = pure s.finished) (l : List Branch) {s : Search} {t : σ}
    (hs : s.stopped = none)
    (hmore : ∀ s' u, l.foldlM (unlessStopped (expand e limits start background)) s t = .ok s' u →
      s'.stopped = none → ∃ n, Drains e limits start background s' u n (more s' u)) :
    ∃ n, Drains e limits start background (s.behind l) t n
      ((l.foldlM (unlessStopped (expand e limits start background)) s >>= more) t) := by
  induction l generalizing s t with
  | nil => exact hmore s t rfl hs
  | cons b rest ih =>
    have hgo : unlessStopped (expand e limits start background) s b =
        expand e limits start background s b := if_neg (hs ▸ Bool.false_ne_true)
    -- what a branch adds goes behind the rest of the level, in the queue as in the search by levels
    have hbehind : expand e limits start background (s.behind rest) b t =
        (Search.behind rest <$> expand e limits start background s b) t := by rw [expand_behind]
    rw [List.foldlM_cons, hgo] at hmore
    rw [List.foldlM_cons, hgo, bind_assoc]
    cases hr : expand e limits start background s b t with
    | error failure u =>
      rw [bind_eq_of_error hr]
      have hfail : expand e limits start background (s.behind rest) b t = .error failure u := by
        rw [hbehind, map_eq_pure_bind, bind_eq_of_error hr]
      exact ⟨1, .failed rfl hfail⟩
    | ok s₁ u =>
      rw [bind_eq_of_ok hr] at hmore
      rw [bind_eq_of_ok hr]
      have hok : expand e limits start background (s.behind rest) b t = .ok (s₁.behind rest) u := by
        rw [hbehind, map_eq_pure_bind, bind_eq_of_ok hr]
        rfl
      cases hs₁ : s₁.stopped with
      | some limit =>
        have hsome : s₁.stopped.isSome := hs₁ ▸ rfl
        rw [foldlM_unlessStopped_of_stopped hsome, pure_bind, hstop s₁ hsome]
        have hend : (s₁.behind rest).finished = s₁.finished := rfl
        exact ⟨1, hend ▸ .stopped rfl hok hsome⟩
      | none =>
        obtain ⟨n, hn⟩ := ih hs₁ hmore
        exact ⟨n + 1, .further rfl hok hs₁ hn⟩

section drawn

variable (hc : (ids candidates).Nodup)
include hc

/-- The levels of a search are what its queue comes to, if there may be as many of them as candidates. -/
theorem levels_drains (fuel level : Nat) {expanded : Nat} {s : Search} {t : σ}
    (hfuel : candidates.length ≤ level + fuel) (hstop : s.stopped = none)
    (hs : s.Drawn candidates level expanded) :
    ∃ n, Drains e limits start background s t n
      ((Search.finished <$> levels e limits start background fuel s) t) := by
  induction fuel generalizing level expanded s t with
  | zero =>
    have hnext : s.next = [] := hs.next_eq_nil hfuel
    have hdone : (Search.finished <$> levels e limits start background 0 s) t = .ok s t :=
      congrArg (EStateM.Result.ok · t) (Search.finished_eq_self hnext)
    exact ⟨0, hdone ▸ .empty hnext⟩
  | succ fuel ih =>
    unfold levels
    rw [map_bind]
    suffices hqueue : ∃ n, Drains e limits start background (s.finished.behind s.next) t n
        ((s.next.foldlM (unlessStopped (expand e limits start background)) s.finished >>= fun s' =>
          Search.finished <$> if s'.stopped.isSome || s'.next.isEmpty then pure s'
            else levels e limits start background fuel s') t) by
      rw [s.finished_behind] at hqueue
      exact hqueue
    refine foldlM_drains ?_ s.next hstop ?_
    · intro s' hs'
      rw [hs', Bool.true_or, if_pos rfl, map_pure]
    · intro s' u hrun hgoing
      have hlevel : s'.Drawn candidates (level + 1) s.accepted.length :=
        ((foldlM_unlessStopped_keeps (hs.finished (level + 1)) fun b hb s' hs' =>
          expand_drawn hc (stable_true e) (fun _ _ _ _ => trivial) hs' (hs.next b hb).1
            (Nat.succ_le_succ (hs.next b hb).2)).of_eq_ok trivial hrun).1
      rw [hgoing, Option.isSome_none, Bool.false_or]
      cases hnext : s'.next with
      | nil =>
        rw [List.isEmpty_nil, if_pos rfl, map_pure, Search.finished_eq_self hnext]
        exact ⟨0, .empty hnext⟩
      | cons b rest =>
        rw [List.isEmpty_cons, if_neg Bool.false_ne_true]
        exact ih (level + 1) (by omega) hgoing hlevel

/-- Whatever the queue comes to, all that was accepted is drawn from the candidates, and fewer branches were
expanded than there are sets of candidates: if no limit stopped the search, the accepted ones. -/
theorem Drains.drawn {expanded n : Nat} {s : Search} {t : σ} {r : EStateM.Result Failure σ Search}
    (h : Drains e limits start background s t n r) (hs : s.Drawn candidates 0 expanded) :
    expanded + n < 2 ^ candidates.length ∧ ∀ s' u, r = .ok s' u →
      (∃ expanded', s'.Drawn candidates 0 expanded') ∧
        (s'.stopped = none → s'.accepted.length = expanded + n) := by
  induction h generalizing expanded with
  | empty hnext =>
    have hlt := hs.length_lt
    have heq := hs.length_eq
    rw [hnext, List.length_nil] at heq
    refine ⟨by omega, ?_⟩
    rintro s' u ⟨rfl, rfl⟩
    exact ⟨⟨expanded, hs⟩, fun _ => heq⟩
  | failed hnext hrun =>
    obtain ⟨hb, hpop⟩ := hs.pop hnext
    have hlt := hpop.length_lt
    have heq := hpop.length_eq
    refine ⟨by omega, ?_⟩
    rintro s' u ⟨⟩
  | stopped hnext hrun hstop =>
    obtain ⟨hb, hpop⟩ := hs.pop hnext
    have hlt := hpop.length_lt
    have heq := hpop.length_eq
    have hdrawn := ((expand_drawn hc (stable_true e) (fun _ _ _ _ => trivial) hpop hb
      (Nat.zero_le _)).of_eq_ok trivial hrun).1
    refine ⟨by omega, ?_⟩
    rintro s' u ⟨rfl, rfl⟩
    refine ⟨⟨_, hdrawn.finished 0⟩, fun hnone => ?_⟩
    exact absurd hstop (hnone ▸ Bool.false_ne_true)
  | further hnext hrun _ _ ih =>
    obtain ⟨hb, hpop⟩ := hs.pop hnext
    have hdrawn := ((expand_drawn hc (stable_true e) (fun _ _ _ _ => trivial) hpop hb
      (Nat.zero_le _)).of_eq_ok trivial hrun).1
    have hrest := ih hdrawn
    rwa [Nat.add_right_comm, Nat.add_assoc] at hrest

end drawn

/-! ### The search -/

theorem eq_of_search_eq_ok {t u v w : σ} {r r' : Search} (hread : e.readClock t = .ok start u)
    (hlevels : levels e limits start background (candidates.length + 2)
      (Search.start found candidates) u = .ok r v)
    (h : search e limits found candidates background t = .ok r' w) : r' = r := by
  unfold search at h
  rw [bind_eq_of_ok hread, bind_eq_of_ok hlevels] at h
  cases hstopped : r.stopped with
  | some limit =>
    rw [hstopped] at h
    cases h
    rfl
  | none =>
    rw [hstopped] at h
    obtain ⟨now, v', -, h⟩ := Ensures.exists_of_bind_eq_ok h
    cases hseconds : Binary64.roundInt? (now - start) with
    | none =>
      rw [hseconds] at h
      cases h
    | some seconds =>
      rw [hseconds] at h
      obtain ⟨_, w', -, h⟩ := Ensures.exists_of_bind_eq_ok h
      cases h
      rfl

theorem search_eq_error {t u v : σ} {failure : Failure} (hread : e.readClock t = .ok start u)
    (hlevels : levels e limits start background (candidates.length + 2)
      (Search.start found candidates) u = .error failure v) :
    search e limits found candidates background t = .error failure v := by
  unfold search
  rw [bind_eq_of_ok hread, bind_eq_of_error hlevels]

section stable

variable {keeps : σ → Prop} {fail : Failure → σ → Prop} (he : e.Stable keeps fail)
  (hrefused : ∀ failure s, limits.Refuses failure → keeps s → fail failure s)
  (hoverrun : e.Overruns keeps → ∀ s, keeps s → fail .clockOverrun s)
include he hrefused hoverrun

/-- Only the setting, a bound that is no number and a clock that overruns can make an enumeration fail. -/
theorem enumerate_stable : Ensures keeps (enumerate e limits found candidates background)
    (fun _ => keeps) fail := by
  unfold enumerate
  split
  · exact .pure fun _ => id
  · exact .bind (search_stays he.stays hrefused (fun _ _ _ _ _ => trivial) hoverrun
      fun _ _ => trivial) fun _ => .pure fun _ => id

end stable

/-- **The enumeration ends.** Whatever is answered to whichever question, rightly or not, and whatever the
limits: the queue of branches that begins with the first diagnosis comes to an end after fewer branches
than there are sets of candidates, without a bound on anything, and what the enumeration gives is what it
comes to. All accepted branches, when it ends by itself or at a limit, took their diagnoses from what was
left to them of the candidates, which is one less for every step down, so that none is as deep as there
are candidates; no set is accepted twice, and no diagnosis contains an earlier one. The enumeration also
returns, if nothing fails in the setting, all bounds are numbers and the clock does not overrun. -/
theorem enumerate_terminates (e : Setting σ) (limits : Limits) (background : List Constraint)
    (hc : (ids candidates).Nodup) (hfound : found ⊆ candidates) (t : σ) :
    (found = [] → enumerate e limits found candidates background t = .ok ⟨[], none⟩ t) ∧
    (found ≠ [] → ∀ start u, e.readClock t = .ok start u →
      ∃ n r, Drains e limits start background (Search.start found candidates) u n r ∧
        n < 2 ^ candidates.length ∧
        (∀ failure v, r = .error failure v →
          enumerate e limits found candidates background t = .error failure v) ∧
        ∀ s v, r = .ok s v →
          (∀ all w, enumerate e limits found candidates background t = .ok all w →
            all = ⟨s.diagnoses, s.stopped⟩) ∧
          (s.stopped = none → n = s.accepted.length) ∧
          (∀ b ∈ s.accepted, b.Drawn candidates ∧ b.depth < candidates.length) ∧
          (s.diagnoses.map fun d => (ids d).toFinset).Nodup ∧
          s.diagnoses.Pairwise fun d d' => ¬ids d ⊆ ids d') ∧
    ∀ keeps, e.Stable keeps (fun _ _ => False) → limits.Numeric → ¬e.Overruns keeps → keeps t →
      ∃ all w, enumerate e limits found candidates background t = .ok all w := by
  refine ⟨?_, ?_, ?_⟩
  · rintro rfl
    rfl
  · intro hne start u hread
    have hempty : found.isEmpty = false := List.isEmpty_eq_false_iff.mpr hne
    have hbegin : (Search.start found candidates).Drawn candidates 0 0 := .initial hfound hne
    -- no level is deeper than there are candidates, so the search by levels does not run out of fuel
    have hdrains : ∃ n, Drains e limits start background (Search.start found candidates) u n
        ((Search.finished <$> levels e limits start background (candidates.length + 2)
          (Search.start found candidates)) u) := levels_drains hc _ 0 (by omega) rfl hbegin
    obtain ⟨n, hn⟩ := hdrains
    obtain ⟨hlt, hdrawn⟩ := hn.drawn hc hbegin
    rw [Nat.zero_add] at hlt
    refine ⟨n, _, hn, hlt, ?_⟩
    cases hlevels : levels e limits start background (candidates.length + 2)
        (Search.start found candidates) u with
    | error failure v =>
      rw [map_eq_pure_bind, bind_eq_of_error hlevels]
      refine ⟨?_, fun s v h => nomatch h⟩
      intro failure' v' h
      cases h
      unfold enumerate
      rw [hempty]
      exact bind_eq_of_error (search_eq_error hread hlevels)
    | ok r v =>
      have hfinished : (Search.finished <$> levels e limits start background (candidates.length + 2)
          (Search.start found candidates)) u = .ok r.finished v := by
        rw [map_eq_pure_bind, bind_eq_of_ok hlevels]
        rfl
      rw [hfinished] at hdrawn ⊢
      refine ⟨fun failure v h => (nomatch h), ?_⟩
      rintro s v' hs
      obtain ⟨⟨expanded, hs'⟩, hcount⟩ := hdrawn s v' hs
      cases hs
      refine ⟨?_, fun hnone => ?_, fun b hb => ?_, hs'.sets_nodup, hs'.apart⟩
      · intro all w hrun
        unfold enumerate at hrun
        rw [hempty] at hrun
        obtain ⟨r', w', hsearch, hrun⟩ := Ensures.exists_of_bind_eq_ok hrun
        rw [eq_of_search_eq_ok hread hlevels hsearch] at hrun
        cases hrun
        rfl
      · rw [hcount hnone, Nat.zero_add]
      · exact ⟨hs'.accepted b hb, (hs'.accepted b hb).depth_lt⟩
  · intro keeps he hnumeric hclock ht
    obtain ⟨all, w, hrun, -⟩ := (enumerate_stable he (fun _ _ h _ => h.1 hnumeric)
      fun h _ _ => hclock h).returns ht
    exact ⟨all, w, hrun⟩

/-- A setting that gives the answers of a list, whatever is asked, and answers no from then on. -/
def Setting.scripted : Setting (List Bool) :=
  ⟨fun _ answers => .ok (answers.headD false) answers.tail, fun _ => pure (), pure 0⟩

theorem Setting.scripted_stable : Setting.scripted.Stable (fun _ => True) fun _ _ => False where
  isConsistent _ _ _ := trivial
  note _ _ _ _ := trivial
  readClock _ _ := trivial

/-- Answers that do not go together: of the crossed constraints, the first, the third and the fourth are
said to be inconsistent, and later to be consistent. -/
def contrary : List Bool :=
  [false, true, true, false, true, true, false, true, false, true, false, true]

/-- Answers that do not go together make the enumeration accept diagnoses of which a later one is part of
an earlier one, down to the depth that is one less than there are candidates; it ends all the same. -/
theorem enumerate_terminates_scripted :
    (ids crossed).Nodup ∧ crossed.drop 2 ⊆ crossed ∧
      ∃ all w s v, enumerate Setting.scripted Limits.none (crossed.drop 2) crossed [] contrary =
          .ok all w ∧
        all.diagnoses.map ids = [[3, 4], [1], [4], [2]] ∧
        Drains Setting.scripted Limits.none 0 [] (Search.start (crossed.drop 2) crossed)
          contrary 4 (.ok s v) ∧
        all = ⟨s.diagnoses, s.stopped⟩ ∧
        ∀ b ∈ s.accepted, b.Drawn crossed ∧ b.depth < crossed.length := by
  have hnodup : (ids crossed).Nodup := by decide
  have hdrop : crossed.drop 2 ⊆ crossed := List.drop_subset 2 crossed
  have hclock : ¬Setting.scripted.Overruns fun _ => True := by
    rintro ⟨x, y, ⟨_, _, -, hx⟩, ⟨_, _, -, hy⟩, h⟩
    cases hx
    cases hy
    revert h
    decide +kernel
  obtain ⟨-, hqueue, hreturns⟩ := enumerate_terminates Setting.scripted Limits.none [] hnodup hdrop
    contrary
  obtain ⟨all, w, hrun⟩ := hreturns _ Setting.scripted_stable Limits.numeric_none hclock trivial
  obtain ⟨n, r, hdrains, -, hfails, hends⟩ := hqueue (List.cons_ne_nil _ _) 0 _ rfl
  have hids : (match enumerate Setting.scripted Limits.none (crossed.drop 2) crossed [] contrary with
      | .ok all _ => all.diagnoses.map ids == [[3, 4], [1], [4], [2]] && all.stopped.isNone
      | .error _ _ => false) = true := by decide +kernel
  rw [hrun, Bool.and_eq_true, Option.isNone_iff_eq_none] at hids
  cases r with
  | error failure v =>
    rw [hfails failure v rfl] at hrun
    cases hrun
  | ok s v =>
    obtain ⟨hall, hcount, hdrawn, -, -⟩ := hends s v rfl
    have hgiven := hall all w hrun
    have hfound := eq_of_beq hids.1
    have hlength : n = 4 := by
      rw [hcount (hgiven ▸ hids.2 : (⟨s.diagnoses, s.stopped⟩ : Enumeration).stopped = none)]
      have h := congrArg List.length hfound
      rw [hgiven, List.length_map, Search.diagnoses, List.length_map] at h
      exact h
    exact ⟨hnodup, hdrop, all, w, s, v, hrun, hfound, hlength ▸ hdrains, hgiven, hdrawn⟩

end Diagnosis
end ProductLine

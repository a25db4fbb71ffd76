import ProductLine.Proofs.Diagnosis.First
import ProductLine.Proofs.Diagnosis.Level

/-! # What the enumeration finds

With exact answers and without limits the enumeration goes through the extensions of the kept paths
in order, and what it accepts are the kept ones (`levels_exact`). So it finds the diagnoses that are
preferred on kept paths, and those only. All minimal diagnoses are found exactly if each of them is
preferred on a kept path (`enumerate_complete_iff`), which need not be so
(`enumerate_misses_minimal`). -/

namespace ProductLine
namespace Diagnosis

open Constraint

variable {σ : Type} {e : Setting σ} {keeps : σ → Prop} {fail : Failure → σ → Prop}
variable {candidates background path : List Constraint} {paths next : List (List Constraint)}

/-! ### Branches and paths -/

def Branch.at (candidates background path : List Constraint) : Branch :=
  ⟨preferredAt candidates background path, subtract candidates path, path, path.length⟩

/-- The search that has accepted the branches of paths, and has some of them to go on with. -/
def Search.at (candidates background : List Constraint) (paths next : List (List Constraint)) :
    Search :=
  ⟨paths.map (Branch.at candidates background), next.map (Branch.at candidates background), none⟩

theorem Search.diagnoses_at : (Search.at candidates background paths next).diagnoses =
    paths.map (preferredAt candidates background) := by
  unfold Search.diagnoses Search.at
  rw [List.map_map]
  rfl

theorem Search.accept_at :
    (Search.at candidates background paths next).accept (Branch.at candidates background path) =
      Search.at candidates background (paths ++ [path]) (next ++ [path]) := by
  unfold Search.accept Search.at
  rw [List.map_append, List.map_append]
  rfl

theorem isNew_iff {diagnosis : List Constraint} {accepted : List (List Constraint)} :
    isNew diagnosis accepted = true ↔ ∀ other ∈ accepted, ¬ids other ⊆ ids diagnosis := by
  unfold isNew
  rw [Bool.not_eq_true', List.any_eq_false]
  refine forall₂_congr fun other _ => not_congr ?_
  rw [List.all_eq_true]
  constructor
  · intro h i hi
    obtain ⟨c, hc, rfl⟩ := mem_ids.mp hi
    exact (isIn_iff c diagnosis).mp (h c hc)
  · exact fun h c hc => (isIn_iff c diagnosis).mpr (h (id_mem_ids hc))

theorem consider_none (s : Search) (b : Branch) : consider Limits.none s b =
    .ok (if b.diagnosis.isEmpty || !isNew b.diagnosis s.diagnoses then s else s.accept b) := by
  unfold consider
  cases b.diagnosis.isEmpty || !isNew b.diagnosis s.diagnoses <;> rfl

section exact

variable (hc : (ids candidates).Nodup) (hd : ∀ b ∈ background, b.id ∉ ids candidates)
include hc hd

/-- Among preferred diagnoses, those are new that no path accepted before prefers. -/
theorem isNew_preferredAt_iff (hp : IsPath candidates path)
    (hpaths : ∀ other ∈ paths, Kept candidates background other)
    (hne : preferredAt candidates background path ≠ []) :
    isNew (preferredAt candidates background path)
        (paths.map (preferredAt candidates background)) = true ↔
      ∀ other ∈ paths,
        preferredAt candidates background other ≠ preferredAt candidates background path := by
  rw [isNew_iff, List.forall_mem_map]
  refine forall₂_congr fun other ho => not_congr ⟨?_, ?_⟩
  · intro h
    refine preferredAt_eq_of_subset hc (isMinimal_preferredAt hc hd hp hne)
      (isMinimal_preferredAt hc hd (hpaths other ho).isPath (kept_iff.mp (hpaths other ho)).1) ?_
    intro d hd
    exact mem_of_id_mem hc preferredAt_subset (preferredAt_subset hd) (h (id_mem_ids hd))
  · intro h
    rw [h]
    exact List.Subset.refl _

variable (he : e.Exact keeps (background ++ candidates))
include he

/-- The search in the middle of a level: of the extensions of its paths, those so far are done. -/
noncomputable def Search.found (candidates background : List Constraint) (n : Nat)
    (earlier : List (List Constraint)) : Search :=
  Search.at candidates background
    (upTo candidates background n ++ keptOf candidates background earlier)
    (keptOf candidates background earlier)

omit hd he in
theorem consider_found {n : Nat} {earlier later : List (List Constraint)}
    (hnew : preferredAt candidates background path ≠ [] →
      (isNew (preferredAt candidates background path)
        ((upTo candidates background n ++ keptOf candidates background earlier).map
          (preferredAt candidates background)) = true ↔
      ∀ other ∈ upTo candidates background n ++ keptOf candidates background earlier,
        preferredAt candidates background other ≠ preferredAt candidates background path))
    (h : extensions candidates background (level candidates background n) =
      earlier ++ path :: later) :
    consider Limits.none (Search.found candidates background n earlier)
        (Branch.at candidates background path) =
      .ok (Search.found candidates background n (earlier ++ [path])) := by
  have hk := kept_iff_of_extensions hc h
  rw [consider_none]
  unfold Search.found
  rw [Search.diagnoses_at, keptOf_append, keptOf_singleton]
  refine congrArg Except.ok ?_
  show (if (preferredAt candidates background path).isEmpty || !isNew
    (preferredAt candidates background path) _ then _ else _) = _
  by_cases hempty : preferredAt candidates background path = []
  · have hnot : ¬Kept candidates background path := fun k => (hk.mp k).1 hempty
    rw [if_neg hnot, hempty, List.append_nil]
    rfl
  · have hfalse : (preferredAt candidates background path).isEmpty = false :=
      List.isEmpty_eq_false_iff.mpr hempty
    rw [hfalse, Bool.false_or]
    by_cases hk' : Kept candidates background path
    · have hn := (hnew hempty).mpr (hk.mp hk').2
      rw [if_pos hk', hn, Search.accept_at, List.append_assoc]
      rfl
    · have hn : isNew (preferredAt candidates background path) _ = false :=
        Bool.eq_false_iff.mpr fun k => hk' (hk.mpr ⟨hempty, (hnew hempty).mp k⟩)
      rw [if_neg hk', hn, List.append_nil]
      rfl

theorem expandAt_exact {n : Nat} {earlier later : List (List Constraint)} {c : Constraint}
    (start : Int)
    (h : extensions candidates background (level candidates background n) =
      earlier ++ (path ++ [c]) :: later) :
    Ensures keeps (expandAt e Limits.none start background
        (Branch.at candidates background path) (Search.found candidates background n earlier) c)
      (fun s t => s = Search.found candidates background n (earlier ++ [path ++ [c]]) ∧ keeps t)
      fun _ _ => False := by
  have hmem : path ++ [c] ∈ extensions candidates background (level candidates background n) := by
    rw [h]
    exact List.mem_append_right _ List.mem_cons_self
  obtain ⟨base, hbase, d, hdm, heq⟩ := mem_extensions.mp hmem
  obtain ⟨rfl, hcd⟩ := List.append_inj' heq rfl
  have hdc : d = c := List.singleton_inj.mp hcd
  subst hdc
  have hp : IsPath candidates (base ++ [d]) := (mem_level.mp hbase).1.isPath.append hdm
  -- what is new is told from the kept paths alone, which all have diagnoses of their own
  have hkept : ∀ other ∈ upTo candidates background n ++ keptOf candidates background earlier,
      Kept candidates background other := by
    intro other ho
    rcases List.mem_append.mp ho with ho | ho
    · exact (mem_upTo.mp ho).1
    · exact (mem_keptOf.mp ho).2
  have hfirst : Ensures keeps (first e (subtract candidates (base ++ [d]))
      (union background (base ++ [d])))
      (fun found s => found = preferredAt candidates background (base ++ [d]) ∧ keeps s)
      fun _ _ => False := by
    have hmoved : union background (base ++ [d]) ⊆ background ++ candidates :=
      union_subset (List.subset_append_left _ _) (List.subset_append_of_subset_right _ hp.subset)
    have hrest : subtract candidates (base ++ [d]) ⊆ background ++ candidates :=
      List.subset_append_of_subset_right _ subtract_subset
    exact first_exact he (ids_subtract_nodup hc) (union_apart_subtract hd)
      (List.append_subset.mpr ⟨hmoved, hrest⟩)
  show Ensures keeps (do
    let diagnosis ← first e (subtract (subtract candidates base) [d])
      (union background (base ++ [d]))
    orFail (consider Limits.none (Search.found candidates background n earlier)
      ⟨diagnosis, subtract (subtract candidates base) [d], base ++ [d], base.length + 1⟩)) _ _
  rw [← subtract_append]
  apply Ensures.bind hfirst
  intro diagnosis
  apply Ensures.assuming
  intro hdiag
  have hb : (⟨diagnosis, subtract candidates (base ++ [d]), base ++ [d], base.length + 1⟩ : Branch) =
      Branch.at candidates background (base ++ [d]) := by
    unfold Branch.at
    rw [hdiag, List.length_append, List.length_singleton]
  rw [hb, consider_found hc (fun hne => isNew_preferredAt_iff hc hd hp hkept hne) h]
  apply Ensures.pure
  intro _ hs
  exact ⟨rfl, hs⟩

omit hc hd he in
theorem unlessStopped_at {α : Type} (step : Search → α → EStateM Failure σ Search) (a : α) :
    unlessStopped step (Search.at candidates background paths next) a =
      step (Search.at candidates background paths next) a := rfl

/-- Expanding a branch goes through the extensions of its path. -/
theorem expand_exact {n : Nat} {earlier later : List (List Constraint)} (start : Int)
    (h : extensions candidates background (level candidates background n) =
      earlier ++ ((preferredAt candidates background path).map (path ++ [·]) ++ later)) :
    Ensures keeps (expand e Limits.none start background (Search.found candidates background n
        earlier) (Branch.at candidates background path))
      (fun s t => s = Search.found candidates background n
        (earlier ++ (preferredAt candidates background path).map (path ++ [·])) ∧ keeps t)
      fun _ _ => False := by
  refine (Ensures.foldlM_done (I := fun done s t =>
    s = Search.found candidates background n (earlier ++ done.map (path ++ [·])) ∧ keeps t)
    (l := preferredAt candidates background path) ?_).strengthen ?_
  · intro done c rest s hsplit
    apply Ensures.assuming
    intro hs
    rw [hs, Search.found, unlessStopped_at, ← Search.found, List.map_append, List.map_singleton,
      ← List.append_assoc]
    have hnext : extensions candidates background (level candidates background n) =
        (earlier ++ done.map (path ++ [·])) ++ (path ++ [c]) ::
          (rest.map (path ++ [·]) ++ later) := by
      rw [h, hsplit, List.map_append, List.map_cons]
      simp only [List.append_assoc, List.cons_append]
    exact expandAt_exact hc hd he start hnext
  · intro s hs
    rw [List.map_nil, List.append_nil]
    exact ⟨rfl, hs⟩

theorem level_exact (n : Nat) (start : Int) :
    Ensures keeps (((level candidates background n).map (Branch.at candidates background)).foldlM
        (unlessStopped (expand e Limits.none start background))
        (Search.at candidates background (upTo candidates background n) []))
      (fun s t => s = Search.at candidates background (upTo candidates background (n + 1))
        (level candidates background (n + 1)) ∧ keeps t) fun _ _ => False := by
  rw [List.foldlM_map]
  refine ((Ensures.foldlM_done (I := fun done s t =>
    s = Search.found candidates background n (extensions candidates background done) ∧ keeps t)
    (l := level candidates background n) ?_).strengthen ?_).weaken ?_
  · intro done path rest s hsplit
    apply Ensures.assuming
    intro hs
    have hext : ∀ paths others, extensions candidates background (paths ++ others) =
        extensions candidates background paths ++ extensions candidates background others :=
      fun _ _ => List.flatMap_append
    have hone : extensions candidates background [path] =
        (preferredAt candidates background path).map (path ++ [·]) := List.flatMap_singleton _ _
    rw [hs, Search.found, unlessStopped_at, ← Search.found, hext, hone]
    have hnext : extensions candidates background (level candidates background n) =
        extensions candidates background done ++
          ((preferredAt candidates background path).map (path ++ [·]) ++
            extensions candidates background rest) := by
      rw [hsplit, ← List.singleton_append, hext, hext, hone]
    exact expand_exact hc hd he start hnext
  · intro s hs
    refine ⟨?_, hs⟩
    unfold Search.found
    rw [extensions, List.flatMap_nil, keptOf, List.filter_nil, List.append_nil]
  · rintro s t ⟨rfl, ht⟩
    refine ⟨?_, ht⟩
    rw [upTo_succ]
    rfl

omit hc hd he in
theorem level_eq_nil {n : Nat} (h : candidates.length < n) : level candidates background n = [] := by
  refine List.eq_nil_iff_forall_not_mem.mpr ?_
  intro path hp
  obtain ⟨hk, hlen⟩ := mem_level.mp hp
  have := hk.isPath.length_le
  omega

omit hc hd he in
theorem level_eq_nil_of_le {n m : Nat} (h : level candidates background n = []) (hm : n ≤ m) :
    level candidates background m = [] := by
  induction m, hm using Nat.le_induction with
  | base => exact h
  | succ m _ ih =>
    unfold level
    rw [ih]
    rfl

/-- With enough fuel the search ends when it has accepted the kept paths. -/
theorem levels_exact (start : Int) (fuel n : Nat) (hfuel : candidates.length + 1 ≤ n + fuel) :
    Ensures keeps (levels e Limits.none start background fuel (Search.at candidates background
        (upTo candidates background n) (level candidates background n)))
      (fun s t => (∃ paths, s = Search.at candidates background paths [] ∧
        ∀ path, path ∈ paths ↔ Kept candidates background path) ∧ keeps t) fun _ _ => False := by
  -- a prefix of a kept path is kept, so nothing is kept beyond an empty level
  have hdone : ∀ k, level candidates background k = [] → ∀ path,
      path ∈ upTo candidates background k ↔ Kept candidates background path := by
    intro k hk path
    rw [mem_upTo]
    refine ⟨fun h => h.1, fun h => ⟨h, ?_⟩⟩
    by_contra hlt
    have hnil := level_eq_nil_of_le hk (Nat.le_of_lt (Nat.lt_of_not_le hlt))
    have hmem : path ∈ level candidates background path.length := mem_level.mpr ⟨h, rfl⟩
    rw [hnil] at hmem
    exact List.not_mem_nil hmem
  induction fuel generalizing n with
  | zero =>
    have hnil : level candidates background n = [] := level_eq_nil (by omega)
    apply Ensures.pure
    intro t ht
    refine ⟨⟨upTo candidates background n, ?_, hdone n hnil⟩, ht⟩
    rw [hnil]
  | succ fuel ih =>
    unfold levels
    apply Ensures.bind (level_exact hc hd he n start)
    intro s
    apply Ensures.assuming
    intro hs
    rw [hs]
    by_cases hnil : level candidates background (n + 1) = []
    · rw [hnil]
      apply Ensures.pure
      intro t ht
      exact ⟨⟨_, rfl, hdone (n + 1) hnil⟩, ht⟩
    · have hne : (Search.at candidates background (upTo candidates background (n + 1))
          (level candidates background (n + 1))).next.isEmpty = false := by
        rw [List.isEmpty_eq_false_iff]
        exact fun k => hnil (List.map_eq_nil_iff.mp k)
      rw [hne]
      exact ih (n + 1) (by omega)

theorem search_exact
    (hclock : ∀ x y, e.Reads keeps x → e.Reads keeps y → (Binary64.roundInt? (y - x)).isSome)
    (hkept : Kept candidates background []) :
    Ensures keeps (search e Limits.none (preferred candidates background) candidates background)
      (fun s t => (∃ paths, s = Search.at candidates background paths [] ∧
        ∀ path, path ∈ paths ↔ Kept candidates background path) ∧ keeps t)
      fun _ _ => False := by
  have hlevel : level candidates background 0 = [[]] := by
    unfold level
    rw [keptOf_singleton, if_pos hkept]
  have hstart : Search.start (preferred candidates background) candidates = Search.at candidates
      background (upTo candidates background 0) (level candidates background 0) := by
    unfold upTo
    rw [List.range_one, List.flatMap_singleton, hlevel]
    unfold Search.start Search.at Branch.at
    rw [List.map_singleton, preferredAt_nil, subtract_nil]
    rfl
  unfold search
  rw [hstart]
  apply Ensures.bind he.reading
  intro start
  apply Ensures.assuming
  intro hx
  apply Ensures.bind (levels_exact hc hd he start (candidates.length + 2) 0 (by omega))
  intro s
  apply Ensures.assuming
  intro hlevels
  obtain ⟨paths, hs, hpaths⟩ := hlevels
  rw [hs]
  apply Ensures.bind he.reading
  intro now
  apply Ensures.assuming
  intro hy
  obtain ⟨seconds, hseconds⟩ := Option.isSome_iff_exists.mp (hclock start now hx hy)
  rw [hseconds]
  apply Ensures.bind (he.note _)
  intro _
  apply Ensures.pure
  intro t ht
  exact ⟨⟨paths, rfl, hpaths⟩, ht⟩

/-- What the enumeration finds is what is preferred on the kept paths. -/
theorem enumerate_exact
    (hclock : ∀ x y, e.Reads keeps x → e.Reads keeps y → (Binary64.roundInt? (y - x)).isSome)
    (hne : preferred candidates background ≠ []) :
    Ensures keeps
      (enumerate e Limits.none (preferred candidates background) candidates background)
      (fun all s => (all.stopped = none ∧ ∀ diagnosis, diagnosis ∈ all.diagnoses ↔
        ∃ path, Kept candidates background path ∧
          preferredAt candidates background path = diagnosis) ∧ keeps s)
      fun _ _ => False := by
  have hkept : Kept candidates background [] := by
    rw [kept_nil_iff, preferredAt_nil]
    exact hne
  unfold enumerate
  rw [List.isEmpty_eq_false_iff.mpr hne]
  apply Ensures.bind (search_exact hc hd he hclock hkept)
  intro s
  apply Ensures.assuming
  intro hsearch
  apply Ensures.pure
  intro t ht
  obtain ⟨paths, hs, hpaths⟩ := hsearch
  refine ⟨⟨?_, ?_⟩, ht⟩
  · rw [hs]
    rfl
  · intro diagnosis
    rw [hs, Search.diagnoses_at, List.mem_map]
    exact exists_congr fun path => and_congr_left fun _ => hpaths path

/-- **When nothing is missed.** With exact answers and without limits, a conflict over a background
that can hold is explained by all its minimal diagnoses exactly if every one of them is preferred on
a kept path: the way to it must never come back to a diagnosis that a kept path before it prefers,
for the search gives up there. -/
theorem enumerate_complete_iff
    (hclock : ∀ x y, e.Reads keeps x → e.Reads keeps y → (Binary64.roundInt? (y - x)).isSome)
    (hb : Consistent (union background [])) (hall : ¬Consistent (union background candidates))
    {s : σ} (hs : keeps s) :
    ∃ found t all u, first e candidates background s = .ok found t ∧
      enumerate e Limits.none found candidates background t = .ok all u ∧ all.stopped = none ∧
      ((∀ diagnosis, IsMinimal candidates background diagnosis →
          ∃ d ∈ all.diagnoses, ∀ i, i ∈ ids d ↔ i ∈ ids diagnosis) ↔
        ∀ diagnosis, IsMinimal candidates background diagnosis →
          ∃ path, Kept candidates background path ∧
            ∀ i, i ∈ ids (preferredAt candidates background path) ↔ i ∈ ids diagnosis) := by
  have hne : preferred candidates background ≠ [] := by
    rw [ne_eq, preferred_eq_nil_iff hc hd]
    exact fun h => h.elim hall fun k => k hb
  obtain ⟨found, t, hfirst, rfl, ht⟩ := (first_exact he hc hd (List.Subset.refl _)).returns hs
  obtain ⟨all, u, hrun, ⟨hstop, hmem⟩, -⟩ := (enumerate_exact hc hd he hclock hne).returns ht
  refine ⟨_, t, all, u, hfirst, hrun, hstop, forall₂_congr ?_⟩
  intro diagnosis _
  constructor
  · rintro ⟨d, hdm, hids⟩
    obtain ⟨path, hk, rfl⟩ := (hmem d).mp hdm
    exact ⟨path, hk, hids⟩
  · rintro ⟨path, hk, hids⟩
    exact ⟨_, (hmem _).mpr ⟨path, hk, rfl⟩, hids⟩

end exact

theorem Setting.truthful_clock (x y : Int) (hx : Setting.truthful.Reads (fun _ => True) x)
    (hy : Setting.truthful.Reads (fun _ => True) y) : (Binary64.roundInt? (y - x)).isSome := by
  obtain ⟨_, _, -, hx⟩ := hx
  obtain ⟨_, _, -, hy⟩ := hy
  cases hx
  cases hy
  decide +kernel

theorem enumerate_complete_iff_crossed :
    (ids crossed).Nodup ∧ Consistent (union [] []) ∧ ¬Consistent (union [] crossed) ∧
      ∃ found t all u, first Setting.truthful crossed [] () = .ok found t ∧
        enumerate Setting.truthful Limits.none found crossed [] t = .ok all u ∧
        all.stopped = none ∧
        ((∀ diagnosis, IsMinimal crossed [] diagnosis →
            ∃ d ∈ all.diagnoses, ∀ i, i ∈ ids d ↔ i ∈ ids diagnosis) ↔
          ∀ diagnosis, IsMinimal crossed [] diagnosis →
            ∃ path, Kept crossed [] path ∧
              ∀ i, i ∈ ids (preferredAt crossed [] path) ↔ i ∈ ids diagnosis) := by
  have hnodup : (ids crossed).Nodup := by decide
  have hnone : Consistent (union [] []) := by
    rw [consistent_iff]
    decide
  have hall : ¬Consistent (union [] crossed) := by
    rw [consistent_iff]
    decide
  exact ⟨hnodup, hnone, hall, enumerate_complete_iff hnodup
    (List.forall_mem_nil _) (Setting.truthful_exact ([] ++ crossed))
    Setting.truthful_clock hnone hall trivial⟩

/-- The third and the fourth of the crossed constraints are a minimal diagnosis, but the enumeration
does not find it. The only way to it keeps the first constraint. There the second and the fourth are
preferred, which was found before by keeping the third. -/
theorem enumerate_misses_minimal :
    (ids crossed).Nodup ∧ Consistent (union [] []) ∧ ¬Consistent (union [] crossed) ∧
      IsMinimal crossed [] (crossed.drop 2) ∧
      ∃ found t all u, first Setting.truthful crossed [] () = .ok found t ∧
        enumerate Setting.truthful Limits.none found crossed [] t = .ok all u ∧
        all.stopped = none ∧ all.diagnoses.map ids = [[3, 1], [4, 2]] ∧
        ∀ d ∈ all.diagnoses, ¬∀ i, i ∈ ids d ↔ i ∈ ids (crossed.drop 2) := by
  have hnodup : (ids crossed).Nodup := by decide
  have hpair : ∀ cs : List Constraint, Formula.satisfiable (formulas cs) = false →
      ¬Consistent cs := fun cs h => by
    rw [consistent_iff, h]
    exact Bool.false_ne_true
  refine ⟨hnodup, (consistent_iff _).mpr (by decide), hpair _ (by decide),
    ⟨⟨List.drop_subset 2 crossed, (consistent_iff _).mpr (by decide)⟩, ?_⟩, ?_⟩
  · -- each of the two excludes one of the constraints that stay
    intro part hpart hdiag c hc
    by_contra hnot
    have hcons := hdiag.2
    rw [union_of_nodup (ids_subtract_nodup hnodup), List.nil_append] at hcons
    have hstays : ∀ d ∈ crossed, d ∉ part → d ∈ subtract crossed part := fun d hd hn =>
      (mem_subtract_of_subset hnodup hdiag.1).mpr ⟨hd, hn⟩
    have hhead : ∀ d ∈ crossed.take 2, d ∈ subtract crossed part := fun d hd =>
      hstays d (List.take_subset 2 crossed hd) fun k =>
        List.disjoint_take_drop (List.Nodup.of_map _ hnodup) (Nat.le_refl 2) hd (hpart k)
    have htail : c ∈ subtract crossed part := hstays c (List.drop_subset 2 crossed hc) hnot
    rcases List.mem_cons.mp hc with rfl | hc
    · refine hpair [crossed[1], crossed[2]] (by decide) (hcons.mono ?_)
      exact List.cons_subset.mpr ⟨hhead _ (.tail _ (.head _)),
        List.cons_subset.mpr ⟨htail, List.nil_subset _⟩⟩
    · rw [List.mem_singleton.mp hc] at htail
      refine hpair [crossed[0], crossed[3]] (by decide) (hcons.mono ?_)
      exact List.cons_subset.mpr ⟨hhead _ (.head _),
        List.cons_subset.mpr ⟨htail, List.nil_subset _⟩⟩
  · have hrun : (match first Setting.truthful crossed [] () with
        | .ok found t =>
          match enumerate Setting.truthful Limits.none found crossed [] t with
          | .ok all _ => all.stopped.isNone && all.diagnoses.map ids == [[3, 1], [4, 2]]
          | .error _ _ => false
        | .error _ _ => false) = true := by decide +kernel
    split at hrun
    · next found t hfirst =>
      split at hrun
      · next all u hall =>
        rw [Bool.and_eq_true, beq_iff_eq, Option.isNone_iff_eq_none] at hrun
        refine ⟨found, t, all, u, hfirst, hall, hrun.1, hrun.2, ?_⟩
        intro d hd
        have hids : ids d ∈ [[3, 1], [4, 2]] := hrun.2 ▸ List.mem_map_of_mem hd
        rcases List.mem_cons.mp hids with h | h
        · rw [h]
          exact fun k => absurd ((k 1).mp (by decide)) (by decide)
        · rw [List.mem_singleton.mp h]
          exact fun k => absurd ((k 2).mp (by decide)) (by decide)
      · exact absurd hrun Bool.false_ne_true
    · exact absurd hrun Bool.false_ne_true

end Diagnosis
end ProductLine

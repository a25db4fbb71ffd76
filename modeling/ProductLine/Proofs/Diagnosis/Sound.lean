import ProductLine.Proofs.Diagnosis.First
import ProductLine.Proofs.Outcome

/-! # Whatever the enumeration finds is a diagnosis

In an honest setting a no may be wrong. This costs diagnoses and their minimality, but never their
soundness: what is moved to the background stays apart from what is left to a branch, so that a
diagnosis of a branch is one of all candidates (`Branch.Sound`), whatever limit ends the search
(`enumerate_honest`). -/

namespace ProductLine
namespace Diagnosis

open Constraint Outcome

variable {σ : Type} {e : Setting σ} {keeps : σ → Prop} {fail : Failure → σ → Prop}
variable {candidates background found : List Constraint} {limits : Limits}

/-! ### Limits -/

/-- Every bound that is given is a number. -/
def Limits.Numeric (limits : Limits) : Prop :=
  ∀ bound ∈ [limits.diagnoses, limits.depth, limits.seconds],
    bound = .null ∨ bound.number?.isSome

/-- A bound is no number, and the enumeration fails for that. -/
def Limits.Refuses (limits : Limits) (failure : Failure) : Prop :=
  ¬limits.Numeric ∧ ∃ bound, failure = .notANumber bound

/-- What can go wrong in an enumeration by itself: a bound is no number, or the clock overruns. -/
def Limits.Trouble (limits : Limits) (failure : Failure) : Prop :=
  limits.Numeric → failure = .clockOverrun

theorem Limits.refuses_of_number? {bound : Value} {failure : Failure}
    (hbound : bound ∈ [limits.diagnoses, limits.depth, limits.seconds])
    (h : number? bound = .error failure) : limits.Refuses failure := by
  have hnot : bound ≠ .null ∧ bound.number? = .none ∧ failure = .notANumber bound := by
    unfold number? at h
    split at h
    · cases h
    · cases h
    · next hnull hnone =>
      cases h
      exact ⟨hnull, hnone, rfl⟩
  obtain ⟨hnull, hnone, rfl⟩ := hnot
  refine ⟨?_, bound, rfl⟩
  intro hnum
  rcases hnum bound hbound with hb | hb
  · exact hnull hb
  · rw [hnone] at hb
    exact Bool.false_ne_true hb

theorem Limits.stop?_refuses {count depth : Nat} {failure : Failure}
    (h : limits.stop? count depth = .error failure) : limits.Refuses failure := by
  unfold stop? at h
  cases hmost : number? limits.diagnoses with
  | error e =>
    rw [hmost] at h
    cases h
    exact refuses_of_number? List.mem_cons_self hmost
  | ok most =>
    cases hdeepest : number? limits.depth with
    | error e =>
      rw [hmost, hdeepest] at h
      change ite _ _ _ = _ at h
      split at h
      · cases h
      · cases h
        exact refuses_of_number? (List.mem_cons_of_mem _ List.mem_cons_self) hdeepest
    | ok deepest =>
      rw [hmost, hdeepest] at h
      change ite _ _ (ite _ _ _) = _ at h
      split at h
      · cases h
      · split at h
        · cases h
        · cases h

theorem Limits.overtime?_refuses {elapsed : Int} {failure : Failure}
    (h : limits.overtime? elapsed = .error failure) : limits.Refuses failure := by
  unfold overtime? at h
  cases hlongest : number? limits.seconds with
  | error e =>
    rw [hlongest] at h
    cases h
    exact refuses_of_number?
      (List.mem_cons_of_mem _ (List.mem_cons_of_mem _ (List.mem_singleton_self _))) hlongest
  | ok longest =>
    rw [hlongest] at h
    change ite _ _ _ = _ at h
    split at h
    · cases h
    · cases h

/-! ### Branches -/

/-- A part of the candidates without which the others can hold with the background. -/
structure Repairs (candidates background diagnosis : List Constraint) : Prop where
  subset : diagnosis ⊆ candidates
  consistent : Consistent (union background (subtract candidates diagnosis))

/-- The branch divides the candidates, and what it found repairs all of them. -/
structure Branch.Sound (candidates background : List Constraint) (b : Branch) : Prop where
  candidates_eq : b.candidates = subtract candidates b.excluded
  excluded : b.excluded ⊆ candidates
  nodup : (ids b.excluded).Nodup
  subset : b.diagnosis ⊆ b.candidates
  repairs : Repairs candidates background b.diagnosis

section honest

variable (hc : (ids candidates).Nodup) (hd : ∀ b ∈ background, b.id ∉ ids candidates)
include hc hd

theorem repairs_of_moved {excluded : List Constraint} (hex : excluded ⊆ candidates)
    (hnd : (ids excluded).Nodup) (hsub : found ⊆ subtract candidates excluded)
    (hcons : Consistent (union (union background excluded)
      (subtract (subtract candidates excluded) found))) :
    Repairs candidates background found := by
  refine ⟨List.Subset.trans hsub subtract_subset, hcons.mono ?_⟩
  have hapart : (ids (excluded ++ subtract (subtract candidates excluded) found)).Nodup := by
    rw [ids_append, List.nodup_append]
    refine ⟨hnd, ids_subtract_nodup (ids_subtract_nodup hc), ?_⟩
    intro i hi j hj hij
    obtain ⟨c, hmem, rfl⟩ := mem_ids.mp hj
    exact (mem_subtract.mp (subtract_subset hmem)).2 (hij ▸ hi)
  have hall : excluded ++ subtract (subtract candidates excluded) found ⊆ candidates :=
    List.append_subset.mpr ⟨hex, List.Subset.trans subtract_subset subtract_subset⟩
  rw [union_union, union_eq_append hapart (apart_of_subset hd hall),
    union_eq_append (ids_subtract_nodup hc) (apart_of_subset hd subtract_subset)]
  refine List.append_subset.mpr ⟨List.subset_append_left _ _, ?_⟩
  intro c hmem
  obtain ⟨hcand, hnot⟩ := mem_subtract.mp hmem
  refine List.mem_append_right _ (List.mem_append.mpr ?_)
  by_cases hi : c.id ∈ ids excluded
  · exact .inl (mem_of_id_mem hc hex hcand hi)
  · exact .inr (mem_subtract.mpr ⟨mem_subtract.mpr ⟨hcand, hi⟩, hnot⟩)

end honest

/-! ### Runs of steps -/

section runs

variable {start : Int} {I : Search → Prop} {good : Branch → Prop}

theorem unlessStopped_keeps {α : Type} {step : Search → α → EStateM Failure σ Search} {s : Search}
    {a : α} (hs : I s)
    (h : Ensures keeps (step s a) (fun s' t => I s' ∧ keeps t) fail) :
    Ensures keeps (unlessStopped step s a) (fun s' t => I s' ∧ keeps t) fail := by
  unfold unlessStopped
  split
  · apply Ensures.pure
    intro t ht
    exact ⟨hs, ht⟩
  · exact h

theorem foldlM_unlessStopped_keeps {α : Type} {step : Search → α → EStateM Failure σ Search}
    {l : List α} {s : Search} (hs : I s)
    (hstep : ∀ a ∈ l, ∀ s, I s → Ensures keeps (step s a) (fun s' t => I s' ∧ keeps t) fail) :
    Ensures keeps (l.foldlM (unlessStopped step) s) (fun s' t => I s' ∧ keeps t) fail := by
  apply (Ensures.foldlM (I := fun s' t => I s' ∧ keeps t) ?_).strengthen fun t ht => ⟨hs, ht⟩
  intro s' a ha
  apply Ensures.assuming
  intro hs'
  exact unlessStopped_keeps hs' (hstep a ha s' hs')

/-- What the search keeps when one branch is expanded at one constraint, it keeps level by level. -/
theorem levels_keeps (hnext : ∀ s, I s → ∀ b ∈ s.next, good b)
    (hclear : ∀ s, I s → I { s with next := [] })
    (hstep : ∀ b, good b → ∀ c ∈ b.diagnosis, ∀ s, I s →
      Ensures keeps (expandAt e limits start background b s c) (fun s' t => I s' ∧ keeps t) fail)
    (fuel : Nat) {s : Search} (hs : I s) :
    Ensures keeps (levels e limits start background fuel s) (fun s' t => I s' ∧ keeps t) fail := by
  induction fuel generalizing s with
  | zero => exact Ensures.pure fun t ht => ⟨hs, ht⟩
  | succ fuel ih =>
    have hlevel : Ensures keeps
        (s.next.foldlM (unlessStopped (expand e limits start background)) { s with next := [] })
        (fun s' t => I s' ∧ keeps t) fail := by
      apply foldlM_unlessStopped_keeps (hclear s hs)
      intro b hb s' hs'
      unfold expand
      exact foldlM_unlessStopped_keeps hs' (hstep b (hnext s hs b hb))
    unfold levels
    apply Ensures.bind hlevel
    intro s'
    apply Ensures.assuming
    intro hs'
    split
    · apply Ensures.pure
      intro t ht
      exact ⟨hs', ht⟩
    · exact ih hs'

/-- What the search keeps when one branch is expanded at one constraint, it keeps to its end. Only
the limits and the clock can make it fail besides. -/
theorem search_keeps {told : List Int → σ → Prop} {all : List Constraint}
    (he : e.Timed told fail all)
    (hoverrun : ∀ start now s, Binary64.roundInt? (now - start) = none →
      told [now, start] s → fail .clockOverrun s)
    (hnext : ∀ s, I s → ∀ b ∈ s.next, good b) (hclear : ∀ s, I s → I { s with next := [] })
    (hstep : ∀ start b, good b → ∀ c ∈ b.diagnosis, ∀ s, I s →
      Ensures (told [start]) (expandAt e limits start background b s c)
        (fun s' t => I s' ∧ told [start] t) fail)
    (hs : I (Search.start found candidates)) :
    Ensures (told []) (search e limits found candidates background)
      (fun s t => I s ∧ told [] t) fail := by
  unfold search
  apply Ensures.bind (he.readClock [])
  intro start
  apply Ensures.bind (levels_keeps hnext hclear (hstep start) _ hs)
  intro s
  apply Ensures.assuming
  intro hs
  split
  · apply Ensures.bind (he.readClock [start])
    intro now
    have hforget : ∀ t, told [now, start] t → told [] t := fun t ht => he.forget (he.forget ht)
    split
    · apply Ensures.bind ((he.honest [now, start]).note _)
      intro _
      apply Ensures.pure
      intro t ht
      exact ⟨hs, hforget t ht⟩
    · next hround =>
      apply Ensures.bind (Ensures.throw (hoverrun start now · hround))
      intro _
      apply Ensures.pure
      intro t ht
      exact ⟨hs, hforget t ht⟩
  · apply Ensures.pure
    intro t ht
    exact ⟨hs, he.forget ht⟩

end runs

/-! ### The search -/

/-- Every branch of the search is sound. -/
structure Search.Sound (candidates background : List Constraint) (s : Search) : Prop where
  accepted : ∀ b ∈ s.accepted, b.Sound candidates background
  next : ∀ b ∈ s.next, b.Sound candidates background

theorem Search.Sound.stopAt {s : Search} (h : s.Sound candidates background) (limit : Limit) :
    (s.stopAt limit).Sound candidates background := ⟨h.accepted, h.next⟩

theorem Search.Sound.accept {s : Search} (h : s.Sound candidates background) {b : Branch}
    (hb : b.Sound candidates background) : (s.accept b).Sound candidates background :=
  ⟨List.forall_mem_append.mpr ⟨h.accepted, List.forall_mem_singleton.mpr hb⟩,
    List.forall_mem_append.mpr ⟨h.next, List.forall_mem_singleton.mpr hb⟩⟩

theorem consider_sound {s s' : Search} {b : Branch} (hs : s.Sound candidates background)
    (hb : b.diagnosis ≠ [] → b.Sound candidates background)
    (h : consider limits s b = .ok s') : s'.Sound candidates background := by
  unfold consider at h
  split at h
  · cases h
    exact hs
  · next hnew =>
    have hne : b.diagnosis ≠ [] := fun hnil => hnew (by rw [hnil]; rfl)
    obtain ⟨stop, -, h⟩ := bind_eq_ok_iff.mp h
    cases stop with
    | some limit =>
      cases h
      exact hs.stopAt limit
    | none =>
      cases h
      exact hs.accept (hb hne)

theorem consider_refuses {s : Search} {b : Branch} {failure : Failure}
    (h : consider limits s b = .error failure) : limits.Refuses failure := by
  unfold consider at h
  split at h
  · cases h
  · cases hstop : limits.stop? s.accepted.length b.depth with
    | error e =>
      rw [hstop] at h
      cases h
      exact Limits.stop?_refuses hstop
    | ok stop =>
      rw [hstop] at h
      cases stop <;> cases h

section search

variable (hc : (ids candidates).Nodup) (hd : ∀ b ∈ background, b.id ∉ ids candidates)
variable (he : e.Honest keeps fail (background ++ candidates))
variable (hrefused : ∀ failure s, limits.Refuses failure → keeps s → fail failure s)

include hrefused in
theorem overtime_ensures (hread : Ensures keeps e.readClock (fun _ => keeps) fail) (start : Int) :
    Ensures keeps (overtime e limits start) (fun _ => keeps) fail := by
  unfold overtime
  split
  · apply Ensures.bind hread
    intro now
    refine Ensures.orFail (fun _ _ _ => id) ?_
    intro failure h s
    exact hrefused failure s (Limits.overtime?_refuses h)
  · apply Ensures.pure
    intro _
    exact id

include hc hd he hrefused

theorem expandAt_honest (start : Int) {b : Branch} (hb : b.Sound candidates background)
    {c : Constraint} (hmem : c ∈ b.diagnosis) {s : Search} (hs : s.Sound candidates background) :
    Ensures keeps (expandAt e limits start background b s c)
      (fun s' t => s'.Sound candidates background ∧ keeps t) fail := by
  unfold expandAt
  apply Ensures.bind (overtime_ensures hrefused he.readClock start)
  intro passed
  cases passed with
  | some limit => exact Ensures.pure fun t ht => ⟨hs.stopAt limit, ht⟩
  | none =>
    have hleft : c ∈ subtract candidates b.excluded := hb.candidates_eq ▸ hb.subset hmem
    have hcand : subtract b.candidates [c] = subtract candidates (b.excluded ++ [c]) := by
      rw [hb.candidates_eq, subtract_append]
    have hex : b.excluded ++ [c] ⊆ candidates := List.append_subset.mpr
      ⟨hb.excluded, List.cons_subset.mpr ⟨subtract_subset hleft, List.nil_subset _⟩⟩
    have hnd : (ids (b.excluded ++ [c])).Nodup :=
      ids_append_singleton_nodup hb.nodup (mem_subtract.mp hleft).2
    have hapart : ∀ d ∈ union background (b.excluded ++ [c]),
        d.id ∉ ids (subtract candidates (b.excluded ++ [c])) := union_apart_subtract hd
    have hmoved : union background (b.excluded ++ [c]) ⊆ background ++ candidates :=
      union_subset (List.subset_append_left _ _) (List.subset_append_of_subset_right _ hex)
    have hrest : subtract candidates (b.excluded ++ [c]) ⊆ background ++ candidates :=
      List.subset_append_of_subset_right _ subtract_subset
    have hall := List.append_subset.mpr ⟨hmoved, hrest⟩
    rw [hcand]
    apply Ensures.bind (first_honest he (ids_subtract_nodup hc) hapart hall)
    intro found
    apply Ensures.assuming
    intro hfound
    have hsub : found ⊆ subtract candidates (b.excluded ++ [c]) := fun d hdmem =>
      List.mem_reverse.mp (hfound.1.subset hdmem)
    apply Ensures.orFail
    · intro s' h t ht
      refine ⟨consider_sound hs ?_ h, ht⟩
      intro hne
      exact ⟨rfl, hex, hnd, hsub, repairs_of_moved hc hd hex hnd hsub (hfound.2 hne)⟩
    · intro failure h t
      exact hrefused failure t (consider_refuses h)

end search

/-! ### The whole enumeration -/

section enumeration

variable {told : List Int → σ → Prop}
variable (hc : (ids candidates).Nodup) (hd : ∀ b ∈ background, b.id ∉ ids candidates)
variable (he : e.Timed told fail (background ++ candidates))
variable (hrefused : ∀ failure times s, limits.Refuses failure → told times s → fail failure s)
variable (hoverrun : ∀ start now s, Binary64.roundInt? (now - start) = none →
  told [now, start] s → fail .clockOverrun s)
include hc hd he hrefused hoverrun

theorem search_honest (hfound : Repairs candidates background found) :
    Ensures (told []) (search e limits found candidates background)
      (fun s t => s.Sound candidates background ∧ told [] t) fail := by
  have hb : Branch.Sound candidates background ⟨found, candidates, [], 0⟩ :=
    ⟨subtract_nil.symm, List.nil_subset _, List.nodup_nil, hfound.subset, hfound⟩
  have hs : (Search.start found candidates).Sound candidates background :=
    ⟨List.forall_mem_singleton.mpr hb, List.forall_mem_singleton.mpr hb⟩
  exact search_keeps he hoverrun (fun _ h => h.next)
    (fun _ h => ⟨h.accepted, List.forall_mem_nil _⟩)
    (fun start _ hb _ hmem _ hs => expandAt_honest hc hd (he.honest [start])
      (fun failure => hrefused failure [start]) start hb hmem hs) hs

theorem enumerate_honest
    (hfound : found ⊆ candidates ∧
      (found ≠ [] → Consistent (union background (subtract candidates found)))) :
    Ensures (told []) (enumerate e limits found candidates background)
      (fun all t => (∀ d ∈ all.diagnoses, Repairs candidates background d) ∧ told [] t) fail := by
  unfold enumerate
  split
  · apply Ensures.pure
    intro t ht
    exact ⟨List.forall_mem_nil _, ht⟩
  · next hne =>
    rw [List.isEmpty_iff] at hne
    apply Ensures.bind (search_honest hc hd he hrefused hoverrun ⟨hfound.1, hfound.2 hne⟩)
    intro s
    apply Ensures.assuming
    intro hs
    apply Ensures.pure
    intro t ht
    refine ⟨?_, ht⟩
    intro d hdmem
    obtain ⟨b, hb, rfl⟩ := List.mem_map.mp hdmem
    exact (hs.accepted b hb).repairs

end enumeration
end Diagnosis
end ProductLine

import ProductLine.Proofs.Diagnosis.Enumeration
import ProductLine.Proofs.Diagnosis.Sound

/-! # Enumerated diagnoses do not contain each other

With exact answers every branch of the enumeration lies on a path (`Branch.OnPath`), so that what it
found is a minimal diagnosis of all candidates and not only of those that were left to it. A branch
is turned down if its diagnosis contains an accepted one. That it is not contained in an accepted one
either is not looked at; it follows from the minimality of both. So what the enumeration has
accepted when it ends, at a limit or not, are minimal diagnoses of which none contains another
(`enumerate_minimal`). -/

namespace ProductLine
namespace Diagnosis

open Constraint Outcome

variable {σ : Type} {e : Setting σ} {keeps : σ → Prop} {fail : Failure → σ → Prop}
variable {all candidates background path : List Constraint} {limits : Limits}

/-! ### Exact settings that are asked for the time -/

/-- What the clock has told in an exact setting. -/
def Setting.Tells (e : Setting σ) (keeps : σ → Prop) (times : List Int) (s : σ) : Prop :=
  (∀ now ∈ times, e.Reads keeps now) ∧ keeps s

/-- The time between two readings of the clock may be too long to be told. -/
def Setting.Overruns (e : Setting σ) (keeps : σ → Prop) : Prop :=
  ∃ x y, e.Reads keeps x ∧ e.Reads keeps y ∧ Binary64.roundInt? (y - x) = none

theorem Setting.Exact.tells (he : e.Exact keeps all) (times : List Int) :
    e.Exact (e.Tells keeps times) all where
  isConsistent cs h := Ensures.assuming fun ht =>
    (he.isConsistent cs h).weaken fun _ _ k => ⟨k.1, ht, k.2⟩
  note n := Ensures.assuming fun ht => (he.note n).weaken fun _ _ k => ⟨ht, k⟩
  readClock := Ensures.assuming fun ht => he.readClock.weaken fun _ _ k => ⟨ht, k⟩

/-- An exact setting is an honest one in which it is kept in mind what the clock has told. -/
theorem Setting.Exact.timed (he : e.Exact keeps all) : e.Timed (e.Tells keeps) fail all where
  honest times := (he.tells times).honest
  readClock _ := Ensures.assuming fun ht => (he.reading.weaken fun _ _ k =>
    ⟨List.forall_mem_cons.mpr ⟨k.1, ht⟩, k.2⟩).weakenFail fun _ _ => False.elim
  forget h := ⟨fun now hnow => h.1 now (List.mem_cons_of_mem _ hnow), h.2⟩

/-! ### Branches on paths -/

/-- What was moved to the background is a path, and the branch has what is preferred there. -/
structure Branch.OnPath (candidates background : List Constraint) (b : Branch) : Prop where
  eq_at : b = Branch.at candidates background b.excluded
  isPath : IsPath candidates b.excluded
  ne_nil : b.diagnosis ≠ []

/-- Diagnoses of which neither contains the other. -/
def Apart (d d' : List Constraint) : Prop := ¬ids d ⊆ ids d' ∧ ¬ids d' ⊆ ids d

/-- All branches lie on paths, the first one on the empty path, and no diagnosis contains another. -/
structure Search.Spread (candidates background : List Constraint) (s : Search) : Prop where
  accepted : ∀ b ∈ s.accepted, b.OnPath candidates background
  next : ∀ b ∈ s.next, b.OnPath candidates background
  head : s.diagnoses.head? = some (preferred candidates background)
  apart : s.diagnoses.Pairwise Apart

theorem Search.Spread.stopAt {s : Search} (h : s.Spread candidates background) (limit : Limit) :
    (s.stopAt limit).Spread candidates background := ⟨h.accepted, h.next, h.head, h.apart⟩

theorem Search.diagnoses_accept (s : Search) (b : Branch) :
    (s.accept b).diagnoses = s.diagnoses ++ [b.diagnosis] := List.map_append

section exact

variable (hc : (ids candidates).Nodup) (hd : ∀ b ∈ background, b.id ∉ ids candidates)
include hc hd

theorem Branch.OnPath.isMinimal {b : Branch} (h : b.OnPath candidates background) :
    IsMinimal candidates background b.diagnosis := by
  have hne := h.ne_nil
  rw [h.eq_at] at hne ⊢
  exact isMinimal_preferredAt hc hd h.isPath hne

/-- A new diagnosis on a path is contained in none that was accepted. -/
theorem Branch.OnPath.apart {a b : Branch} (ha : a.OnPath candidates background)
    (hb : b.OnPath candidates background) (hnew : ¬ids a.diagnosis ⊆ ids b.diagnosis) :
    Apart a.diagnosis b.diagnosis := by
  refine ⟨hnew, ?_⟩
  intro hsub
  have hmin := ha.isMinimal hc hd
  have hpart : b.diagnosis ⊆ a.diagnosis := fun d hdmem =>
    mem_of_id_mem hc hmin.1.1 ((hb.isMinimal hc hd).1.1 hdmem) (hsub (id_mem_ids hdmem))
  exact hnew (List.map_subset _ (hmin.2 _ hpart (hb.isMinimal hc hd).1))

theorem Search.Spread.accept {s : Search} (h : s.Spread candidates background) {b : Branch}
    (hb : b.OnPath candidates background) (hnew : isNew b.diagnosis s.diagnoses = true) :
    (s.accept b).Spread candidates background where
  accepted := List.forall_mem_append.mpr ⟨h.accepted, List.forall_mem_singleton.mpr hb⟩
  next := List.forall_mem_append.mpr ⟨h.next, List.forall_mem_singleton.mpr hb⟩
  head := by
    rw [Search.diagnoses_accept, List.head?_append, h.head]
    rfl
  apart := by
    rw [Search.diagnoses_accept, List.pairwise_append]
    refine ⟨h.apart, List.pairwise_singleton _ _, ?_⟩
    intro d hdmem d' hd'
    obtain ⟨a, ha, rfl⟩ := List.mem_map.mp hdmem
    rw [List.mem_singleton.mp hd']
    exact (h.accepted a ha).apart hc hd hb (isNew_iff.mp hnew _ hdmem)

theorem consider_spread {s s' : Search} {b : Branch} (hs : s.Spread candidates background)
    (hb : b.diagnosis ≠ [] → b.OnPath candidates background)
    (h : consider limits s b = .ok s') : s'.Spread candidates background := by
  unfold consider at h
  split at h
  · cases h
    exact hs
  · next hnew =>
    rw [Bool.or_eq_true, not_or, Bool.not_eq_true', Bool.not_eq_false, List.isEmpty_iff] at hnew
    obtain ⟨stop, -, h⟩ := bind_eq_ok_iff.mp h
    cases stop with
    | some limit =>
      cases h
      exact hs.stopAt limit
    | none =>
      cases h
      exact hs.accept hc hd (hb hnew.1) hnew.2

variable (he : e.Exact keeps (background ++ candidates))
variable (hrefused : ∀ failure s, limits.Refuses failure → keeps s → fail failure s)
include he hrefused

theorem expandAt_spread (start : Int) {b : Branch} (hb : b.OnPath candidates background)
    {c : Constraint} (hmem : c ∈ b.diagnosis) {s : Search} (hs : s.Spread candidates background) :
    Ensures keeps (expandAt e limits start background b s c)
      (fun s' t => s'.Spread candidates background ∧ keeps t) fail := by
  rw [hb.eq_at] at hmem
  have hp : IsPath candidates (b.excluded ++ [c]) := hb.isPath.append hmem
  have hcand : subtract b.candidates [c] = subtract candidates (b.excluded ++ [c]) := by
    rw [congrArg Branch.candidates hb.eq_at, subtract_append]
    rfl
  have hdepth : b.depth + 1 = (b.excluded ++ [c]).length := by
    rw [congrArg Branch.depth hb.eq_at, List.length_append]
    rfl
  have hmoved : union background (b.excluded ++ [c]) ⊆ background ++ candidates :=
    union_subset (List.subset_append_left _ _) (List.subset_append_of_subset_right _ hp.subset)
  have hrest : subtract candidates (b.excluded ++ [c]) ⊆ background ++ candidates :=
    List.subset_append_of_subset_right _ subtract_subset
  have hfirst := first_exact he (ids_subtract_nodup hc) (union_apart_subtract hd)
    (List.append_subset.mpr ⟨hmoved, hrest⟩)
  unfold expandAt
  apply Ensures.bind (overtime_ensures hrefused he.honest.readClock start)
  intro passed
  cases passed with
  | some limit => exact Ensures.pure fun t ht => ⟨hs.stopAt limit, ht⟩
  | none =>
    rw [hcand, hdepth]
    apply Ensures.bind (hfirst.weakenFail fun _ _ => False.elim)
    intro found
    apply Ensures.assuming
    intro hfound
    rw [hfound]
    apply Ensures.orFail
    · intro s' h t ht
      exact ⟨consider_spread hc hd hs (fun hne => ⟨rfl, hp, hne⟩) h, ht⟩
    · intro failure h t
      exact hrefused failure t (consider_refuses h)

end exact

section enumeration

variable (hc : (ids candidates).Nodup) (hd : ∀ b ∈ background, b.id ∉ ids candidates)
variable (he : e.Exact keeps (background ++ candidates))
include hc hd he

theorem search_spread (hne : preferred candidates background ≠ []) :
    Ensures (e.Tells keeps [])
      (search e limits (preferred candidates background) candidates background)
      (fun s t => s.Spread candidates background ∧ e.Tells keeps [] t)
      fun failure _ => limits.Refuses failure ∨ e.Overruns keeps := by
  have hb : Branch.OnPath candidates background
      ⟨preferred candidates background, candidates, [], 0⟩ := by
    refine ⟨?_, IsPath.nil, hne⟩
    unfold Branch.at
    rw [preferredAt_nil, subtract_nil]
    rfl
  have hs : (Search.start (preferred candidates background) candidates).Spread candidates
      background :=
    ⟨List.forall_mem_singleton.mpr hb, List.forall_mem_singleton.mpr hb, rfl,
      List.pairwise_singleton _ _⟩
  refine search_keeps he.timed ?_ (fun _ h => h.next)
    (fun _ h => ⟨h.accepted, List.forall_mem_nil _, h.head, h.apart⟩)
    (fun start _ hb _ hmem _ hs => expandAt_spread hc hd (he.tells [start])
      (fun _ _ h _ => .inl h) start hb hmem hs) hs
  intro start now _ hround ht
  exact .inr ⟨start, now, ht.1 _ (.tail _ (.head _)), ht.1 _ (.head _), hround⟩

/-- What is enumerated from the preferred diagnosis, whatever ends the enumeration. -/
theorem enumerate_spread (limits : Limits) :
    Ensures (e.Tells keeps [])
      (enumerate e limits (preferred candidates background) candidates background)
      (fun all _ => all.diagnoses.head? = (if (preferred candidates background).isEmpty then none
          else some (preferred candidates background)) ∧
        (∀ d ∈ all.diagnoses, IsMinimal candidates background d) ∧ all.diagnoses.Pairwise Apart)
      fun failure _ => limits.Refuses failure ∨ e.Overruns keeps := by
  by_cases hne : preferred candidates background = []
  · rw [hne]
    exact Ensures.pure fun _ _ => ⟨rfl, List.forall_mem_nil _, List.Pairwise.nil⟩
  · unfold enumerate
    rw [List.isEmpty_eq_false_iff.mpr hne]
    apply Ensures.bind (search_spread hc hd he hne)
    intro s
    apply Ensures.assuming
    intro hspread
    apply Ensures.pure
    intro _ _
    refine ⟨hspread.head, List.forall_mem_map.mpr ?_, hspread.apart⟩
    exact fun b hb => (hspread.accepted b hb).isMinimal hc hd

/-- **Enumerated diagnoses are minimal and do not contain each other.** With exact answers and
whatever limits, the enumeration goes out from the first diagnosis, which is the first one listed.
Every diagnosis that is listed when the enumeration ends, at a limit or not, is a minimal one of all
the candidates over the background, and none of them contains another. The enumeration does end,
unless a bound is no number or the clock overruns. -/
theorem enumerate_minimal {s : σ} (hs : keeps s) (limits : Limits) :
    ∃ found t, first e candidates background s = .ok found t ∧
      (limits.Numeric → ¬e.Overruns keeps →
        ∃ all u, enumerate e limits found candidates background t = .ok all u) ∧
      ∀ all u, enumerate e limits found candidates background t = .ok all u →
        all.diagnoses.head? = (if found.isEmpty then none else some found) ∧
        (∀ d ∈ all.diagnoses, IsMinimal candidates background d) ∧
        all.diagnoses.Pairwise fun d d' => ¬ids d ⊆ ids d' ∧ ¬ids d' ⊆ ids d := by
  obtain ⟨found, t, hfirst, rfl, ht⟩ := (first_exact he hc hd (List.Subset.refl _)).returns hs
  refine ⟨_, t, hfirst, ?_⟩
  have hout := enumerate_spread hc hd he limits t ⟨List.forall_mem_nil _, ht⟩
  cases hr : enumerate e limits (preferred candidates background) candidates background t with
  | ok all u =>
    rw [hr] at hout
    refine ⟨fun _ _ => ⟨all, u, rfl⟩, ?_⟩
    intro all' u' h
    cases h
    exact hout
  | error failure u =>
    rw [hr] at hout
    refine ⟨fun hnum hclock => ?_, ?_⟩
    · exact hout.elim (fun h => absurd hnum h.1) fun h => absurd h hclock
    · intro _ _ h
      cases h

end enumeration

theorem enumerate_minimal_crossed :
    (ids crossed).Nodup ∧ ∃ found t, first Setting.truthful crossed [] () = .ok found t ∧
      ∃ all u, enumerate Setting.truthful ⟨.int 1, .null, .null⟩ found crossed [] t = .ok all u ∧
        all.diagnoses.head? = (if found.isEmpty then none else some found) ∧
        (∀ d ∈ all.diagnoses, IsMinimal crossed [] d) ∧
        all.diagnoses.Pairwise fun d d' => ¬ids d ⊆ ids d' ∧ ¬ids d' ⊆ ids d := by
  have hnodup : (ids crossed).Nodup := by decide
  obtain ⟨found, t, hfirst, hends, hall⟩ := enumerate_minimal hnodup (List.forall_mem_nil _)
    (Setting.truthful_exact ([] ++ crossed)) trivial ⟨.int 1, .null, .null⟩
  have hclock : ¬Setting.truthful.Overruns fun _ => True := by
    rintro ⟨x, y, hx, hy, h⟩
    have := Setting.truthful_clock x y hx hy
    rw [h] at this
    exact Bool.false_ne_true this
  have hnumeric : (⟨.int 1, .null, .null⟩ : Limits).Numeric :=
    List.forall_mem_cons.mpr ⟨.inr rfl, List.forall_mem_cons.mpr
      ⟨.inl rfl, List.forall_mem_singleton.mpr (.inl rfl)⟩⟩
  obtain ⟨all, u, hrun⟩ := hends hnumeric hclock
  exact ⟨hnodup, found, t, hfirst, all, u, hrun, hall all u hrun⟩

end Diagnosis
end ProductLine

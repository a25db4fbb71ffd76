import ProductLine.Proofs.Diagnosis.Greedy
import ProductLine.Proofs.Diagnosis.Setting

/-! # What divide and conquer finds

Every call of `within` looks at constraints that are its candidates and a rest which can hold
together (`Split`). In an exact setting it puts aside what the greedy scan puts aside
(`within_exact`), so that `first` returns the greedy diagnosis (`first_exact`), which is minimal
(`first_minimal`). In an honest setting the diagnosis need not be minimal, but it still is one
(`first_honest`). -/

namespace ProductLine
namespace Diagnosis

open Constraint

variable {σ : Type} {e : Setting σ} {keeps : σ → Prop} {fail : Failure → σ → Prop}
variable {all rest candidates constraints background : List Constraint}

theorem union_eq_of_halves {left right inRight inLeft : List Constraint}
    (hnodup : (ids (left ++ right)).Nodup) (hright : inRight.Sublist right.reverse)
    (hleft : inLeft.Sublist left.reverse) : union inRight inLeft = inRight ++ inLeft := by
  apply union_of_nodup
  refine List.Nodup.sublist ((hright.append hleft).map _) ?_
  rw [← List.reverse_append, ← ids, ids_reverse]
  exact List.nodup_reverse.mpr hnodup

/-- The constraints are the candidates and a rest, all of them with numbers of their own. -/
structure Split (all rest candidates constraints : List Constraint) : Prop where
  nodup : (ids (rest ++ candidates)).Nodup
  mem : ∀ c, c ∈ constraints ↔ c ∈ rest ∨ c ∈ candidates
  ids_nodup : (ids constraints).Nodup
  subset : constraints ⊆ all

namespace Split

variable {left right : List Constraint}

theorem consistent_iff (h : Split all rest candidates constraints) :
    Consistent constraints ↔ Consistent (rest ++ candidates) :=
  Consistent.congr fun c => by rw [List.mem_append, h.mem c]

theorem second (h : Split all rest (left ++ right) constraints) :
    Split all rest right (subtract constraints left) := by
  have hnd : (ids (rest ++ (left ++ right))).Nodup := h.nodup
  have hsub : left ⊆ constraints := fun c hc =>
    (h.mem c).mpr (.inr (List.mem_append_left _ hc))
  rw [ids_append, ids_append, List.nodup_append, List.nodup_append] at hnd
  obtain ⟨hrest, ⟨_, hright, hlr⟩, hdisj⟩ := hnd
  constructor
  · rw [ids_append, List.nodup_append]
    exact ⟨hrest, hright, fun i hi j hj => hdisj i hi j (List.mem_append_right _ hj)⟩
  · intro c
    rw [mem_subtract_of_subset h.ids_nodup hsub, h.mem c, List.mem_append]
    constructor
    · rintro ⟨hc | hc | hc, hn⟩
      · exact .inl hc
      · exact absurd hc hn
      · exact .inr hc
    · rintro (hc | hc)
      · exact ⟨.inl hc, fun hl =>
          hdisj _ (id_mem_ids hc) _ (List.mem_append_left _ (id_mem_ids hl)) rfl⟩
      · exact ⟨.inr (.inr hc), fun hl => hlr _ (id_mem_ids hl) _ (id_mem_ids hc) rfl⟩
  · exact ids_subtract_nodup h.ids_nodup
  · exact List.Subset.trans subtract_subset h.subset

theorem first {aside : List Constraint} (h : Split all rest (left ++ right) constraints)
    (ha : aside ⊆ right) :
    Split all (rest ++ subtract right aside) left (subtract constraints aside) := by
  have hnd : (ids (rest ++ (left ++ right))).Nodup := h.nodup
  have hsub : aside ⊆ constraints := fun c hc =>
    (h.mem c).mpr (.inr (List.mem_append_right _ (ha hc)))
  rw [ids_append, ids_append, List.nodup_append, List.nodup_append] at hnd
  obtain ⟨hrest, ⟨hleft, hright, hlr⟩, hdisj⟩ := hnd
  have hids : ∀ {i}, i ∈ ids (subtract right aside) → i ∈ ids right :=
    fun hi => List.map_subset _ subtract_subset hi
  constructor
  · rw [ids_append, ids_append, List.nodup_append, List.nodup_append]
    refine ⟨⟨hrest, ids_subtract_nodup hright, fun i hi j hj =>
      hdisj i hi j (List.mem_append_right _ (hids hj))⟩, hleft, ?_⟩
    intro i hi j hj
    rcases List.mem_append.mp hi with hi | hi
    · exact hdisj i hi j (List.mem_append_left _ hj)
    · exact fun hij => hlr j hj i (hids hi) hij.symm
  · intro c
    rw [mem_subtract_of_subset h.ids_nodup hsub, h.mem c, List.mem_append, List.mem_append,
      mem_subtract_of_subset hright ha]
    constructor
    · rintro ⟨hc | hc | hc, hn⟩
      · exact .inl (.inl hc)
      · exact .inr hc
      · exact .inl (.inr ⟨hc, hn⟩)
    · rintro ((hc | ⟨hc, hn⟩) | hc)
      · exact ⟨.inl hc, fun hl =>
          hdisj _ (id_mem_ids hc) _ (List.mem_append_right _ (id_mem_ids (ha hl))) rfl⟩
      · exact ⟨.inr (.inr hc), hn⟩
      · exact ⟨.inr (.inl hc), fun hl => hlr _ (id_mem_ids hc) _ (id_mem_ids (ha hl)) rfl⟩
  · exact ids_subtract_nodup h.ids_nodup
  · exact List.Subset.trans subtract_subset h.subset

theorem union_eq {inRight inLeft : List Constraint}
    (h : Split all rest (left ++ right) constraints) (hr : inRight.Sublist right.reverse)
    (hl : inLeft.Sublist left.reverse) : union inRight inLeft = inRight ++ inLeft := by
  have hnd : (ids (rest ++ (left ++ right))).Nodup := h.nodup
  rw [ids_append, List.nodup_append] at hnd
  exact union_eq_of_halves hnd.2.1 hr hl

end Split

/-! ### Exact settings -/

theorem settled_exact (he : e.Exact keeps all) {removed : List Constraint}
    (hs : Split all rest candidates constraints)
    (hr : removed = [] → ¬Consistent constraints) :
    Ensures keeps (settled e removed constraints)
      (fun done s => (done = true ↔ Consistent constraints) ∧ keeps s) fun _ _ => False := by
  unfold settled
  cases removed with
  | nil =>
    apply Ensures.pure
    intro s h
    refine ⟨⟨?_, fun k => absurd k (hr rfl)⟩, h⟩
    intro k
    exact absurd k Bool.false_ne_true
  | cons c removed =>
    have h := he.isConsistent constraints hs.subset
    rw [post_nil_of_nodup hs.ids_nodup] at h
    exact h

/-- Divide and conquer puts aside what the greedy scan puts aside. -/
theorem within_exact (he : e.Exact keeps all) (t : Bisection Constraint)
    {removed : List Constraint} (hs : Split all rest t.toList constraints)
    (hc : Consistent rest) (hr : removed = [] → ¬Consistent constraints) :
    Ensures keeps (within e t removed constraints)
      (fun aside s => aside = greedy t.toList rest ∧ keeps s) fun _ _ => False := by
  -- a node that is settled puts nothing aside, and neither does the scan
  have hdone : ∀ t : Bisection Constraint, ∀ {rest constraints},
      Split all rest t.toList constraints → Consistent rest →
      (Consistent constraints ↔ greedy t.toList rest = []) := fun t _ _ hs hc =>
    hs.consistent_iff.trans (greedy_eq_nil_iff hc).symm
  induction t generalizing rest removed constraints with
  | one c =>
    unfold within
    apply Ensures.bind (settled_exact he hs hr)
    intro done
    apply Ensures.assuming
    intro hd
    rw [hdone (.one c) hs hc] at hd
    apply Ensures.pure
    intro s h
    refine ⟨?_, h⟩
    cases done with
    | true => exact (hd.mp rfl).symm
    | false =>
      have hne : greedy [c] rest ≠ [] := fun k => Bool.false_ne_true (hd.mpr k)
      have hsub : (greedy [c] rest).Sublist [c] := greedy_sublist
      rcases List.sublist_singleton.mp hsub with k | k
      · exact absurd k hne
      · exact k.symm
  | halves left right ihleft ihright =>
    unfold within
    apply Ensures.bind (settled_exact he hs hr)
    intro done
    apply Ensures.assuming
    intro hd
    have hd' := hd
    rw [hdone (.halves left right) hs hc] at hd
    cases done with
    | true => exact Ensures.pure fun s h => ⟨(hd.mp rfl).symm, h⟩
    | false =>
      apply Ensures.bind (ihright hs.second hc fun k =>
        absurd k (Bisection.toList_ne_nil left))
      intro inRight
      apply Ensures.assuming
      intro hR
      have hsub : inRight ⊆ right.toList := hR ▸ greedy_subset
      refine Ensures.bind (ihleft (hs.first hsub) ?_ ?_) fun inLeft => Ensures.assuming ?_
      · rw [hR]
        exact consistent_without_greedy hs.second.nodup hc
      · intro k
        rw [k, subtract_nil]
        exact fun hcons => Bool.false_ne_true (hd'.mpr hcons)
      · intro hL
        apply Ensures.pure
        intro s h
        refine ⟨?_, h⟩
        rw [hs.union_eq (hR ▸ greedy_sublist) (hL ▸ greedy_sublist), Bisection.toList,
          greedy_append hs.second.nodup, hL, hR]

theorem Split.everything (hc : (ids candidates).Nodup)
    (hd : ∀ b ∈ background, b.id ∉ ids candidates) (hall : background ++ candidates ⊆ all) :
    Split all (union background []) candidates (union background candidates) where
  nodup := ids_union_append_nodup hc hd
  mem c := by rw [union_eq_append hc hd, List.mem_append]
  ids_nodup := ids_union_nodup
  subset := union_subset (List.Subset.trans (List.subset_append_left _ _) hall)
    (List.Subset.trans (List.subset_append_right _ _) hall)

theorem first_exact (he : e.Exact keeps all) (hc : (ids candidates).Nodup)
    (hd : ∀ b ∈ background, b.id ∉ ids candidates) (hall : background ++ candidates ⊆ all) :
    Ensures keeps (first e candidates background)
      (fun found s => found = preferred candidates background ∧ keeps s) fun _ _ => False := by
  unfold first
  apply Ensures.bind (he.note _)
  intro _
  cases candidates with
  | nil => exact Ensures.pure fun s h => ⟨(List.subset_nil.mp preferred_subset).symm, h⟩
  | cons c rest =>
    have hs := Split.everything hc hd hall
    have heverything := he.isConsistent (union background (c :: rest)) hs.subset
    rw [post_nil_of_nodup hs.ids_nodup] at heverything
    have hsub : background ⊆ all := List.Subset.trans (List.subset_append_left _ _) hall
    have hbackground := he.isConsistent background hsub
    have hb : post [] background = union background [] := by rw [union, List.append_nil]
    rw [hb] at hbackground
    apply Ensures.bind heverything
    intro consistent
    apply Ensures.assuming
    intro hcons
    -- nothing is preferred in just the two cases in which the search is not begun
    have hnil := preferred_eq_nil_iff hc hd
    cases consistent with
    | true => exact Ensures.pure fun s h => ⟨(hnil.mpr (.inl (hcons.mp rfl))).symm, h⟩
    | false =>
      unfold ofConflict
      apply Ensures.bind hbackground
      intro possible
      apply Ensures.assuming
      intro hposs
      cases possible with
      | false =>
        apply Ensures.bind (he.note _)
        intro _
        apply Ensures.pure
        intro s h
        refine ⟨?_, h⟩
        exact (hnil.mpr (.inr fun k => Bool.false_ne_true (hposs.mpr k))).symm
      | true =>
        have hcut := Bisection.toList_ofList c rest
        apply Ensures.bind (within_exact he (Bisection.ofList c rest) (hcut ▸ hs) (hposs.mp rfl)
          fun _ k => Bool.false_ne_true (hcons.mpr k))
        intro aside
        apply Ensures.assuming
        intro ha
        apply Ensures.bind (he.note _)
        intro _
        apply Ensures.pure
        intro s h
        refine ⟨?_, h⟩
        rw [ha, hcut, preferred_of_consistent (hposs.mp rfl)]

/-- **The first diagnosis is right.** With exact answers it is found whatever the candidates and the
background are. It is empty exactly if there is nothing to explain, and otherwise the candidates
outside of it can hold with the background, while they cannot with any more of the candidates. -/
theorem first_minimal (he : e.Exact keeps (background ++ candidates))
    (hc : (ids candidates).Nodup) (hd : ∀ b ∈ background, b.id ∉ ids candidates) {s : σ}
    (hs : keeps s) :
    ∃ found t, first e candidates background s = .ok found t ∧
      (found = [] ↔ candidates = [] ∨ Consistent (union background candidates) ∨
        ¬Consistent (union background [])) ∧
      (found ≠ [] → found ⊆ candidates ∧
        Consistent (union background (subtract candidates found)) ∧
        ∀ part, part ⊆ found → ¬found ⊆ part →
          ¬Consistent (union background (subtract candidates part))) := by
  obtain ⟨found, t, hrun, rfl, -⟩ :=
    (first_exact he hc hd (List.Subset.refl _)).returns hs
  refine ⟨_, t, hrun, ?_, ?_⟩
  · rw [preferred_eq_nil_iff hc hd]
    refine ⟨.inr, fun h => h.elim ?_ id⟩
    intro hnil
    rw [hnil]
    exact Classical.em _
  · intro hne
    have hb : Consistent (union background []) := by
      by_contra h
      exact hne (preferred_of_not_consistent h)
    have hmin := isMinimal_preferred hc hd hb
    exact ⟨hmin.1.1, hmin.1.2, fun part hpart hproper hcons =>
      hproper (hmin.2 part hpart ⟨List.Subset.trans hpart hmin.1.1, hcons⟩)⟩

/-- Four constraints, of which the second and third, the third and fourth, and the first and fourth
exclude each other. -/
def crossed : List Constraint :=
  [⟨1, .not (.var "z"), .assignment, none⟩, ⟨2, .not (.var "x"), .assignment, none⟩,
    ⟨3, .and (.var "x") (.var "y"), .assignment, none⟩,
    ⟨4, .and (.not (.var "y")) (.var "z"), .assignment, none⟩]

theorem first_minimal_crossed :
    ¬Consistent (union [] crossed) ∧ Consistent (union [] []) ∧
      ∃ found t, first Setting.truthful crossed [] () = .ok found t ∧ found ≠ [] ∧
        found ⊆ crossed ∧ Consistent (union [] (subtract crossed found)) ∧
        ∀ part, part ⊆ found → ¬found ⊆ part →
          ¬Consistent (union [] (subtract crossed part)) := by
  have hall : ¬Consistent (union [] crossed) := by
    rw [consistent_iff]
    decide
  have hnone : Consistent (union [] []) := by
    rw [consistent_iff]
    decide
  obtain ⟨found, t, hrun, hnil, hsome⟩ := first_minimal (Setting.truthful_exact ([] ++ crossed))
    (by decide) (List.forall_mem_nil _) trivial
  have hne : found ≠ [] := fun h => by
    rcases hnil.mp h with h | h | h
    · exact List.cons_ne_nil _ _ h
    · exact hall h
    · exact h hnone
  exact ⟨hall, hnone, found, t, hrun, hne, hsome hne⟩

/-! ### Honest settings -/

theorem settled_honest (he : e.Honest keeps fail all) {removed : List Constraint}
    (hs : Split all rest candidates constraints) :
    Ensures keeps (settled e removed constraints)
      (fun done s => (done = true → Consistent constraints) ∧ keeps s) fail := by
  unfold settled
  cases removed with
  | nil => exact Ensures.pure fun s h => ⟨fun k => absurd k Bool.false_ne_true, h⟩
  | cons c removed =>
    have h := he.isConsistent constraints hs.subset
    rw [post_nil_of_nodup hs.ids_nodup] at h
    exact h

/-- Where a no may be wrong, too much may be put aside, but never too little: the rest alone can
hold together, and this is so again for both halves. -/
theorem within_honest (he : e.Honest keeps fail all) (t : Bisection Constraint)
    {removed : List Constraint} (hs : Split all rest t.toList constraints)
    (hc : Consistent rest) :
    Ensures keeps (within e t removed constraints)
      (fun aside s => (aside.Sublist t.toList.reverse ∧
        Consistent (rest ++ subtract t.toList aside)) ∧ keeps s) fail := by
  induction t generalizing rest removed constraints with
  | one c =>
    unfold within
    apply Ensures.bind (settled_honest he hs)
    intro done
    apply Ensures.assuming
    intro hd
    apply Ensures.pure
    intro s h
    refine ⟨?_, h⟩
    cases done with
    | true =>
      refine ⟨List.nil_sublist _, ?_⟩
      rw [if_pos rfl, subtract_nil]
      exact hs.consistent_iff.mp (hd rfl)
    | false =>
      refine ⟨List.Sublist.refl [c], hc.mono ?_⟩
      intro d hd
      rcases List.mem_append.mp hd with hd | hd
      · exact hd
      · obtain ⟨h1, h2⟩ := mem_subtract.mp hd
        exact absurd (id_mem_ids h1) h2
  | halves left right ihleft ihright =>
    unfold within
    apply Ensures.bind (settled_honest he hs)
    intro done
    apply Ensures.assuming
    intro hd
    cases done with
    | true =>
      apply Ensures.pure
      intro s h
      refine ⟨⟨List.nil_sublist _, ?_⟩, h⟩
      rw [subtract_nil]
      exact hs.consistent_iff.mp (hd rfl)
    | false =>
      -- the second half is searched with the first in place, the first with what is kept of the second
      apply Ensures.bind (ihright hs.second hc)
      intro inRight
      apply Ensures.assuming
      intro hR
      have hsub : inRight ⊆ right.toList := fun c h => List.mem_reverse.mp (hR.1.subset h)
      apply Ensures.bind (ihleft (hs.first hsub) hR.2)
      intro inLeft
      apply Ensures.assuming
      intro hL
      apply Ensures.pure
      intro s h
      refine ⟨?_, h⟩
      rw [hs.union_eq hR.1 hL.1, Bisection.toList, List.reverse_append]
      refine ⟨hR.1.append hL.1, hL.2.mono ?_⟩
      intro c hmem
      rw [List.mem_append, mem_subtract, List.mem_append, ids_append, List.mem_append,
        not_or] at hmem
      rw [List.mem_append, List.mem_append, mem_subtract, mem_subtract]
      rcases hmem with hmem | ⟨hmem | hmem, hr, hl⟩
      · exact .inl (.inl hmem)
      · exact .inr ⟨hmem, hl⟩
      · exact .inl (.inr ⟨hmem, hr⟩)

/-- What is found is a diagnosis if it is anything at all. -/
theorem first_honest (he : e.Honest keeps fail all) (hc : (ids candidates).Nodup)
    (hd : ∀ b ∈ background, b.id ∉ ids candidates) (hall : background ++ candidates ⊆ all) :
    Ensures keeps (first e candidates background)
      (fun found s => (found.Sublist candidates.reverse ∧
        (found ≠ [] → Consistent (union background (subtract candidates found)))) ∧ keeps s)
      fail := by
  have hnone : ([] : List Constraint).Sublist candidates.reverse ∧
      (([] : List Constraint) ≠ [] → Consistent (union background (subtract candidates []))) :=
    ⟨List.nil_sublist _, fun k => absurd rfl k⟩
  unfold first
  apply Ensures.bind (he.note _)
  intro _
  cases candidates with
  | nil => exact Ensures.pure fun s h => ⟨hnone, h⟩
  | cons c rest =>
    have hs := Split.everything hc hd hall
    apply Ensures.bind (he.isConsistent _ hs.subset)
    intro consistent
    apply Ensures.assuming
    intro _
    cases consistent with
    | true => exact Ensures.pure fun s h => ⟨hnone, h⟩
    | false =>
      unfold ofConflict
      have hsub : background ⊆ all := List.Subset.trans (List.subset_append_left _ _) hall
      apply Ensures.bind (he.isConsistent background hsub)
      intro possible
      apply Ensures.assuming
      intro hposs
      cases possible with
      | false => exact Ensures.bind (he.note _) fun _ => Ensures.pure fun s h => ⟨hnone, h⟩
      | true =>
        have hb : Consistent (union background []) := by
          rw [union, List.append_nil]
          exact hposs rfl
        have hcut := Bisection.toList_ofList c rest
        apply Ensures.bind (within_honest he (Bisection.ofList c rest) (hcut ▸ hs) hb)
        intro aside
        apply Ensures.assuming
        intro ha
        rw [hcut] at ha
        apply Ensures.bind (he.note _)
        intro _
        apply Ensures.pure
        intro s h
        refine ⟨⟨ha.1, ?_⟩, h⟩
        intro _
        rw [union_eq_append (ids_subtract_nodup hc) (apart_of_subset hd subtract_subset)]
        exact ha.2

end Diagnosis
end ProductLine

import ProductLine.Diagnosis.Minimal
import ProductLine.Proofs.ConstraintSet

/-! # The greedy scan

What `scan` keeps can hold together, and nothing that it puts aside can be added to that. So the
`preferred` diagnosis is a minimal one (`isMinimal_preferred`), and it is empty exactly if there is
nothing to explain (`preferred_eq_nil_iff`). -/

namespace ProductLine
namespace Diagnosis

open Constraint

variable {background cs ds : List Constraint} {c : Constraint}

theorem Consistent.congr (h : ∀ c, c ∈ cs ↔ c ∈ ds) : Consistent cs ↔ Consistent ds :=
  ⟨fun k => k.mono fun c hc => (h c).mpr hc, fun k => k.mono fun c hc => (h c).mp hc⟩

/-! ### One scan after another -/

theorem foldl_greedyStep (background aside cs : List Constraint) :
    cs.foldl greedyStep (background, aside) =
      ((scan background cs).1, aside ++ (scan background cs).2) := by
  unfold scan
  induction cs generalizing background aside with
  | nil => rw [List.foldl_nil, List.foldl_nil, List.append_nil]
  | cons c cs ih =>
    rw [List.foldl_cons, List.foldl_cons]
    by_cases h : Formula.satisfiable (formulas (background ++ [c])) = true
    · rw [greedyStep, if_pos h, greedyStep, if_pos h]
      exact ih _ _
    · rw [greedyStep, if_neg h, greedyStep, if_neg h, ih, ih background ([] ++ [c]),
        List.nil_append, List.append_assoc]

@[simp] theorem scan_nil : scan background [] = (background, []) := rfl

theorem scan_cons_of_consistent (h : Consistent (background ++ [c])) :
    scan background (c :: cs) = scan (background ++ [c]) cs := by
  rw [scan, List.foldl_cons, greedyStep, if_pos ((consistent_iff _).mp h)]
  rfl

theorem scan_cons_of_not_consistent (h : ¬Consistent (background ++ [c])) :
    scan background (c :: cs) = ((scan background cs).1, c :: (scan background cs).2) := by
  rw [consistent_iff] at h
  rw [scan, List.foldl_cons, greedyStep, if_neg h, foldl_greedyStep]
  rfl

theorem scan_append : scan background (cs ++ ds) =
    ((scan (scan background cs).1 ds).1,
      (scan background cs).2 ++ (scan (scan background cs).1 ds).2) := by
  rw [scan, List.foldl_append, ← scan, ← foldl_greedyStep]

/-! ### What is kept and what is put aside -/

theorem scan_perm (background cs : List Constraint) :
    ((scan background cs).1 ++ (scan background cs).2).Perm (background ++ cs) := by
  induction cs generalizing background with
  | nil => rw [scan_nil]
  | cons c cs ih =>
    by_cases h : Consistent (background ++ [c])
    · rw [scan_cons_of_consistent h]
      refine (ih _).trans ?_
      rw [List.append_assoc, List.singleton_append]
    · rw [scan_cons_of_not_consistent h]
      exact List.perm_middle.trans (((ih _).cons c).trans List.perm_middle.symm)

theorem aside_sublist : (scan background cs).2.Sublist cs := by
  induction cs generalizing background with
  | nil => exact List.Sublist.slnil
  | cons c cs ih =>
    by_cases h : Consistent (background ++ [c])
    · rw [scan_cons_of_consistent h]
      exact ih.trans (List.sublist_cons_self c cs)
    · rw [scan_cons_of_not_consistent h]
      exact ih.cons_cons c

theorem subset_kept : background ⊆ (scan background cs).1 := by
  induction cs generalizing background with
  | nil => exact List.Subset.refl background
  | cons c cs ih =>
    by_cases h : Consistent (background ++ [c])
    · rw [scan_cons_of_consistent h]
      exact List.Subset.trans (List.subset_append_left background [c]) ih
    · rw [scan_cons_of_not_consistent h]
      exact ih

theorem consistent_kept (h : Consistent background) : Consistent (scan background cs).1 := by
  induction cs generalizing background with
  | nil => exact h
  | cons c cs ih =>
    by_cases hc : Consistent (background ++ [c])
    · rw [scan_cons_of_consistent hc]
      exact ih hc
    · rw [scan_cons_of_not_consistent hc]
      exact ih h

/-- What is put aside cannot be added to what is kept in the end. -/
theorem not_consistent_of_mem_aside (h : c ∈ (scan background cs).2) :
    ¬Consistent ((scan background cs).1 ++ [c]) := by
  induction cs generalizing background with
  | nil => exact absurd h List.not_mem_nil
  | cons d cs ih =>
    by_cases hd : Consistent (background ++ [d])
    · rw [scan_cons_of_consistent hd] at h ⊢
      exact ih h
    · rw [scan_cons_of_not_consistent hd] at h ⊢
      rcases List.mem_cons.mp h with rfl | h
      · refine fun k => hd (k.mono ?_)
        intro d hmem
        rcases List.mem_append.mp hmem with hmem | hmem
        · exact List.mem_append_left _ (subset_kept hmem)
        · exact List.mem_append_right _ hmem
      · exact ih h

theorem scan_congr {other : List Constraint} (h : ∀ c, c ∈ background ↔ c ∈ other) :
    (scan background cs).2 = (scan other cs).2 := by
  induction cs generalizing background other with
  | nil => rfl
  | cons c cs ih =>
    have hc : ∀ d, d ∈ background ++ [c] ↔ d ∈ other ++ [c] := by
      intro d
      rw [List.mem_append, List.mem_append, h d]
    by_cases hb : Consistent (background ++ [c])
    · rw [scan_cons_of_consistent hb, scan_cons_of_consistent ((Consistent.congr hc).mp hb)]
      exact ih hc
    · have ho : ¬Consistent (other ++ [c]) := fun k => hb ((Consistent.congr hc).mpr k)
      rw [scan_cons_of_not_consistent hb, scan_cons_of_not_consistent ho]
      exact congrArg (c :: ·) (ih h)

theorem aside_eq_nil_of_consistent (h : Consistent (background ++ cs)) :
    (scan background cs).2 = [] := by
  refine List.eq_nil_iff_forall_not_mem.mpr fun c hc => not_consistent_of_mem_aside hc (h.mono ?_)
  intro d hd
  rcases List.mem_append.mp hd with hd | hd
  · exact (scan_perm background cs).subset (List.mem_append_left _ hd)
  · rw [List.mem_singleton.mp hd]
    exact List.mem_append_right _ (aside_sublist.subset hc)

theorem consistent_of_aside_eq_nil (hb : Consistent background)
    (h : (scan background cs).2 = []) : Consistent (background ++ cs) := by
  have hp := scan_perm background cs
  rw [h, List.append_nil] at hp
  exact (consistent_kept hb).mono hp.symm.subset

theorem mem_kept_iff (h : (ids (background ++ cs)).Nodup) :
    c ∈ (scan background cs).1 ↔ c ∈ background ∨ c ∈ cs ∧ c ∉ (scan background cs).2 := by
  have hp := scan_perm background cs
  have hnd : ((scan background cs).1 ++ (scan background cs).2).Nodup :=
    hp.symm.nodup (List.Nodup.of_map _ h)
  rw [List.nodup_append] at hnd
  constructor
  · intro hc
    rcases List.mem_append.mp (hp.subset (List.mem_append_left _ hc)) with hb | hb
    · exact .inl hb
    · exact .inr ⟨hb, fun ha => hnd.2.2 c hc c ha rfl⟩
  · rintro (hc | ⟨hc, ha⟩)
    · exact subset_kept hc
    · rcases List.mem_append.mp (hp.symm.subset (List.mem_append_right _ hc)) with hk | hk
      · exact hk
      · exact absurd hk ha

/-! ### The greedy diagnosis -/

theorem greedy_sublist : (greedy cs background).Sublist cs.reverse := aside_sublist

theorem greedy_subset : greedy cs background ⊆ cs := fun _ hc =>
  List.mem_reverse.mp (greedy_sublist.subset hc)

theorem greedy_eq_nil_iff (hb : Consistent background) :
    greedy cs background = [] ↔ Consistent (background ++ cs) := by
  have hr : Consistent (background ++ cs.reverse) ↔ Consistent (background ++ cs) :=
    Consistent.congr fun c => by rw [List.mem_append, List.mem_append, List.mem_reverse]
  rw [← hr]
  exact ⟨consistent_of_aside_eq_nil hb, aside_eq_nil_of_consistent⟩

/-- If no number repeats, the scan keeps the background and the candidates outside the diagnosis. -/
theorem mem_kept_reverse_iff (h : (ids (background ++ cs)).Nodup) :
    c ∈ (scan background cs.reverse).1 ↔ c ∈ background ++ subtract cs (greedy cs background) := by
  have hcs : (ids cs).Nodup := by
    rw [ids_append, List.nodup_append] at h
    exact h.2.1
  have hrev : (ids (background ++ cs.reverse)).Nodup :=
    (((List.reverse_perm cs).symm.append_left background).map _).nodup h
  rw [mem_kept_iff hrev, List.mem_append, mem_subtract_of_subset hcs greedy_subset,
    List.mem_reverse]
  rfl

theorem consistent_without_greedy (h : (ids (background ++ cs)).Nodup)
    (hb : Consistent background) :
    Consistent (background ++ subtract cs (greedy cs background)) :=
  (Consistent.congr fun _ => mem_kept_reverse_iff h).mp (consistent_kept hb)

theorem not_consistent_of_mem_greedy (h : (ids (background ++ cs)).Nodup)
    (hc : c ∈ greedy cs background) :
    ¬Consistent (background ++ subtract cs (greedy cs background) ++ [c]) := by
  refine fun k => not_consistent_of_mem_aside hc (k.mono ?_)
  intro d hd
  rcases List.mem_append.mp hd with hd | hd
  · exact List.mem_append_left _ ((mem_kept_reverse_iff h).mp hd)
  · exact List.mem_append_right _ hd

/-- The candidates at the end are scanned first, and what is kept of them joins the background. -/
theorem greedy_append (h : (ids (background ++ ds)).Nodup) : greedy (cs ++ ds) background =
    greedy ds background ++ greedy cs (background ++ subtract ds (greedy ds background)) := by
  rw [greedy, List.reverse_append, scan_append]
  exact congrArg (greedy ds background ++ ·) (scan_congr fun _ => mem_kept_reverse_iff h)

/-! ### The preferred diagnosis -/

section preferred

variable {candidates : List Constraint}

theorem ids_union_append_nodup (hcs : (ids candidates).Nodup)
    (hd : ∀ b ∈ background, b.id ∉ ids candidates) :
    (ids (union background [] ++ candidates)).Nodup := by
  rw [← union_eq_append hcs hd]
  exact ids_union_nodup

theorem preferred_of_consistent (h : Consistent (union background [])) :
    preferred candidates background = greedy candidates (union background []) :=
  if_pos ((consistent_iff _).mp h)

theorem preferred_of_not_consistent (h : ¬Consistent (union background [])) :
    preferred candidates background = [] := by
  rw [consistent_iff] at h
  exact if_neg h

theorem preferred_sublist : (preferred candidates background).Sublist candidates.reverse := by
  unfold preferred
  split
  · exact greedy_sublist
  · exact List.nil_sublist _

theorem preferred_subset : preferred candidates background ⊆ candidates := fun _ hc =>
  List.mem_reverse.mp (preferred_sublist.subset hc)

theorem preferred_eq_nil_iff (hcs : (ids candidates).Nodup)
    (hd : ∀ b ∈ background, b.id ∉ ids candidates) :
    preferred candidates background = [] ↔
      Consistent (union background candidates) ∨ ¬Consistent (union background []) := by
  by_cases h : Consistent (union background [])
  · rw [preferred_of_consistent h, greedy_eq_nil_iff h, union_eq_append hcs hd]
    exact ⟨.inl, fun k => k.elim id fun k => absurd h k⟩
  · rw [preferred_of_not_consistent h]
    exact ⟨fun _ => .inr h, fun _ => rfl⟩

/-- What is preferred is a diagnosis, and no proper part of it is one. -/
theorem isMinimal_preferred (hcs : (ids candidates).Nodup)
    (hd : ∀ b ∈ background, b.id ∉ ids candidates) (hb : Consistent (union background [])) :
    IsMinimal candidates background (preferred candidates background) := by
  rw [preferred_of_consistent hb]
  have hnd := ids_union_append_nodup hcs hd
  have hrest : ∀ part, union background (subtract candidates part) =
      union background [] ++ subtract candidates part := fun part =>
    union_eq_append (ids_subtract_nodup hcs) (apart_of_subset hd subtract_subset)
  refine ⟨⟨greedy_subset, ?_⟩, fun part hpart hdiag => ?_⟩
  · rw [hrest]
    exact consistent_without_greedy hnd hb
  · intro c hc
    by_contra hnot
    have hcons := hdiag.2
    rw [hrest] at hcons
    refine not_consistent_of_mem_greedy hnd hc (hcons.mono ?_)
    intro d hmem
    rw [List.append_assoc, List.mem_append, List.mem_append,
      mem_subtract_of_subset hcs greedy_subset, List.mem_singleton] at hmem
    rw [List.mem_append, mem_subtract_of_subset hcs hdiag.1]
    rcases hmem with hmem | ⟨hmem, hna⟩ | rfl
    · exact .inl hmem
    · exact .inr ⟨hmem, fun hp => hna (hpart hp)⟩
    · exact .inr ⟨greedy_subset hc, hnot⟩

end preferred

end Diagnosis
end ProductLine

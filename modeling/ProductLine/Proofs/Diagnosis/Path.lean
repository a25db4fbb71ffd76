import Mathlib.Data.List.Induction
import Mathlib.Data.List.Shortlex
import Mathlib.Data.List.Perm.Subperm
import ProductLine.Proofs.Diagnosis.Greedy

/-! # Exclusion paths

The enumeration moves one constraint after another from the candidates to the background. What was
moved on the way to a diagnosis is a *path*, and `preferredAt` is the diagnosis that the order of
the candidates prefers when the constraints of the path have to stay. It is a minimal diagnosis of
all candidates (`isMinimal_preferredAt`).

Paths stand in an order (`Before`): a shorter one comes first, and of two equally long ones the one
that takes the later candidate where they part. A path is `Kept` if it extends a kept path by a
constraint of the diagnosis preferred there, and if no kept path before it prefers the same
diagnosis. This says which paths count, without any search. -/

namespace ProductLine
namespace Diagnosis

open Constraint

variable (candidates background : List Constraint)

/-- The diagnosis that is preferred when the constraints of a path have to stay. -/
def preferredAt (path : List Constraint) : List Constraint :=
  preferred (subtract candidates path) (union background path)

/-- Of two candidates the later one stands ahead. -/
def Ahead (c d : Constraint) : Prop :=
  (ids candidates.reverse).idxOf c.id < (ids candidates.reverse).idxOf d.id

/-- The order of paths: first by length, then by the first candidates that differ. -/
def Before : List Constraint → List Constraint → Prop := List.Shortlex (Ahead candidates)

theorem before_wf : WellFounded (Before candidates) :=
  List.Shortlex.wf
    (InvImage.wf (fun c : Constraint => (ids candidates.reverse).idxOf c.id) Nat.lt_wfRel.wf)

instance : Std.Asymm (Ahead candidates) := ⟨fun _ _ h k => Nat.lt_asymm h k⟩

instance : Std.Asymm (Before candidates) := List.Shortlex.asymm

theorem before_dropLast {path : List Constraint} (h : path ≠ []) :
    Before candidates path.dropLast path := by
  refine List.Shortlex.of_length_lt ?_
  rw [List.length_dropLast]
  have := List.length_pos_of_ne_nil h
  omega

/-- A path that is not given up: every step takes a constraint of the diagnosis preferred so far, and
what is preferred then is preferred on no kept path before. -/
def Kept : List Constraint → Prop :=
  (before_wf candidates).fix fun path kept =>
    preferredAt candidates background path ≠ [] ∧
    (∀ h : path ≠ [], kept path.dropLast (before_dropLast candidates h) ∧
      path.getLast h ∈ preferredAt candidates background path.dropLast) ∧
    ∀ other, (h : Before candidates other path) → kept other h →
      preferredAt candidates background other ≠ preferredAt candidates background path

variable {candidates background} {path : List Constraint} {c : Constraint}

theorem kept_iff : Kept candidates background path ↔
    preferredAt candidates background path ≠ [] ∧
    (∀ h : path ≠ [], Kept candidates background path.dropLast ∧
      path.getLast h ∈ preferredAt candidates background path.dropLast) ∧
    ∀ other, Before candidates other path → Kept candidates background other →
      preferredAt candidates background other ≠ preferredAt candidates background path := by
  unfold Kept
  rw [WellFounded.fix_eq]

theorem kept_nil_iff :
    Kept candidates background [] ↔ preferredAt candidates background [] ≠ [] := by
  rw [kept_iff]
  exact ⟨fun h => h.1, fun h =>
    ⟨h, fun k => absurd rfl k, fun other k => absurd k List.not_shortlex_nil_right⟩⟩

theorem kept_append_iff : Kept candidates background (path ++ [c]) ↔
    preferredAt candidates background (path ++ [c]) ≠ [] ∧
    (Kept candidates background path ∧ c ∈ preferredAt candidates background path) ∧
    ∀ other, Before candidates other (path ++ [c]) → Kept candidates background other →
      preferredAt candidates background other ≠ preferredAt candidates background (path ++ [c]) := by
  have hne : path ++ [c] ≠ [] := List.append_ne_nil_of_right_ne_nil _ (List.cons_ne_nil _ _)
  rw [kept_iff]
  refine and_congr_right fun _ => and_congr_left ?_
  intro _
  constructor
  · intro h
    have hk := h hne
    rw [List.dropLast_concat, List.getLast_concat] at hk
    exact hk
  · intro h _
    rw [List.dropLast_concat, List.getLast_concat]
    exact h

/-! ### What is preferred on a path -/

theorem preferredAt_nil :
    preferredAt candidates background [] = preferred candidates background := by
  unfold preferredAt preferred
  rw [subtract_nil, union_union]
  rfl

theorem preferredAt_sublist :
    (preferredAt candidates background path).Sublist candidates.reverse :=
  preferred_sublist.trans (List.reverse_sublist.mpr subtract_sublist)

theorem preferredAt_subset : preferredAt candidates background path ⊆ candidates := fun _ h =>
  List.mem_reverse.mp (preferredAt_sublist.subset h)

theorem id_not_mem_path (h : c ∈ preferredAt candidates background path) : c.id ∉ ids path :=
  (mem_subtract.mp (preferred_subset h)).2

/-- A path takes candidates, none of them twice. -/
structure IsPath (candidates path : List Constraint) : Prop where
  subset : path ⊆ candidates
  nodup : (ids path).Nodup

namespace IsPath

theorem nil : IsPath candidates [] := ⟨List.nil_subset _, List.nodup_nil⟩

theorem append (h : IsPath candidates path) (hc : c ∈ preferredAt candidates background path) :
    IsPath candidates (path ++ [c]) where
  subset := List.append_subset.mpr
    ⟨h.subset, List.cons_subset.mpr ⟨preferredAt_subset hc, List.nil_subset _⟩⟩
  nodup := ids_append_singleton_nodup h.nodup (id_not_mem_path hc)

theorem length_le (h : IsPath candidates path) : path.length ≤ candidates.length :=
  (List.Nodup.of_map _ h.nodup).subperm h.subset |>.length_le

end IsPath

theorem Kept.isPath (h : Kept candidates background path) : IsPath candidates path := by
  induction path using List.reverseRecOn with
  | nil => exact IsPath.nil
  | append_singleton path c ih =>
    obtain ⟨-, ⟨hk, hc⟩, -⟩ := kept_append_iff.mp h
    exact (ih hk).append hc

section minimal

variable (hc : (ids candidates).Nodup) (hd : ∀ b ∈ background, b.id ∉ ids candidates)
  (hp : IsPath candidates path)
include hd hp

theorem union_path : union background path = union background [] ++ path :=
  union_eq_append hp.nodup (apart_of_subset hd hp.subset)

include hc

/-- Whether a part of the candidates off the path is a diagnosis does not hang on the path. -/
theorem isDiagnosis_off_path_iff {part : List Constraint} (hpart : part ⊆ subtract candidates path) :
    IsDiagnosis (subtract candidates path) (union background path) part ↔
      IsDiagnosis candidates background part := by
  have hpc : part ⊆ candidates := fun _ h => subtract_subset (hpart h)
  have hoff : ∀ b ∈ union background path, b.id ∉ ids (subtract candidates path) :=
    union_apart_subtract hd
  unfold IsDiagnosis
  rw [union_eq_append (ids_subtract_nodup hc) (apart_of_subset hd subtract_subset),
    union_eq_append (ids_subtract_nodup (ids_subtract_nodup hc))
      (apart_of_subset hoff subtract_subset),
    union_union, List.append_nil, union_path hd hp]
  refine and_congr ⟨fun _ => hpc, fun _ => hpart⟩ (Consistent.congr ?_)
  intro d
  rw [List.append_assoc, List.mem_append, List.mem_append, List.mem_append,
    mem_subtract_of_subset (ids_subtract_nodup hc) hpart, mem_subtract_of_subset hc hp.subset,
    mem_subtract_of_subset hc hpc]
  refine or_congr_right ⟨?_, fun ⟨h, hn⟩ => ?_⟩
  · rintro (h | ⟨⟨h, -⟩, hn⟩)
    · refine ⟨hp.subset h, ?_⟩
      intro hdp
      exact (mem_subtract.mp (hpart hdp)).2 (id_mem_ids h)
    · exact ⟨h, hn⟩
  · by_cases hdp : d ∈ path
    · exact .inl hdp
    · exact .inr ⟨⟨h, hdp⟩, hn⟩

theorem isMinimal_preferredAt (hne : preferredAt candidates background path ≠ []) :
    IsMinimal candidates background (preferredAt candidates background path) := by
  have hb : Consistent (union (union background path) []) := by
    by_contra h
    exact hne (preferred_of_not_consistent h)
  have hoff : (ids (subtract candidates path)).Nodup := ids_subtract_nodup hc
  have hmin := isMinimal_preferred hoff (union_apart_subtract hd) hb
  have hsub : preferredAt candidates background path ⊆ subtract candidates path := preferred_subset
  refine ⟨(isDiagnosis_off_path_iff hc hd hp hsub).mp hmin.1, ?_⟩
  intro part hpart hdiag
  refine hmin.2 part hpart ((isDiagnosis_off_path_iff hc hd hp ?_).mpr hdiag)
  exact fun d h => hsub (hpart h)

end minimal

/-- The candidates from the last to the first stand in the order in which they are taken. -/
theorem pairwise_ahead (hc : (ids candidates).Nodup) :
    candidates.reverse.Pairwise (Ahead candidates) := by
  have hnd : (ids candidates.reverse).Nodup := by
    rw [ids_reverse]
    exact List.nodup_reverse.mpr hc
  rw [List.pairwise_iff_getElem]
  intro i j hi hj hij
  have hget : ∀ k, (hk : k < candidates.reverse.length) →
      (ids candidates.reverse).idxOf candidates.reverse[k].id = k := by
    intro k hk
    have hk' : k < (ids candidates.reverse).length := by
      rw [ids, List.length_map]
      exact hk
    have e : candidates.reverse[k].id = (ids candidates.reverse)[k] := (List.getElem_map _).symm
    rw [e, hnd.idxOf_getElem]
  unfold Ahead
  rw [hget i hi, hget j hj]
  exact hij

theorem pairwise_preferredAt (hc : (ids candidates).Nodup) :
    (preferredAt candidates background path).Pairwise (Ahead candidates) :=
  (pairwise_ahead hc).sublist preferredAt_sublist

/-- Minimal diagnoses that are preferred on paths are the same if one is a part of the other. -/
theorem preferredAt_eq_of_subset {other : List Constraint} (hc : (ids candidates).Nodup)
    (h : IsMinimal candidates background (preferredAt candidates background path))
    (ho : IsMinimal candidates background (preferredAt candidates background other))
    (hsub : preferredAt candidates background other ⊆ preferredAt candidates background path) :
    preferredAt candidates background other = preferredAt candidates background path := by
  have hnd : ∀ p, (preferredAt candidates background p).Nodup := fun p =>
    preferredAt_sublist.nodup (List.nodup_reverse.mpr (List.Nodup.of_map _ hc))
  have hback := h.2 _ hsub ho.1
  have hperm : (preferredAt candidates background other).Perm
      (preferredAt candidates background path) :=
    (List.perm_ext_iff_of_nodup (hnd _) (hnd _)).mpr fun d => ⟨fun k => hsub k, fun k => hback k⟩
  exact List.Perm.eq_of_pairwise (fun a b _ _ hab hba => absurd hba (Std.Asymm.asymm a b hab))
    (pairwise_preferredAt hc) (pairwise_preferredAt hc) hperm

end Diagnosis
end ProductLine

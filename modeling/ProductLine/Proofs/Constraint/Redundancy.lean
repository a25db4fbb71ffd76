import ProductLine.Proofs.Constraint.Products
import ProductLine.Proofs.FeatureModel.Made

/-! # Constraints that make no difference

A cross-tree constraint is redundant exactly if no product of the model without it breaks it
(`isRedundant_iff`, `admits_same_iff`). In the store of the model this is a question about the baseline
with the constraint's own part replaced by its opposite (`consistent_opposite_iff`). -/

namespace ProductLine

open Constraint

namespace FeatureModel

variable {m : FeatureModel} {done rest : List Relationship} {r : Relationship}

theorem crossTree_without (h : m.crossTree = done ++ r :: rest) :
    (m.without done.length).crossTree = done ++ rest := by
  unfold without
  rw [h, List.eraseIdx_append_of_length_le (Nat.le_refl _), Nat.sub_self, List.eraseIdx_cons_zero]

theorem relationships_perm_without (h : m.crossTree = done ++ r :: rest) :
    m.relationships.Perm (r :: (m.without done.length).relationships) := by
  unfold relationships
  rw [crossTree_without h, h, ← List.append_assoc]
  exact List.perm_middle.trans (by rw [List.append_assoc]; rfl)

theorem isProduct_iff_without (h : m.crossTree = done ++ r :: rest) (s : Selection) :
    m.IsProduct s ↔ (m.without done.length).IsProduct s ∧ r.Holds s := by
  have hholds : (∀ r' ∈ m.relationships, r'.Holds s) ↔
      r.Holds s ∧ ∀ r' ∈ (m.without done.length).relationships, r'.Holds s :=
    (forall_congr' fun r' => imp_congr_left (relationships_perm_without h).mem_iff).trans
      List.forall_mem_cons
  unfold IsProduct
  rw [hholds, and_comm (a := r.Holds s), and_assoc, and_assoc]
  rfl

/-- A constraint makes no difference exactly if no product of the rest breaks it. -/
theorem isRedundant_iff (h : m.crossTree = done ++ r :: rest) :
    m.IsRedundant done.length ↔ ¬∃ s, (m.without done.length).IsProduct s ∧ ¬r.Holds s := by
  unfold IsRedundant
  simp only [isProduct_iff_without h, iff_self_and, not_exists, not_and, not_not]

theorem Arranged.same_eq_false (hm : m.Arranged) (h : m.crossTree = done ++ r :: rest)
    {r' : Relationship} (hr' : r' ∈ (m.without done.length).relationships) : r.same r' = false := by
  have hperm := relationships_perm_without h
  have hnd := (hperm.map (·.key)).nodup_iff.mp hm.keys_nodup
  rw [List.map_cons, List.nodup_cons] at hnd
  exact same_eq_false_of_key_ne fun heq => hnd.1 (heq ▸ List.mem_map_of_mem hr')

theorem Arranged.same_self (hm : m.Arranged) (hr : r ∈ m.relationships) : r.same r = true :=
  hm.identified.same_self hr

/-- A constraint that can be told from the others is broken without it exactly if it makes a difference. -/
theorem Arranged.admits_same_iff (hm : m.Arranged) (h : m.crossTree = done ++ r :: rest) :
    (m.Admits (fun r' => r.same r' = true) fun s => ¬r.Holds s) ↔ ¬m.IsRedundant done.length := by
  have hperm := relationships_perm_without h
  have hothers : ∀ s : Selection, (∀ r' ∈ m.relationships, ¬r.same r' = true → r'.Holds s) ↔
      ∀ r' ∈ (m.without done.length).relationships, r'.Holds s := by
    intro s
    refine ⟨fun hall r' hr' => ?_, fun hall r' hr' hother => ?_⟩
    · refine hall r' (hperm.symm.subset (List.mem_cons_of_mem _ hr')) ?_
      rw [hm.same_eq_false h hr']
      exact Bool.false_ne_true
    · rcases List.mem_cons.mp (hperm.subset hr') with rfl | hrest
      · exact absurd (hm.same_self hr') hother
      · exact hall r' hrest
  rw [isRedundant_iff h, not_not]
  unfold Admits IsProduct
  simp only [hothers, and_assoc]
  rfl

end FeatureModel

theorem Store.mem_constraintsOf_iff_same {s : Store} {c : Constraint} (hc : c ∈ s.cf)
    {r r' : Relationship} (hsource : c.source = some r') :
    c ∈ s.constraintsOf r ↔ r.same r' = true := by
  unfold Store.constraintsOf
  rw [List.mem_filter, and_iff_right hc, hsource]
  rfl

namespace Store.Faithful

variable {m : FeatureModel} {s : Store} {done rest : List Relationship} {r : Relationship}
  {opposite : Constraint}

section

variable (h : Faithful m s) (hm : m.Arranged) (hsplit : m.crossTree = done ++ r :: rest)
include h hm hsplit

theorem mem_constraintsOf_iff {c : Constraint} (hc : c ∈ s.ac) :
    c ∈ s.constraintsOf r ↔ c.source = some r := by
  have hperm := FeatureModel.relationships_perm_without hsplit
  unfold constraintsOf
  rw [List.mem_filter]
  rcases List.mem_append.mp hc with hc | hc
  · obtain ⟨r', hr', hsource, -⟩ := h.sound c hc
    rw [hsource, Option.any_some, Option.some.injEq]
    rcases List.mem_cons.mp (hperm.subset hr') with rfl | hother
    · exact iff_of_true ⟨hc, hm.same_self hr'⟩ rfl
    · have hsame := hm.same_eq_false hsplit hother
      refine iff_of_false (fun hin => ?_) ?_
      · exact Bool.false_ne_true (hsame.symm.trans hin.2)
      · rintro rfl
        exact Bool.false_ne_true (hsame.symm.trans (hm.same_self hr'))
  · obtain ⟨-, c', -, hc', -, hsource⟩ := h.root
    rw [hc', Option.toList_some, List.mem_singleton] at hc
    rw [hc, hsource]
    exact iff_of_false (fun hin => Bool.false_ne_true hin.2) (Option.some_ne_none r).symm

open Classical in
theorem subtract_constraintsOf :
    subtract s.ac (s.constraintsOf r) = s.ac.filter fun c => c.source ≠ some r := by
  have hsub : s.constraintsOf r ⊆ s.ac := fun c hc =>
    List.mem_append_left _ (List.mem_of_mem_filter hc)
  refine List.filter_congr fun c hc => ?_
  have hiff : c.isIn (s.constraintsOf r) = true ↔ c.source = some r := by
    rw [isIn_iff, id_mem_ids_iff h.ids_nodup hsub hc, h.mem_constraintsOf_iff hm hsplit hc]
  rw [Bool.eq_iff_iff, Bool.not_eq_true', ← Bool.not_eq_true, hiff, decide_eq_true_eq]

end

/-- The baseline with a constraint replaced by its opposite can hold exactly if a product of the rest
breaks the constraint. -/
theorem consistent_opposite_iff (h : Faithful m s) (hvars : opposite.formula.vars ⊆ m.names)
    (hopposite : ∀ v, opposite.formula.eval v = true ↔ ¬r.Holds v) :
    Diagnosis.Consistent (subtract s.ac (s.constraintsOf r) ++ [opposite]) ↔
      m.Admits (fun r' => r.same r' = true) fun v => ¬r.Holds v := by
  have hown : s.constraintsOf r ⊆ s.cf := List.filter_subset_self _
  have hout : ∀ c ∈ s.cf, ∀ r', c.source = some r' →
      (c ∈ subtract s.cf (s.constraintsOf r) ↔ ¬r.same r' = true) := by
    intro c hc r' hsource
    rw [mem_subtract_of_subset h.ids_cf_nodup hown, and_iff_right hc,
      mem_constraintsOf_iff_same hc hsource]
  have hmem : ∀ c, c ∈ subtract s.ac (s.constraintsOf r) ++ [opposite] ↔
      c ∈ (s.root.toList ++ [opposite]) ++ subtract s.cf (s.constraintsOf r) := by
    intro c
    rw [h.subtract_ac hown]
    simp only [List.mem_append]
    tauto
  rw [Diagnosis.Consistent.congr hmem, h.consistent_iff_admits (List.forall_mem_singleton.mpr hvars)
    subtract_subset hout]
  simp only [List.forall_mem_singleton, hopposite]

end Store.Faithful
end ProductLine

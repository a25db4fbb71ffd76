import ProductLine.Logic.Splitting
import ProductLine.Proofs.Constraint.Store
import ProductLine.Proofs.Diagnosis.Sound

/-! # Constraints and products

For a store that is faithful to a model, questions about constraints are questions about products: what
is kept of the baseline can hold with more exactly if the model would have a product that is as that says,
were it not for the relationships that are left out (`consistent_iff_admits`). So the baseline can hold
with assignments exactly if some product has them (`consistent_assignments_iff`), and a diagnosis names
relationships without which the model would have a product (`admits_of_repairs`).
-/

namespace ProductLine

open Constraint

/-- A constraint of the relationship is in the diagnosis. -/
def Diagnosis.Blames (diagnosis : List Constraint) (r : Relationship) : Prop :=
  ∃ c ∈ diagnosis, c.source = some r

/-- The constraints that features are selected or not, numbered from a number on. -/
def assignments : Nat → List (String × Bool) → List Constraint
  | _, [] => []
  | n, (name, value) :: rest =>
    ⟨n, .literal name value, .assignment, none⟩ :: assignments (n + 1) rest

theorem ids_assignments (n : Nat) (values : List (String × Bool)) :
    ids (assignments n values) = (List.range' n values.length).map Nat.cast := by
  induction values generalizing n with
  | nil => rfl
  | cons x rest ih =>
    unfold assignments
    rw [ids_cons, ih, List.length_cons, List.range'_succ, List.map_cons]

theorem eval_assignments {n : Nat} {values : List (String × Bool)} {v : Selection} :
    (∀ c ∈ assignments n values, c.formula.eval v = true) ↔ ∀ x ∈ values, v x.1 = x.2 := by
  induction values generalizing n with
  | nil => exact ⟨fun _ x hx => absurd hx List.not_mem_nil, fun _ c hc => absurd hc List.not_mem_nil⟩
  | cons x rest ih =>
    unfold assignments
    rw [List.forall_mem_cons, List.forall_mem_cons, ih, Formula.eval_literal, beq_iff_eq]

theorem vars_assignments_subset {features : List String} {n : Nat} {values : List (String × Bool)}
    (h : ∀ x ∈ values, x.1 ∈ features) : ∀ c ∈ assignments n values, c.formula.vars ⊆ features := by
  induction values generalizing n with
  | nil => exact List.forall_mem_nil _
  | cons x rest ih =>
    unfold assignments
    rw [List.forall_mem_cons] at h ⊢
    refine ⟨?_, ih h.2⟩
    have hone : [x.1] ⊆ features := List.cons_subset.mpr ⟨h.1, List.nil_subset _⟩
    cases x.2 <;> exact hone

namespace Store

open Diagnosis

variable {m : FeatureModel} {s : Store} {extra candidates diagnosis : List Constraint}

theorem ids_candidates_apart (hnd : (ids (s.ac ++ extra)).Nodup) (hcands : candidates ⊆ s.cf)
    (hids : (ids candidates).Nodup) : (ids ((s.root.toList ++ extra) ++ candidates)).Nodup := by
  have hnd' : (ids s.cf ++ (ids s.root.toList ++ ids extra)).Nodup := by
    rw [← ids_append, ← ids_append, ← List.append_assoc]
    exact hnd
  rw [List.nodup_append] at hnd'
  rw [ids_append, List.nodup_append, ids_append]
  refine ⟨hnd'.2.1, hids, fun i hi j hj hij => ?_⟩
  exact hnd'.2.2 j (List.map_subset _ hcands hj) i hi hij.symm

namespace Faithful

variable (h : Faithful m s)
include h

theorem root_vars : ∀ c ∈ s.root.toList, c.formula.vars ⊆ m.names := by
  obtain ⟨f, c, hf, hc, hformula, -⟩ := h.root
  intro d hd
  rw [hc, Option.toList_some, List.mem_singleton] at hd
  rw [hd, hformula]
  exact List.cons_subset.mpr ⟨List.mem_map_of_mem (List.mem_of_head? hf), List.nil_subset _⟩

theorem vars_ac_subset : ∀ c ∈ s.ac, c.formula.vars ⊆ m.names :=
  List.forall_mem_append.mpr ⟨h.vars_subset, h.root_vars⟩

theorem vars_of_names {cs : List Constraint} (hcs : ∀ c ∈ cs, c.formula.vars ⊆ m.names) :
    ∀ c ∈ cs, c.formula.vars ⊆ s.vars := fun c hc x hx => (h.mem_vars x).mpr (hcs c hc hx)

theorem subtract_ac {group : List Constraint} (hg : group ⊆ s.cf) :
    subtract s.ac group = subtract s.cf group ++ s.root.toList := by
  have hnd := h.ids_nodup
  unfold ac at hnd ⊢
  rw [ids_append, List.nodup_append] at hnd
  have hroot : subtract s.root.toList group = s.root.toList := subtract_eq_self fun c hc hi =>
    hnd.2.2 _ (List.map_subset _ hg hi) _ (id_mem_ids hc) rfl
  rw [append_subtract, hroot]

theorem ids_cf_nodup : (ids s.cf).Nodup := by
  have hnd := h.ids_nodup
  unfold ac at hnd
  rw [ids_append, List.nodup_append] at hnd
  exact hnd.1

/-- Constraints that can hold together, the root among them, are satisfied by a selection of
features, in which the relationships hold of which no constraint is missing. -/
theorem admits {cs : List Constraint} {out : Relationship → Prop} (hcons : Consistent cs)
    (hvars : ∀ c ∈ cs, c.formula.vars ⊆ m.names) (hroot : s.root.toList ⊆ cs)
    (hkeep : ∀ c ∈ s.cf, ∀ r, c.source = some r → ¬out r → c ∈ cs) :
    m.Admits out fun v => ∀ c ∈ cs, c.formula.eval v = true := by
  obtain ⟨v, hv⟩ := hcons
  have heval : ∀ c ∈ cs, c.formula.eval (fun x => v x && decide (x ∈ m.names)) = true := by
    intro c hc
    rw [Formula.eval_congr fun x hx => ?_]
    · exact hv c.formula (List.mem_map_of_mem hc)
    · rw [decide_eq_true (hvars c hc hx), Bool.and_true]
  obtain ⟨f, c, hf, hc, hformula, -⟩ := h.root
  have hselected := heval c (hroot (by rw [hc]; exact List.mem_singleton_self c))
  rw [hformula] at hselected
  refine ⟨_, ?_, ⟨f, hf, hselected⟩, ?_, heval⟩
  · intro name hname
    rw [Bool.and_eq_true, decide_eq_true_eq] at hname
    exact hname.2
  · intro r hr hout
    exact h.complete r hr _ fun c hc hsource => heval c (hkeep c hc r hsource hout)

theorem eval_root {v : Selection} (hv : ∃ root ∈ m.features.head?, v root.name = true) :
    ∀ c ∈ s.root.toList, c.formula.eval v = true := by
  obtain ⟨f, c', hf, hc', hformula, -⟩ := h.root
  obtain ⟨g, hg, hselected⟩ := hv
  intro c hc
  rw [hc', Option.toList_some, List.mem_singleton] at hc
  rw [hc, hformula]
  rw [hf] at hg
  cases hg
  exact hselected

theorem ids_assignments_nodup (values : List (String × Bool)) :
    (ids (s.ac ++ assignments s.nextId values)).Nodup := by
  rw [ids_append, ids_assignments, List.nodup_append]
  refine ⟨h.ids_nodup, (List.nodup_range' 1).map fun _ _ => Int.ofNat.inj, ?_⟩
  intro i hi j hj hij
  obtain ⟨n, hn, rfl⟩ := List.mem_map.mp hj
  have hlt := h.ids_lt i hi
  have hle := (List.mem_range'_1.mp hn).1
  omega

/-- If constraints that are kept can hold with the root and more, the model would have a product that is
as the others say, were it not for the relationships of which something is missing. -/
theorem admits_of_kept {kept : List Constraint} {out : Relationship → Prop}
    (hextra : ∀ c ∈ extra, c.formula.vars ⊆ m.names) (hkept : kept ⊆ s.cf)
    (hkeep : ∀ c ∈ s.cf, ∀ r, c.source = some r → ¬out r → c ∈ kept)
    (hcons : Consistent ((s.root.toList ++ extra) ++ kept)) :
    m.Admits out fun v => ∀ c ∈ extra, c.formula.eval v = true := by
  have hvars : ∀ c ∈ (s.root.toList ++ extra) ++ kept, c.formula.vars ⊆ m.names :=
    List.forall_mem_append.mpr ⟨List.forall_mem_append.mpr ⟨h.root_vars, hextra⟩,
      fun c hc => h.vars_subset c (hkept hc)⟩
  have hroot : s.root.toList ⊆ (s.root.toList ++ extra) ++ kept := fun c hc =>
    List.mem_append_left _ (List.mem_append_left _ hc)
  have hstays : ∀ c ∈ s.cf, ∀ r, c.source = some r → ¬out r →
      c ∈ (s.root.toList ++ extra) ++ kept := fun c hc r hsource hr =>
    List.mem_append_right _ (hkeep c hc r hsource hr)
  apply (h.admits hcons hvars hroot hstays).mono fun r _ => id
  intro v hv c hc
  exact hv c (List.mem_append_left _ (List.mem_append_right _ hc))

/-- Constraints that are kept can hold with the root and more exactly if the model would have a product
that is as the others say, were it not for the relationships of which nothing is kept. -/
theorem consistent_iff_admits {kept : List Constraint} {out : Relationship → Prop}
    (hextra : ∀ c ∈ extra, c.formula.vars ⊆ m.names) (hkept : kept ⊆ s.cf)
    (hout : ∀ c ∈ s.cf, ∀ r, c.source = some r → (c ∈ kept ↔ ¬out r)) :
    Consistent ((s.root.toList ++ extra) ++ kept) ↔
      m.Admits out fun v => ∀ c ∈ extra, c.formula.eval v = true := by
  refine ⟨h.admits_of_kept hextra hkept fun c hc r hsource => (hout c hc r hsource).mpr, ?_⟩
  rintro ⟨v, -, hselected, hrel, hv⟩
  have hholds : ∀ c ∈ kept, c.formula.eval v = true := by
    intro c hc
    obtain ⟨r, hr, hsource, hsound⟩ := h.sound c (hkept hc)
    exact hsound v (hrel r hr ((hout c (hkept hc) r hsource).mp hc))
  exact ⟨v, List.forall_mem_map.mpr (List.forall_mem_append.mpr
    ⟨List.forall_mem_append.mpr ⟨h.eval_root hselected, hv⟩, hholds⟩)⟩

theorem consistent_ac_iff (hextra : ∀ c ∈ extra, c.formula.vars ⊆ m.names) :
    Consistent (s.ac ++ extra) ↔
      m.Admits (fun _ => False) fun v => ∀ c ∈ extra, c.formula.eval v = true := by
  rw [← h.consistent_iff_admits hextra (List.Subset.refl _) fun c hc _ _ => iff_of_true hc id]
  refine Consistent.congr fun c => ?_
  unfold ac
  simp only [List.mem_append]
  tauto

/-- The baseline can hold with assignments exactly if some product has them. -/
theorem consistent_assignments_iff {n : Nat} {values : List (String × Bool)}
    (hvalues : ∀ x ∈ values, x.1 ∈ m.names) :
    Consistent (s.ac ++ assignments n values) ↔ m.Allows values := by
  rw [h.consistent_ac_iff (vars_assignments_subset hvalues), FeatureModel.allows_iff_admits]
  simp only [eval_assignments]

/-- Candidates can hold over the root and more exactly if the model would have a product that is as the
others say, were it not for the relationships that have no candidates. -/
theorem consistent_union_iff {out : Relationship → Prop}
    (hextra : ∀ c ∈ extra, c.formula.vars ⊆ m.names) (hnd : (ids (s.ac ++ extra)).Nodup)
    (hcands : candidates ⊆ s.cf) (hids : (ids candidates).Nodup)
    (hout : ∀ c ∈ s.cf, ∀ r, c.source = some r → (c ∈ candidates ↔ ¬out r)) :
    Consistent (union (s.root.toList ++ extra) candidates) ↔
      m.Admits out fun v => ∀ c ∈ extra, c.formula.eval v = true := by
  rw [union_of_nodup (ids_candidates_apart hnd hcands hids)]
  exact h.consistent_iff_admits hextra hcands hout

/-- A diagnosis over the root and more names relationships without which the model would have a
product that is as the other constraints say. -/
theorem admits_of_repairs {skip : Relationship → Prop} (hextra : ∀ c ∈ extra, c.formula.vars ⊆ m.names)
    (hnd : (ids (s.ac ++ extra)).Nodup) (hcands : candidates ⊆ s.cf) (hids : (ids candidates).Nodup)
    (hkeep : ∀ c ∈ s.cf, ∀ r, c.source = some r → ¬skip r → c ∈ candidates)
    (hr : Repairs candidates (s.root.toList ++ extra) diagnosis) :
    m.Admits (fun r => skip r ∨ Blames diagnosis r)
      fun v => ∀ c ∈ extra, c.formula.eval v = true := by
  have hsub : subtract candidates diagnosis ⊆ s.cf := List.Subset.trans subtract_subset hcands
  have hcons := hr.consistent
  rw [union_of_nodup (ids_candidates_apart hnd hsub (ids_subtract_nodup hids))] at hcons
  refine h.admits_of_kept hextra hsub (fun c hc r hsource hout => ?_) hcons
  rw [not_or] at hout
  refine mem_subtract.mpr ⟨hkeep c hc r hsource hout.1, fun hi => ?_⟩
  -- a constraint of the diagnosis would name the relationship
  have hmem := mem_of_id_mem h.ids_cf_nodup (List.Subset.trans hr.subset hcands) hc hi
  exact hout.2 ⟨c, hmem, hsource⟩

end Faithful
end Store
end ProductLine

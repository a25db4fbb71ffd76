import ProductLine.Proofs.Constraint.Store

/-! # Stores made in another order

What is made of the relationships hangs on which features there are, not on the order in which they
are visited, for a side of a relationship names one of them at most (`find?_eq_some_iff`). So a store
that can be made in one order can be made in any order, and nothing but its variables stands in another
order then (`ofModel_reordered`). -/

namespace ProductLine

open Outcome

namespace Encoding

variable {features features' : List String}

theorem find?_eq_some_iff {key : Value.Key} {f : String} :
    features.find? (fun g => decide (Value.Key.text g = key)) = some f ↔
      f ∈ features ∧ .text f = key := by
  constructor
  · intro h
    have hname := List.find?_some h
    rw [decide_eq_true_eq] at hname
    exact ⟨List.mem_of_find?_eq_some h, hname⟩
  · rintro ⟨hmem, rfl⟩
    exact find?_text hmem

section same

variable (h : ∀ name, name ∈ features ↔ name ∈ features')
include h

theorem feature_congr : feature features = feature features' := by
  funext r name
  unfold feature
  cases name.key? with
  | none => rfl
  | some key =>
    have hfind : features.find? (fun f => decide (Value.Key.text f = key)) =
        features'.find? fun f => decide (Value.Key.text f = key) := by
      ext f
      rw [find?_eq_some_iff, find?_eq_some_iff, h]
    dsimp only
    rw [hfind]

theorem structural_congr : structural features = structural features' := by
  funext r
  unfold structural
  rw [feature_congr h]

theorem crossTree_congr : crossTree features = crossTree features' := by
  funext r
  unfold crossTree
  rw [feature_congr h]

end same
end Encoding

namespace FeatureModel

variable {m : FeatureModel} {unreachable : List String}

/-- If it can be told what the root leads to, the features can be visited in any order. -/
theorem order_of_unreachable (h : m.unreachable = .ok unreachable) (o : FeatureOrder) :
    ∃ fs, m.order o = .ok fs := by
  cases o with
  | declared => exact ⟨_, order_declared m⟩
  | depthFirst =>
    unfold FeatureModel.unreachable at h
    unfold order
    cases hm : m.features with
    | nil => exact ⟨_, rfl⟩
    | cons root rest =>
      rw [hm] at h
      obtain ⟨t, ht, -⟩ := bind_eq_ok_iff.mp h
      exact ⟨_, bind_eq_ok_iff.mpr ⟨t, ht, rfl⟩⟩

end FeatureModel

namespace Store

variable {m : FeatureModel} {s : Store} {o : FeatureOrder} {vars unreachable : List String}

theorem encode_congr {vars' : List String} (h : ∀ name, name ∈ vars ↔ name ∈ vars') :
    encode vars m = encode vars' m := by
  unfold encode
  rw [Encoding.structural_congr h, Encoding.crossTree_congr h]

theorem survey_reordered (h : survey m o = .ok (vars, unreachable)) (o' : FeatureOrder) :
    ∃ vars', survey m o' = .ok (vars', unreachable) ∧ ∀ name, name ∈ vars' ↔ name ∈ vars := by
  have hvars := mem_vars_of_survey h
  obtain ⟨_, -, h⟩ := bind_eq_ok_iff.mp h
  obtain ⟨_, hunreachable, h⟩ := bind_eq_ok_iff.mp h
  cases pure_eq_ok_iff.mp h
  obtain ⟨fs, hfs⟩ := FeatureModel.order_of_unreachable hunreachable o'
  have hsurvey : survey m o' = .ok (fs.map (·.name), unreachable) :=
    bind_eq_ok_iff.mpr ⟨fs, hfs, bind_eq_ok_iff.mpr ⟨_, hunreachable, rfl⟩⟩
  exact ⟨_, hsurvey, fun name => (mem_vars_of_survey hsurvey name).trans (hvars name).symm⟩

/-- In every other order the same store is made, but for the order of its variables. -/
theorem ofModel_reordered (h : ofModel m o = .ok s) (o' : FeatureOrder) :
    ∃ vars, (∀ name, name ∈ vars ↔ name ∈ s.vars) ∧ ofModel m o' = .ok { s with vars := vars } := by
  obtain ⟨root, rest, vars, unreachable, made, hm, hsurvey, hencode, rfl⟩ := attempt_eq_ok h
  obtain ⟨vars', hsurvey', hvars⟩ := survey_reordered hsurvey o'
  rw [← encode_congr hvars] at hencode
  refine ⟨vars', hvars, ?_⟩
  unfold ofModel attempt
  rw [hm]
  dsimp only
  rw [hsurvey']
  dsimp only
  rw [hencode]
  rfl

end Store
end ProductLine

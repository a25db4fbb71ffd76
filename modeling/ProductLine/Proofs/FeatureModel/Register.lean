import ProductLine.FeatureModel.Register
import ProductLine.Proofs.FeatureModel.Codec

/-! # What calls leave of a register

The index of a register and the list of its features are two copies of one state. A call writes them one
after the other, and between its writes they differ, but nothing fails there: whatever a call has against
its arguments it finds before it writes (`addFeature_eq`, `add_eq`). So index and list agree after every
call, also one that fails (`Register.Indexed`), a register does to its model what is done to a model
without an index (`Register.Follows`), and a call that fails leaves the register as it was, except that
of several features those in front of the first one that fails are kept (`run_sound`). -/

namespace ProductLine
namespace Register

open FeatureModel

/-- The index tells the place of each feature, and nothing else. -/
def Indexed (r : Register) : Prop :=
  ∀ name place, r.index.lookup name = some place ↔ r.model.names[place]? = some name

/-- The names are distinct and not blank, the index finds exactly the features of the list, and the
relationships stand where they belong and have as many features on the right as they should. -/
structure Sound (r : Register) : Prop where
  names_nodup : r.model.names.Nodup
  not_blank : ∀ name ∈ r.model.names, ¬Text.Blank name
  found : ∀ name f, r.feature? name = some f ↔ f ∈ r.model.features ∧ f.name = name
  structural : ∀ rel ∈ r.model.structural, rel.kind.isCrossTree = false
  crossTree : ∀ rel ∈ r.model.crossTree, rel.kind.isCrossTree = true
  arity : ∀ rel ∈ r.model.relationships, rel.kind.isGroup = false → rel.right.length = 1

variable {r r' : Register} {α : Type}

/-! ### The index -/

theorem getElem?_concat_eq_some_iff {l : List α} {a b : α} {i : Nat} :
    (l ++ [a])[i]? = some b ↔ l[i]? = some b ∨ i = l.length ∧ a = b := by
  rcases Nat.lt_trichotomy i l.length with hlt | rfl | hgt
  · rw [List.getElem?_append_left hlt]
    exact (or_iff_left fun h => Nat.ne_of_lt hlt h.1).symm
  · rw [List.getElem?_concat_length, List.getElem?_eq_none (Nat.le_refl _)]
    simp only [Option.some_inj, reduceCtorEq, true_and, false_or]
  · have hout : (l ++ [a]).length ≤ i := by
      rw [List.length_append, List.length_singleton]
      exact hgt
    rw [List.getElem?_eq_none hout, List.getElem?_eq_none (Nat.le_of_lt hgt)]
    exact (or_iff_left fun h => Nat.ne_of_gt hgt h.1).symm

namespace Indexed

theorem empty (title : Value) : (Register.empty title).Indexed := fun _ _ =>
  iff_of_false (fun h => nomatch h) fun h => nomatch h

theorem lookup_isSome_iff (h : r.Indexed) {name : String} :
    (r.index.lookup name).isSome ↔ name ∈ r.model.names := by
  rw [Option.isSome_iff_exists, List.mem_iff_getElem?]
  exact exists_congr fun place => h name place

theorem names_nodup (h : r.Indexed) : r.model.names.Nodup := by
  rw [List.nodup_iff_getElem?_ne_getElem?]
  intro i j hij hj heq
  have hi := (h _ i).mpr (heq.trans (List.getElem?_eq_getElem hj))
  have hj' := (h _ j).mpr (List.getElem?_eq_getElem hj)
  exact absurd (Option.some.inj (hi.symm.trans hj')) (Nat.ne_of_lt hij)

theorem feature?_eq_some_iff (h : r.Indexed) {name : String} {f : Feature} :
    r.feature? name = some f ↔ f ∈ r.model.features ∧ f.name = name := by
  have hname : ∀ place, r.model.features[place]? = some f → r.model.names[place]? = some f.name :=
    fun place hplace => by rw [names, List.getElem?_map, hplace, Option.map_some]
  unfold feature?
  rw [Option.bind_eq_some_iff]
  constructor
  · rintro ⟨place, hlookup, hplace⟩
    refine ⟨List.mem_of_getElem? hplace, Option.some.inj ((hname place hplace).symm.trans ?_)⟩
    exact (h name place).mp hlookup
  · rintro ⟨hf, rfl⟩
    obtain ⟨place, hplace⟩ := List.mem_iff_getElem?.mp hf
    exact ⟨place, (h _ place).mpr (hname place hplace), hplace⟩

/-- Looking into the index is looking through the list. -/
theorem feature?_eq (h : r.Indexed) (name : String) : r.feature? name = r.model.feature? name := by
  refine Option.ext fun f => ?_
  rw [h.feature?_eq_some_iff]
  constructor
  · rintro ⟨hf, rfl⟩
    obtain ⟨g, hg⟩ := Option.isSome_iff_exists.mp
      (FeatureModel.feature?_isSome_iff.mpr (List.mem_map_of_mem hf))
    obtain ⟨hmem, hname⟩ := of_feature?_eq_some hg
    rw [hg, List.inj_on_of_nodup_map h.names_nodup hmem hf hname]
  · exact of_feature?_eq_some

theorem entered (h : r.Indexed) {s : String} (hnew : s ∉ r.model.names) :
    Indexed ⟨{ r.model with features := r.model.features ++ [⟨s, []⟩] },
      (s, r.model.features.length) :: r.index⟩ := by
  intro name place
  have hnames : ({ r.model with features := r.model.features ++ [⟨s, []⟩] } : FeatureModel).names =
      r.model.names ++ [s] := by
    rw [names, List.map_append]
    rfl
  have hlength : r.model.names.length = r.model.features.length := List.length_map _
  show ((s, r.model.features.length) :: r.index).lookup name = some place ↔ _
  rw [hnames, getElem?_concat_eq_some_iff, ← h name place, hlength, List.lookup_cons]
  by_cases heq : name = s
  · have hnone : r.index.lookup name ≠ some place := fun hlookup =>
      hnew (heq ▸ h.lookup_isSome_iff.mp (Option.isSome_of_eq_some hlookup))
    rw [beq_iff_eq.mpr heq, or_iff_right hnone, and_iff_left heq.symm]
    exact Option.some_inj.trans eq_comm
  · rw [beq_eq_false_iff_ne.mpr heq]
    exact (or_iff_left fun hs => heq hs.2.symm).symm

end Indexed
/-! ### What calls do -/

/-- A name is looked at before anything is written. -/
theorem addFeature_eq (name : Value) (r : Register) : addFeature name r =
    match readName name with
    | .error e => .error e r
    | .ok s =>
      if (r.index.lookup s).isSome then .error (.repeatedName s) r
      else .ok () ⟨{ r.model with features := r.model.features ++ [⟨s, []⟩] },
        (s, r.model.features.length) :: r.index⟩ := by
  unfold addFeature
  cases readName name with
  | error e => rfl
  | ok s =>
    show ((orFail (checkNew r s) : Registering Unit) >>= fun _ => append s >>= fun _ => enter s) r = _
    unfold checkNew
    dsimp only
    split
    · rfl
    · have hlast : (r.model.features ++ [(⟨s, []⟩ : Feature)]).length - 1 = r.model.features.length := by
        rw [List.length_append, List.length_singleton, Nat.add_sub_cancel]
      rw [← hlast]
      rfl

theorem withFeature_eq (m : FeatureModel) (name : Value) : m.withFeature name =
    match readName name with
    | .error e => .error e
    | .ok s =>
      if (m.feature? s).isSome then .error (.repeatedName s)
      else .ok { m with features := m.features ++ [⟨s, []⟩] } := by
  unfold withFeature readName
  split
  · rfl
  · cases name with
    | text s =>
      dsimp only
      split <;> rfl
    | _ => rfl

theorem adding_eq (acrossTree : Bool) (kind : Relationship.Kind) (left right : Value)
    (m : FeatureModel) : adding acrossTree kind left right m =
      match checkSide acrossTree kind with
      | .error e => .error e m
      | .ok () =>
        match m.newRelationship kind left right with
        | .error e => .error e m
        | .ok r => .ok r (joined acrossTree [r] m) := by
  unfold checkSide
  cases acrossTree with
  | true =>
    show addConstraint kind left right m = _
    unfold addConstraint
    cases kind.isCrossTree with
    | true => cases m.newRelationship kind left right <;> rfl
    | false => rfl
  | false =>
    show addRelationship kind left right m = _
    unfold addRelationship
    cases kind.isCrossTree with
    | true => rfl
    | false => cases m.newRelationship kind left right <;> rfl

/-- A relationship is looked at before it is written, and the index does not matter to it. -/
theorem add_eq (acrossTree : Bool) (kind : Relationship.Kind) (left right : Value) (r : Register) :
    add acrossTree kind left right r =
      match adding acrossTree kind left right r.model with
      | .ok added m => .ok added { r with model := m }
      | .error e _ => .error e r := by
  have hadd : add acrossTree kind left right r = ((orFail (checkSide acrossTree kind) :
      Registering Unit) >>= fun _ => get >>= fun s =>
        orFail (s.model.newRelationship kind left right) >>= fun added =>
          write acrossTree added >>= fun _ => pure added) r := rfl
  rw [hadd, adding_eq]
  cases checkSide acrossTree kind with
  | error e => rfl
  | ok _ =>
    show ((orFail (r.model.newRelationship kind left right) : Registering Relationship) >>=
      fun added => write acrossTree added >>= fun _ => pure added) r = _
    dsimp only
    cases r.model.newRelationship kind left right with
    | error e => rfl
    | ok added => cases acrossTree <;> rfl

/-! ### A model with an index and one without -/

/-- The work does to the model of a register what an edit does to a model, and index and list of the
features agree behind it. -/
def Follows (work : Registering α) (edit : Edit α) : Prop :=
  ∀ r : Register, r.Indexed →
    match work r with
    | .ok a r' => edit r.model = .ok a r'.model ∧ r'.Indexed
    | .error e r' => edit r.model = .error e r'.model ∧ r'.Indexed

namespace Follows

variable {β : Type} {work : Registering α} {edit : Edit α}

theorem bind {next : α → Registering β} {edit' : α → Edit β} (h : Follows work edit)
    (k : ∀ a, Follows (next a) (edit' a)) : Follows (work >>= next) (edit >>= edit') := by
  intro r hr
  have hwork := h r hr
  cases hw : work r with
  | ok a u =>
    rw [hw] at hwork
    rw [bind_eq_of_ok hw, bind_eq_of_ok hwork.1]
    exact k a u hwork.2
  | error e u =>
    rw [hw] at hwork
    rw [bind_eq_of_error hw, bind_eq_of_error hwork.1]
    exact ⟨rfl, hwork.2⟩

theorem pure (a : α) : Follows (Pure.pure a) (Pure.pure a) := fun _ hr => ⟨rfl, hr⟩

theorem discard (h : Follows work edit) : Follows (discard work) (discard edit) :=
  h.bind fun _ => pure PUnit.unit

theorem forM {f : β → Registering PUnit} {g : β → Edit PUnit} (h : ∀ b, Follows (f b) (g b))
    (l : List β) : Follows (l.forM f) (l.forM g) := by
  induction l with
  | nil => exact pure PUnit.unit
  | cons b l ih => exact (h b).bind fun _ => ih

end Follows

theorem addFeature_follows (name : Value) :
    Follows (addFeature name) (FeatureModel.addFeature name) := by
  intro r hr
  unfold FeatureModel.addFeature
  rw [addFeature_eq, withFeature_eq]
  cases readName name with
  | error e => exact ⟨rfl, hr⟩
  | ok s =>
    dsimp only
    by_cases hin : s ∈ r.model.names
    · rw [if_pos (hr.lookup_isSome_iff.mpr hin), if_pos (feature?_isSome_iff.mpr hin)]
      exact ⟨rfl, hr⟩
    · rw [if_neg (hin ∘ hr.lookup_isSome_iff.mp), if_neg (hin ∘ feature?_isSome_iff.mp)]
      exact ⟨rfl, hr.entered hin⟩

theorem addFeatures_follows (names : Value) :
    Follows (addFeatures names) (FeatureModel.addFeatures names) := by
  unfold addFeatures FeatureModel.addFeatures
  cases names.items? with
  | some items => exact .forM addFeature_follows items
  | none => exact fun _ hr => ⟨rfl, hr⟩

theorem names_joined (acrossTree : Bool) (rs : List Relationship) (m : FeatureModel) :
    (joined acrossTree rs m).names = m.names := by
  unfold joined
  split <;> rfl

theorem add_follows (acrossTree : Bool) (kind : Relationship.Kind) (left right : Value) :
    Follows (add acrossTree kind left right) (adding acrossTree kind left right) := by
  intro r hr
  rw [add_eq, adding_eq]
  cases checkSide acrossTree kind with
  | error e => exact ⟨rfl, hr⟩
  | ok _ =>
    dsimp only
    cases r.model.newRelationship kind left right with
    | error e => exact ⟨rfl, hr⟩
    | ok added =>
      refine ⟨rfl, fun name place => ?_⟩
      rw [names_joined]
      exact hr name place

/-- A call on a register does what it does on a model. -/
theorem Call.perform_follows (call : Call) : Follows call.perform call.edit := by
  cases call with
  | feature name => exact addFeature_follows name
  | features names => exact addFeatures_follows names
  | relationship kind left right => exact (add_follows false kind left right).discard
  | constraint kind left right => exact (add_follows true kind left right).discard

theorem Call.leaves_follows (call : Call) (h : r.Indexed) :
    (call.leaves r).model = edited call.edit r.model ∧ (call.leaves r).Indexed := by
  have hperform := call.perform_follows r h
  unfold leaves edited
  cases hr : call.perform r with
  | ok a u =>
    rw [hr] at hperform
    rw [hperform.1]
    exact ⟨rfl, hperform.2⟩
  | error e u =>
    rw [hr] at hperform
    rw [hperform.1]
    exact ⟨rfl, hperform.2⟩

theorem run_follows (calls : List Call) (h : r.Indexed) :
    (run calls r).model = calls.foldl (fun m call => edited call.edit m) r.model ∧
      (run calls r).Indexed := by
  induction calls generalizing r with
  | nil => exact ⟨rfl, h⟩
  | cons call calls ih =>
    obtain ⟨hmodel, hindexed⟩ := call.leaves_follows h
    obtain ⟨hrest, hlast⟩ := ih hindexed
    refine ⟨?_, hlast⟩
    rw [List.foldl_cons, ← hmodel]
    exact hrest

theorem Call.makes_edit (call : Call) : Makes call.edit := by
  cases call with
  | feature name => exact makes_addFeature name
  | features names => exact makes_addFeatures names
  | relationship kind left right => exact Ensures.discard (makes_addRelationship kind left right)
  | constraint kind left right => exact Ensures.discard (makes_addConstraint kind left right)

theorem made_foldl_edited (calls : List Call) {m : FeatureModel} (h : m.Made) :
    (calls.foldl (fun m call => edited call.edit m) m).Made := by
  induction calls generalizing m with
  | nil => exact h
  | cons call calls ih => exact ih (call.makes_edit.made h)

/-! ### Calls that fail -/

theorem addFeature_eq_error {name : Value} {e : Failure} (h : addFeature name r = .error e r') :
    r' = r := by
  rw [addFeature_eq] at h
  split at h
  · cases h
    rfl
  · split at h <;> cases h
    rfl

theorem readName_eq_ok {name : Value} {s : String} (h : readName name = .ok s) : name = .text s := by
  unfold readName at h
  split at h
  · cases h
  · split at h
    · split at h <;> cases h
      rfl
    · cases h

theorem addFeature_eq_ok {name : Value} (h : addFeature name r = .ok () r') : ∃ s, name = .text s ∧
    r'.model = { r.model with features := r.model.features ++ [⟨s, []⟩] } := by
  rw [addFeature_eq] at h
  split at h
  · cases h
  · next s hread =>
    split at h <;> cases h
    exact ⟨s, readName_eq_ok hread, rfl⟩

theorem add_eq_error {acrossTree : Bool} {kind : Relationship.Kind} {left right : Value} {e : Failure}
    (h : add acrossTree kind left right r = .error e r') : r' = r := by
  rw [add_eq] at h
  split at h <;> cases h
  rfl

theorem forM_addFeature_eq_ok {items : List Value} (h : items.forM addFeature r = .ok () r') :
    ∃ added : List String, items = added.map .text ∧ r' = run (added.map fun s => .feature (.text s)) r ∧
      r'.model = { r.model with features := r.model.features ++ added.map fun s => ⟨s, []⟩ } := by
  induction items generalizing r with
  | nil =>
    cases h
    refine ⟨[], rfl, rfl, ?_⟩
    rw [List.map_nil, List.append_nil]
  | cons name items ih =>
    have hsteps : (addFeature name >>= fun _ => items.forM addFeature) r = .ok () r' := h
    obtain ⟨_, u, hu, hrest⟩ := Ensures.exists_of_bind_eq_ok hsteps
    obtain ⟨s, rfl, hmodel⟩ := addFeature_eq_ok hu
    obtain ⟨added, rfl, hrun, hlast⟩ := ih hrest
    refine ⟨s :: added, rfl, ?_, ?_⟩
    · have hperform : (Call.feature (.text s)).perform r = .ok () u := hu
      have hleaves : (Call.feature (.text s)).leaves r = u := by
        unfold Call.leaves
        rw [hperform]
      rw [List.map_cons, run, List.foldl_cons, hleaves]
      exact hrun
    · rw [hlast, hmodel, List.map_cons, List.append_assoc, List.singleton_append]

/-- Of several features, those in front of the first one that fails are added. -/
theorem addFeatures_eq_error {names : Value} {e : Failure} (h : addFeatures names r = .error e r') :
    (names.items? = none ∧ r' = r) ∨ ∃ (before : List String) (name : Value) (after : List Value),
      names.items? = some (before.map .text ++ name :: after) ∧ addFeature name r' = .error e r' ∧
      r' = run (before.map fun s => .feature (.text s)) r ∧
      r'.model = { r.model with features := r.model.features ++ before.map fun s => ⟨s, []⟩ } := by
  unfold addFeatures at h
  cases hitems : names.items? with
  | none =>
    rw [hitems] at h
    cases h
    exact .inl ⟨rfl, rfl⟩
  | some items =>
    rw [hitems] at h
    obtain ⟨before, name, after, u, rfl, hbefore, hname⟩ := Ensures.forM_eq_error h
    obtain rfl := addFeature_eq_error hname
    obtain ⟨added, rfl, hrun, hmodel⟩ := forM_addFeature_eq_ok hbefore
    exact .inr ⟨added, name, after, rfl, hname, hrun, hmodel⟩

/-! ### Every point of every history -/

theorem discard_eq_error {work : Registering α} {e : Failure} (h : discard work r = .error e r') :
    work r = .error e r' := by
  have hdiscard : discard work r = (work >>= fun _ => pure PUnit.unit) r := rfl
  rw [hdiscard] at h
  cases hr : work r with
  | ok a u =>
    rw [bind_eq_of_ok hr] at h
    cases h
  | error e' u =>
    rw [bind_eq_of_error hr] at h
    cases h
    rfl

/-- **Every model is sound, and calls that fail leave it alone.** After any calls with any arguments,
whichever of them failed, the names of the features are distinct and not blank, the index finds for every
name the feature of the list that has it and nothing else, the relationships stand where they belong and
those that are no groups have one feature on the right; and the model is what the same calls make without
an index. A further call that fails does so in the same way without an index, and leaves everything as it
was. Only if several features are added, then those in front of the first name that fails stay, as if they
had been added one by one. -/
theorem run_sound (title : Value) (calls : List Call) :
    (run calls (.empty title)).Sound ∧
    (run calls (.empty title)).model =
      calls.foldl (fun m call => edited call.edit m) (.empty title) ∧
    (∀ name, (run calls (.empty title)).feature? name =
      (run calls (.empty title)).model.feature? name) ∧
    ∀ (call : Call) (e : Failure) (r : Register),
      call.perform (run calls (.empty title)) = .error e r →
      call.edit (run calls (.empty title)).model = .error e r.model ∧
      match call with
      | .features names => (names.items? = none ∧ r = run calls (.empty title)) ∨
        ∃ (before : List String) (name : Value) (after : List Value),
          names.items? = some (before.map .text ++ name :: after) ∧ addFeature name r = .error e r ∧
          r = run (calls ++ before.map fun s => .feature (.text s)) (.empty title) ∧
          r.model.features =
            (run calls (.empty title)).model.features ++ before.map fun s => ⟨s, []⟩
      | _ => r = run calls (.empty title) := by
  obtain ⟨hmodel, hindexed⟩ := run_follows calls (.empty title)
  have hmade : (run calls (.empty title)).model.Made := hmodel ▸ made_foldl_edited calls (.empty title)
  have harranged := hmade.arranged
  refine ⟨⟨hindexed.names_nodup, hmade.not_blank, fun name f => hindexed.feature?_eq_some_iff,
    harranged.structural, harranged.crossTree, harranged.arity⟩, hmodel, hindexed.feature?_eq, ?_⟩
  intro call e r h
  have hfollows := call.perform_follows _ hindexed
  rw [h] at hfollows
  refine ⟨hfollows.1, ?_⟩
  cases call with
  | feature name => exact addFeature_eq_error h
  | features names =>
    refine (addFeatures_eq_error h).imp id ?_
    rintro ⟨before, name, after, hitems, hname, hrun, hfeatures⟩
    refine ⟨before, name, after, hitems, hname, ?_, congrArg FeatureModel.features hfeatures⟩
    rw [hrun, run, run, run, List.foldl_append]
  | relationship kind left right => exact add_eq_error (discard_eq_error h)
  | constraint kind left right => exact add_eq_error (discard_eq_error h)

/-- A name that is a number, a relationship with two features on the right and a name that is repeated
fail; of the names that come with it, the one in front stays. -/
example : (run [.features (.list [.text "Root", .text "A"]), .feature (.int 7),
    .relationship .mandatory (.text "Root") (.list [.text "A", .text "Root"]),
    .features (.list [.text "B", .text "A", .text "C"])] (.empty .null)).model.names =
      ["Root", "A", "B"] := by
  decide

end Register
end ProductLine

import ProductLine.Proofs.FeatureModel.Made
import ProductLine.Relationship.Reading

/-! # Writing a model and reading it again

A model file may give kinds in letters of any case, right sides in several forms and no name. What is
written is the canonical form: reading it again gives a model that is written in the same way and
differs from the first one in nothing but the keys of its relationships (`ofValue_toValue`). -/

namespace ProductLine
namespace FeatureModel

open Outcome

variable {m n : FeatureModel}

/-! ### Names -/

/-- A written name is the name of whatever model has it for a title and the same features. -/
theorem name_eq_of_title (htitle : n.title = m.name) (hnames : n.names = m.names) :
    n.name = m.name := by
  have hhead : ∀ k : FeatureModel, k.features.head?.elim "" (·.name) = k.names.head?.elim "" id :=
    fun k => by rw [names, List.head?_map, Option.elim_map, Function.id_comp]
  have hn : n.name = if m.name.given then m.name else .text (m.names.head?.elim "" id) := by
    rw [name, htitle, hhead, hnames]
  rw [hn]
  split
  · rfl
  · next hgiven =>
    -- only a name that is not the title can count as not given
    unfold name at hgiven ⊢
    split
    · next htitle => exact absurd (if_pos htitle ▸ htitle) hgiven
    · rw [hhead]

/-! ### Features -/

theorem given_of_not_blank {s : String} (h : ¬Text.Blank s) : (Value.text s).given = true := by
  rw [Value.given, Bool.not_eq_true', Bool.eq_false_iff]
  intro hempty
  rw [String.isEmpty_iff] at hempty
  exact h (hempty ▸ Text.blank_empty)

theorem addFeature_eq_ok {s : String} (hblank : ¬Text.Blank s) (hnew : s ∉ m.names) :
    addFeature (.text s) m = .ok () { m with features := m.features ++ [⟨s, []⟩] } := by
  have hnone : ¬(m.feature? s).isSome = true := fun h => hnew (feature?_isSome_iff.mp h)
  unfold addFeature withFeature
  rw [given_of_not_blank hblank]
  simp only [Bool.not_true, Bool.false_eq_true, if_false, if_neg hblank, if_neg hnone]

theorem forM_addFeature {added : List String} (hblank : ∀ s ∈ added, ¬Text.Blank s)
    (hnodup : (m.names ++ added).Nodup) : (added.map Value.text).forM addFeature m =
      .ok () { m with features := m.features ++ added.map fun s => ⟨s, []⟩ } := by
  induction added generalizing m with
  | nil =>
    have hnone : ({ m with features := m.features ++ ([] : List String).map fun s => ⟨s, []⟩ } :
        FeatureModel) = m := by
      rw [List.map_nil, List.append_nil]
    exact congrArg (EStateM.Result.ok ()) hnone.symm
  | cons s added ih =>
    rw [List.forall_mem_cons] at hblank
    have hnew : s ∉ m.names := fun hs =>
      List.disjoint_of_nodup_append hnodup hs List.mem_cons_self
    have hrest : (({ m with features := m.features ++ [⟨s, []⟩] } : FeatureModel).names ++
        added).Nodup := by
      rw [names, List.map_append, List.append_assoc]
      exact hnodup
    refine (bind_eq_of_ok (addFeature_eq_ok hblank.1 hnew)).trans ((ih hblank.2 hrest).trans ?_)
    rw [List.map_cons, List.append_assoc, List.singleton_append]

/-! ### Relationships -/

/-- The two ways of adding a relationship, by the side where it goes. -/
def adding (acrossTree : Bool) : Relationship.Kind → Value → Value → Edit Relationship :=
  if acrossTree then addConstraint else addRelationship

/-- The model with more relationships at the end of one of its sides. -/
def joined (acrossTree : Bool) (rs : List Relationship) (m : FeatureModel) : FeatureModel :=
  if acrossTree then { m with crossTree := m.crossTree ++ rs }
  else { m with structural := m.structural ++ rs }

theorem joined_joined (acrossTree : Bool) (rs rs' : List Relationship) (m : FeatureModel) :
    joined acrossTree rs' (joined acrossTree rs m) = joined acrossTree (rs ++ rs') m := by
  unfold joined
  split <;> rw [List.append_assoc]

theorem adding_eq_ok {acrossTree : Bool} {r : Relationship} (hside : r.kind.isCrossTree = acrossTree)
    (harity : r.kind.isGroup = false → r.right.length = 1) (m : FeatureModel) :
    ∃ r', adding acrossTree r.kind r.left (.list r.right) m = .ok r' (joined acrossTree [r'] m) ∧
      r.Twin r' := by
  have hsuits : (r.kind.isGroup || decide (r.right.length = 1)) = true := by
    cases hgroup : r.kind.isGroup with
    | true => rfl
    | false => exact decide_eq_true (harity hgroup)
  have hnew : m.newRelationship r.kind r.left (.list r.right) =
      .ok ⟨some m.relationships.length, r.kind, r.left, r.right⟩ := by
    show (if (r.kind.isGroup || decide (r.right.length = 1)) = true then _ else _) = _
    rw [if_pos hsuits]
    rfl
  refine ⟨⟨some m.relationships.length, r.kind, r.left, r.right⟩, ?_, ⟨rfl, rfl, rfl⟩⟩
  cases acrossTree with
  | true => simp [adding, addConstraint, joined, hside, hnew]
  | false => simp [adding, addRelationship, joined, hside, hnew]

theorem addEntry_relationshipValue
    (add : Relationship.Kind → Value → Value → Edit Relationship) (r : Relationship) :
    addEntry add (relationshipValue r) = discard (add r.kind r.left (.list r.right)) := by
  have hname : Relationship.Kind.ofName? (String.ofList (r.kind.name.toList.map Char.toLower)) =
      some r.kind := by
    cases r.kind <;> decide
  have hmember : ((Value.member? "type" [("type", .text r.kind.name), ("left", r.left),
      ("right", .list r.right)]).bind fun v =>
        Relationship.Kind.ofName? (String.ofList (v.display.toList.map Char.toLower))) = some r.kind := by
    show Relationship.Kind.ofName? _ = _
    rw [Value.display_text, hname]
  have hkind : kindOf (relationshipValue r)
      [("type", .text r.kind.name), ("left", r.left), ("right", .list r.right)] = .ok r.kind := by
    unfold kindOf
    rw [hmember]
  show (MonadExcept.ofExcept (kindOf _ _) >>= fun kind => _) = _
  rw [hkind]
  rfl

theorem forM_addEntry {acrossTree : Bool} {rs : List Relationship}
    (hside : ∀ r ∈ rs, r.kind.isCrossTree = acrossTree)
    (harity : ∀ r ∈ rs, r.kind.isGroup = false → r.right.length = 1) (m : FeatureModel) :
    ∃ rs', (rs.map relationshipValue).forM (addEntry (adding acrossTree)) m =
      .ok () (joined acrossTree rs' m) ∧ List.Forall₂ Relationship.Twin rs rs' := by
  induction rs generalizing m with
  | nil =>
    refine ⟨[], ?_, .nil⟩
    unfold joined
    rw [List.append_nil, List.append_nil]
    split <;> rfl
  | cons r rs ih =>
    rw [List.forall_mem_cons] at hside harity
    obtain ⟨r', hr', htwin⟩ := adding_eq_ok hside.1 harity.1 m
    obtain ⟨rs', hrs', htwins⟩ := ih hside.2 harity.2 (joined acrossTree [r'] m)
    refine ⟨r' :: rs', ?_, .cons htwin htwins⟩
    have hentry : addEntry (adding acrossTree) (relationshipValue r) m =
        .ok () (joined acrossTree [r'] m) := by
      rw [addEntry_relationshipValue]
      exact bind_eq_of_ok hr'
    refine (bind_eq_of_ok hentry).trans (hrs'.trans ?_)
    rw [joined_joined, List.singleton_append]

theorem relationshipValue_eq {r r' : Relationship} (h : r.Twin r') :
    relationshipValue r = relationshipValue r' := by
  rw [relationshipValue, relationshipValue, h.kind, h.left, h.right]

theorem map_relationshipValue_eq {rs rs' : List Relationship}
    (h : List.Forall₂ Relationship.Twin rs rs') :
    rs.map relationshipValue = rs'.map relationshipValue := by
  induction h with
  | nil => rfl
  | cons h _ ih => rw [List.map_cons, List.map_cons, relationshipValue_eq h, ih]

/-! ### Models -/

theorem ofValue_object {members : List (String × Value)}
    (h : addMembers members (empty ((Value.member? "name" members).getD .null)) = .ok () m) :
    ofValue (.object members) = .ok m := by
  unfold ofValue
  dsimp only
  rw [h]

/-- Reading what was written of a model adds its features and its relationships again. -/
theorem ofValue_toValue_eq (h : m.Made) : ∃ structural crossTree,
    ofValue m.toValue = .ok ⟨m.name, m.names.map fun s => ⟨s, []⟩, structural, crossTree⟩ ∧
      List.Forall₂ Relationship.Twin m.structural structural ∧
      List.Forall₂ Relationship.Twin m.crossTree crossTree := by
  have harity := h.arranged.arity
  have hfeatures := forM_addFeature (m := .empty m.name) h.not_blank h.names_nodup
  obtain ⟨structural, hstructural, htwins⟩ := forM_addEntry h.arranged.structural
    (fun r hr => harity r (List.mem_append_left _ hr))
    { empty m.name with features := m.names.map fun s => ⟨s, []⟩ }
  obtain ⟨crossTree, hcrossTree, htwins'⟩ := forM_addEntry h.arranged.crossTree
    (fun r hr => harity r (List.mem_append_right _ hr))
    ⟨m.name, m.names.map fun s => ⟨s, []⟩, structural, []⟩
  refine ⟨structural, crossTree, ?_, htwins, htwins'⟩
  have hrun : addMembers [("name", m.name), ("features", .list (m.names.map .text)),
      ("relationships", .list (m.structural.map relationshipValue)),
      ("constraints", .list (m.crossTree.map relationshipValue))] (empty m.name) =
        .ok () ⟨m.name, m.names.map fun s => ⟨s, []⟩, structural, crossTree⟩ := by
    refine (bind_eq_of_ok hfeatures).trans ?_
    refine (bind_eq_of_ok hstructural).trans ?_
    exact hcrossTree
  exact ofValue_object hrun

/-- **A model that was read or made by adding can be written and read again**: the name, the names of
the features in order, and the kinds and both sides of all relationships in order stay the same, and the
second model is written as the first one was. -/
theorem ofValue_toValue (h : (∃ data, ofValue data = .ok m) ∨ m.Made) :
    ∃ n, ofValue m.toValue = .ok n ∧ n.name = m.name ∧ n.names = m.names ∧
      List.Forall₂ Relationship.Twin m.structural n.structural ∧
      List.Forall₂ Relationship.Twin m.crossTree n.crossTree ∧ n.toValue = m.toValue := by
  have hmade : m.Made := by
    rcases h with ⟨data, hdata⟩ | h
    · exact made_of_ofValue hdata
    · exact h
  obtain ⟨structural, crossTree, hread, htwins, htwins'⟩ := ofValue_toValue_eq hmade
  have hnames : (⟨m.name, m.names.map fun s => ⟨s, []⟩, structural, crossTree⟩ :
      FeatureModel).names = m.names := by
    unfold names
    rw [List.map_map]
    exact List.map_id' _
  refine ⟨_, hread, name_eq_of_title rfl hnames, hnames, htwins, htwins', ?_⟩
  rw [toValue, toValue, name_eq_of_title rfl hnames, hnames, map_relationshipValue_eq htwins,
    map_relationshipValue_eq htwins']

/-- A model file without a name, with kinds in letters of any case, right sides in all forms, and left
sides that are no texts. -/
def looseFile : Value := .object [
  ("name", .list []),
  ("features", .list [.text "Root", .text "A", .text "B"]),
  ("relationships", .list [
    .object [("type", .text "Mandatory"), ("left", .text "Root"), ("right", .text "A")],
    .object [("right", .object [("A", .null), ("B", .int 1)]), ("type", .text "OR"), ("left", .int 7)]]),
  ("constraints", .list [
    .object [("type", .text "excLUDES"), ("left", .null), ("right", .list [.list [.text "B"]])]])]

/-- The model of that file. -/
def loose : FeatureModel :=
  ⟨.list [], [⟨"Root", []⟩, ⟨"A", []⟩, ⟨"B", []⟩],
    [⟨some 0, .mandatory, .text "Root", [.text "A"]⟩, ⟨some 1, .or, .int 7, [.text "A", .text "B"]⟩],
    [⟨some 2, .excludes, .null, [.list [.text "B"]]⟩]⟩

theorem ofValue_looseFile : ofValue looseFile = .ok loose := by rfl

/-- The name that is written is that of the root, and it is the title of what is read. -/
theorem ofValue_toValue_loose : ofValue looseFile = .ok loose ∧
    ∃ n, ofValue loose.toValue = .ok n ∧ n.name = .text "Root" ∧ n.toValue = loose.toValue ∧
      loose.toValue = .object [
        ("name", .text "Root"),
        ("features", .list [.text "Root", .text "A", .text "B"]),
        ("relationships", .list [
          .object [("type", .text "mandatory"), ("left", .text "Root"), ("right", .list [.text "A"])],
          .object [("type", .text "or"), ("left", .int 7), ("right", .list [.text "A", .text "B"])]]),
        ("constraints", .list [
          .object [("type", .text "excludes"), ("left", .null),
            ("right", .list [.list [.text "B"]])]])] := by
  obtain ⟨n, hn, hname, -, -, -, hwritten⟩ := ofValue_toValue (.inl ⟨_, ofValue_looseFile⟩)
  exact ⟨ofValue_looseFile, n, hn, hname, hwritten, rfl⟩

end FeatureModel
end ProductLine

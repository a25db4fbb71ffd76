import ProductLine.Proofs.Anomaly.Explanations
import ProductLine.Proofs.Constraint.Translation
import ProductLine.Relationship.Reading

/-! # What rules identify

Two relationships of a model have the same rule exactly if they are of one kind and the names on both sides
can be read out of the one text in both ways (`rules_identify`). -/

namespace ProductLine

/-! ### Texts with separators in them -/

namespace Text

theorem splitOn_intercalate {mark : Char} {parts : List (List Char)} (hne : parts ≠ []) :
    (List.intercalate [mark] parts).splitOn mark = parts.flatMap (·.splitOn mark) := by
  induction parts with
  | nil => exact absurd rfl hne
  | cons part parts ih =>
    cases parts with
    | nil => rw [List.intercalate_singleton, List.flatMap_singleton]
    | cons next parts =>
      rw [List.intercalate_cons_cons, List.append_assoc, List.singleton_append,
        List.splitOn_append_cons_self, ih (List.cons_ne_nil _ _)]
      exact (List.flatMap_cons ..).symm

theorem intercalate_eq_iff {mark : Char} {parts parts' : List (List Char)} (hne : parts ≠ [])
    (hne' : parts' ≠ []) : List.intercalate [mark] parts = List.intercalate [mark] parts' ↔
      parts.flatMap (·.splitOn mark) = parts'.flatMap (·.splitOn mark) := by
  rw [← splitOn_intercalate hne, ← splitOn_intercalate hne']
  refine ⟨congrArg _, fun h => ?_⟩
  have hback := congrArg (List.intercalate [mark]) h
  rwa [List.intercalate_splitOn, List.intercalate_splitOn] at hback

section separator

variable {a b : Char} (hab : a ≠ b) {front back front' back' : List Char}
include hab

/-- In front of the separator that comes later stands nothing, or the separator that comes first. -/
theorem eq_of_cons_separator {more : List Char} (h : a :: b :: back = more ++ a :: b :: back') :
    (more = [] ∧ back = back') ∨ ∃ part, more = a :: b :: part ∧ back = part ++ a :: b :: back' := by
  cases more with
  | nil =>
    cases h
    exact .inl ⟨rfl, rfl⟩
  | cons c more =>
    cases more with
    | nil =>
      cases h
      exact absurd rfl hab
    | cons d part =>
      cases h
      exact .inr ⟨part, rfl, rfl⟩

/-- A text with a separator of two different characters in it is read in one way only, unless one reading
has its separator further behind than the other one. -/
theorem append_separator_eq_iff :
    front ++ a :: b :: back = front' ++ a :: b :: back' ↔
      (front = front' ∧ back = back') ∨
      (∃ part, front' = front ++ a :: b :: part ∧ back = part ++ a :: b :: back') ∨
      ∃ part, front = front' ++ a :: b :: part ∧ back' = part ++ a :: b :: back := by
  constructor
  · intro h
    rcases List.append_eq_append_iff.mp h with ⟨more, rfl, hmore⟩ | ⟨more, rfl, hmore⟩
    · rcases eq_of_cons_separator hab hmore with ⟨rfl, rfl⟩ | ⟨part, rfl, hback⟩
      · exact .inl ⟨(List.append_nil _).symm, rfl⟩
      · exact .inr (.inl ⟨part, rfl, hback⟩)
    · rcases eq_of_cons_separator hab hmore with ⟨rfl, rfl⟩ | ⟨part, rfl, hback⟩
      · exact .inl ⟨List.append_nil _, rfl⟩
      · exact .inr (.inr ⟨part, rfl, hback⟩)
  · rintro (⟨rfl, rfl⟩ | ⟨part, rfl, rfl⟩ | ⟨part, rfl, rfl⟩)
    · rfl
    · simp only [List.append_assoc, List.cons_append]
    · simp only [List.append_assoc, List.cons_append]

end separator
end Text

/-! ### Rules -/

namespace Relationship

open Outcome

variable {r r' : Relationship} {left left' : String} {right right' : List String}

theorem Kind.name_injective {k k' : Kind} (h : k.name = k'.name) : k = k' :=
  Option.some.inj ((ofName?_name k).symm.trans (h ▸ ofName?_name k'))

theorem Kind.paren_notMem (k : Kind) : '(' ∉ k.name.toList := by
  cases k <;> decide

/-- The relationship has names on both sides, and all of them are in its rule. -/
structure Spelled (r : Relationship) (left : String) (right : List String) : Prop where
  names : r.Names left right
  given : right ≠ []
  arity : r.kind.isGroup = false → right.length = 1

/-- The names of a rule, as they stand between its parentheses. -/
def sides (left : String) (right : List String) : String := left ++ ", " ++ ",".intercalate right

theorem Names.unique (h : r.Names left right) (h' : r.Names left' right') :
    left = left' ∧ right = right' :=
  ⟨Value.text.inj (h.left.symm.trans h'.left), List.map_injective_iff.mpr (fun _ _ => Value.text.inj)
    (h.right.symm.trans h'.right)⟩

theorem Plain.of_not_mem {kind : Kind} (hleft : ',' ∉ left.toList)
    (hright : ∀ name ∈ right, ',' ∉ name.toList) : Plain kind left right := by
  refine ⟨fun front back heq => hleft ?_, fun _ => hright⟩
  rw [heq, String.toList_append, String.toList_append]
  exact List.mem_append_left _ (List.mem_append_right _ List.mem_cons_self)

theorem Spelled.rule_eq (h : r.Spelled left right) :
    r.rule = .ok (r.kind.name ++ ("(" ++ (sides left right ++ ")"))) := by
  have htext : r.rule = .ok (r.kind.name ++ "(" ++ left ++ ", " ++ ",".intercalate right ++ ")") := by
    unfold rule
    cases hkind : r.kind.isGroup with
    | true =>
      have hnames : r.right.mapM textOf = .ok right := by
        rw [h.names.right, mapM_eq_ok_iff, List.forall₂_map_left_iff, List.forall₂_same]
        exact fun _ _ => rfl
      rw [if_pos rfl, hnames, h.names.left]
      rfl
    | false =>
      obtain ⟨name, rfl⟩ := List.length_eq_one_iff.mp (h.arity hkind)
      rw [if_neg Bool.false_ne_true, h.names.right, h.names.left]
      rfl
  rw [htext]
  simp only [sides, String.append_assoc]

theorem toList_sides : (sides left right).toList =
    left.toList ++ ',' :: ' ' :: List.intercalate [','] (right.map String.toList) := by
  unfold sides
  rw [String.toList_append, String.toList_append, String.toList_intercalate, List.append_assoc]
  rfl

theorem toList_paren : "(".toList = ['('] := rfl

/-- Kinds have no parenthesis in their names, so that it ends them. -/
theorem rule_text_eq_iff {k k' : Kind} {body body' : String} :
    k.name ++ ("(" ++ (body ++ ")")) = k'.name ++ ("(" ++ (body' ++ ")")) ↔ k = k' ∧ body = body' := by
  constructor
  · intro h
    have hcut := congrArg (fun text : String => text.toList.splitOn '(') h
    simp only [String.toList_append, toList_paren, List.singleton_append] at hcut
    rw [List.splitOn_append_cons_self_of_not_mem k.paren_notMem,
      List.splitOn_append_cons_self_of_not_mem k'.paren_notMem] at hcut
    obtain rfl := Kind.name_injective (String.toList_inj.mp (List.cons.inj hcut).1)
    rw [String.append_right_inj, String.append_right_inj, String.append_left_inj] at h
    exact ⟨rfl, h⟩
  · rintro ⟨rfl, rfl⟩
    rfl

theorem overlaps_iff : Overlaps left right left' right' ↔
    ∃ part, left'.toList = left.toList ++ ',' :: ' ' :: part ∧
      List.intercalate [','] (right.map String.toList) =
        part ++ ',' :: ' ' :: List.intercalate [','] (right'.map String.toList) := by
  have hjoin : ∀ names : List String,
      List.intercalate [','] (names.map String.toList) = (",".intercalate names).toList :=
    fun names => (String.toList_intercalate (s := ",")).symm
  rw [hjoin, hjoin]
  constructor
  · rintro ⟨part, rfl, hright⟩
    rw [hright]
    exact ⟨part.toList, by simp, by simp⟩
  · rintro ⟨part, hleft, hright⟩
    refine ⟨String.ofList part, String.toList_inj.mp ?_, String.toList_inj.mp ?_⟩
    · rw [hleft]
      simp
    · rw [hright]
      simp

theorem sides_eq_iff (hne : right ≠ []) (hne' : right' ≠ []) : sides left right = sides left' right' ↔
    (left = left' ∧ pieces right = pieces right') ∨ Overlaps left right left' right' ∨
      Overlaps left' right' left right := by
  have hpieces : ∀ names : List String,
      pieces names = (names.map String.toList).flatMap (·.splitOn ',') := fun names =>
    (List.flatMap_map ..).symm
  rw [← String.toList_inj, toList_sides, toList_sides, Text.append_separator_eq_iff (by decide),
    String.toList_inj, overlaps_iff, overlaps_iff, hpieces, hpieces,
    Text.intercalate_eq_iff (List.map_eq_nil_iff.not.mpr hne) (List.map_eq_nil_iff.not.mpr hne')]

/-- Rules are the same exactly if the kinds are and the names on the sides can be read in both ways. -/
theorem Spelled.rule_eq_rule_iff (h : r.Spelled left right) (h' : r'.Spelled left' right') :
    r.rule = r'.rule ↔ r.kind = r'.kind ∧
      ((left = left' ∧ pieces right = pieces right') ∨ Overlaps left right left' right' ∨
        Overlaps left' right' left right) := by
  rw [h.rule_eq, h'.rule_eq, Except.ok.injEq, rule_text_eq_iff, sides_eq_iff h.given h'.given]

theorem pieces_eq_map {names : List String} (h : ∀ name ∈ names, ',' ∉ name.toList) :
    pieces names = names.map String.toList := by
  unfold pieces
  rw [List.flatMap_congr fun name hname => List.splitOn_eq_singleton (h name hname)]
  exact List.map_eq_flatMap.symm

/-- Between plain names a rule is read in one way only. -/
theorem Spelled.twin (h : r.Spelled left right) (h' : r'.Spelled left' right')
    (hplain : Plain r.kind left right) (hplain' : Plain r'.kind left' right')
    (heq : r.rule = r'.rule) : r.Twin r' := by
  obtain ⟨hkind, ⟨rfl, hpieces⟩ | ⟨part, hleft, -⟩ | ⟨part, hleft, -⟩⟩ := (h.rule_eq_rule_iff h').mp heq
  · refine ⟨hkind, h.names.left.trans h'.names.left.symm, ?_⟩
    rw [h.names.right, h'.names.right]
    refine congrArg _ ?_
    cases hgroup : r.kind.isGroup with
    | true =>
      rw [pieces_eq_map (hplain.right hgroup), pieces_eq_map (hplain'.right (hkind ▸ hgroup))] at hpieces
      exact List.map_injective_iff.mpr (fun _ _ => String.toList_inj.mp) hpieces
    | false =>
      obtain ⟨name, rfl⟩ := List.length_eq_one_iff.mp (h.arity hgroup)
      obtain ⟨name', rfl⟩ := List.length_eq_one_iff.mp (h'.arity (hkind ▸ hgroup))
      have hpieces : [name.toList].flatMap (·.splitOn ',') = [name'.toList].flatMap (·.splitOn ',') :=
        hpieces
      rw [← Text.intercalate_eq_iff (List.cons_ne_nil _ _) (List.cons_ne_nil _ _),
        List.intercalate_singleton, List.intercalate_singleton, String.toList_inj] at hpieces
      rw [hpieces]
  · exact absurd hleft (hplain'.left left part)
  · exact absurd hleft (hplain.left left' part)

end Relationship

namespace Store

open Constraint Diagnosis Relationship

open FeatureModel (echoed made_echoed)

variable {m : FeatureModel} {s : Store} {o : FeatureOrder}

section store

variable (hm : m.Arranged) (hs : ofModel m o = .ok s) {r : Relationship} (hr : r ∈ m.relationships)
include hm hs hr

theorem spelled_of_names {left : String} {right : List String} (hnames : r.Names left right) :
    r.Spelled left right := by
  have hform := ((ofModel_judged hm (textual_of_attempt hm hs) o).ok_iff.mp ⟨s, hs⟩).relationships r hr
  have harity : r.kind.isGroup = false → right.length = 1 := by
    intro hkind
    rw [← hm.arity r hr hkind, hnames.right, List.length_map]
  refine ⟨hnames, ?_, harity⟩
  cases hkind : r.kind.isGroup with
  | true => exact fun hnil => hform.group hkind (hnames.right.trans (congrArg _ hnil))
  | false => exact List.ne_nil_of_length_eq_add_one (harity hkind)

theorem names_of_ofModel : ∃ left right, r.Names left right := by
  obtain ⟨⟨left, hleft⟩, right, hright⟩ := textual_of_attempt hm hs r hr
  exact ⟨left, right, hleft, hright⟩

end store

theorem mem_relationships_of_source (hs : ofModel m o = .ok s) {c : Constraint} (hc : c ∈ s.cf) :
    ∃ r ∈ m.relationships, c.source = some r := by
  obtain ⟨r, hr, hsource, -⟩ := (faithful_of_attempt hs).1.sound c hc
  exact ⟨r, hr, hsource⟩

/-- **What rules identify.** In a model that has a store all relationships have names on both sides, and
two rules are the same exactly if the kinds are and the names can be read in both ways. So they identify
relationships whose names are plain, and of these an explanation that is part of another one names only
what the other one names as well. -/
theorem rules_identify (hm : m.Made) (hs : ofModel m o = .ok s) :
    (∀ r ∈ m.relationships, ∃ left right, r.Names left right) ∧
    (∀ r ∈ m.relationships, ∀ r' ∈ m.relationships, ∀ left right left' right',
      r.Names left right → r'.Names left' right' →
      (r.rule = r'.rule ↔ r.kind = r'.kind ∧
        ((left = left' ∧ pieces right = pieces right') ∨ Overlaps left right left' right' ∨
          Overlaps left' right' left right))) ∧
    ((∀ r ∈ m.relationships, ∀ left right, r.Names left right → Plain r.kind left right) →
      (∀ r ∈ m.relationships, ∀ r' ∈ m.relationships, r.rule = r'.rule → r.Twin r') ∧
      ∀ diagnosis ⊆ s.cf, ∀ diagnosis' ⊆ s.cf, ∀ rules rules', explain diagnosis = .ok rules →
        explain diagnosis' = .ok rules' → rules ⊆ rules' →
        ∀ r, Blames diagnosis r → ∃ r', Blames diagnosis' r' ∧ r.Twin r') := by
  have hspelled : ∀ r ∈ m.relationships, ∀ left right, r.Names left right → r.Spelled left right :=
    fun r hr left right => spelled_of_names hm.arranged hs hr
  refine ⟨fun r hr => names_of_ofModel hm.arranged hs hr, ?_, fun hplain => ?_⟩
  · intro r hr r' hr' left right left' right' hnames hnames'
    exact (hspelled r hr left right hnames).rule_eq_rule_iff (hspelled r' hr' left' right' hnames')
  · have htwin : ∀ r ∈ m.relationships, ∀ r' ∈ m.relationships, r.rule = r'.rule → r.Twin r' := by
      intro r hr r' hr'
      obtain ⟨left, right, hnames⟩ := names_of_ofModel hm.arranged hs hr
      obtain ⟨left', right', hnames'⟩ := names_of_ofModel hm.arranged hs hr'
      exact (hspelled r hr left right hnames).twin (hspelled r' hr' left' right' hnames')
        (hplain r hr left right hnames) (hplain r' hr' left' right' hnames')
    refine ⟨htwin, ?_⟩
    intro diagnosis hsub diagnosis' hsub' rules rules' hrules hrules' hpart r hr
    obtain ⟨rule, hrule, hown⟩ := Anomaly.named_of_explain hrules hr
    obtain ⟨c', hc', hrule'⟩ := (Anomaly.mem_explain_iff hrules').mp (hpart hrule)
    obtain ⟨r', hr', hsource'⟩ := mem_relationships_of_source hs (hsub' hc')
    obtain ⟨_, heq, hown'⟩ := Anomaly.rule_of_source hrule' hsource'
    cases heq
    obtain ⟨c, hc, hsource⟩ := hr
    obtain ⟨r₀, hr₀, hsource₀⟩ := mem_relationships_of_source hs (hsub hc)
    cases hsource.symm.trans hsource₀
    exact ⟨r', ⟨c', hc', hsource'⟩, htwin r hr₀ r' hr' (hown.trans hown'.symm)⟩

open FeatureModel in
/-- Adds features with commas in their names, and constraints by which the root leads from one to the next
and excludes the last one. -/
def merge : Edit Unit := do
  addFeatures (.list [.text "Root", .text "B, C", .text "Root, B", .text "C"])
  discard (addConstraint .requires (.text "Root") (.text "B, C"))
  discard (addConstraint .requires (.text "B, C") (.text "Root, B"))
  discard (addConstraint .requires (.text "Root, B") (.text "C"))
  discard (addConstraint .excludes (.text "Root") (.text "C"))

/-- A void model in which the first constraint has the rule of the third one. -/
def merged : FeatureModel := .edited merge (.empty .null)

theorem made_merged : merged.Made := by
  have hmakes : FeatureModel.Makes merge := by
    unfold merge
    apply Ensures.bind (FeatureModel.makes_addFeatures _)
    intro _
    iterate 3
      apply Ensures.bind (Ensures.discard (FeatureModel.makes_addConstraint _ _ _))
      intro _
    exact Ensures.discard (FeatureModel.makes_addConstraint _ _ _)
  exact hmakes.made (.empty _)

/-- The first and the third constraint of the model. -/
def merging : Relationship := ⟨some 0, .requires, .text "Root", [.text "B, C"]⟩

@[inherit_doc merging] def confused : Relationship := ⟨some 2, .requires, .text "Root, B", [.text "C"]⟩

theorem plain_echoed : ∀ r ∈ echoed.relationships, ∀ left right, r.Names left right →
    Plain r.kind left right := by
  have hgroup : ∀ key left right, Names ⟨key, .alternative, .text "Root", [.text "A", .text "B"]⟩
      left right → Plain .alternative left right := by
    intro key left right hnames
    have hown : Names ⟨key, .alternative, .text "Root", [.text "A", .text "B"]⟩ "Root" ["A", "B"] :=
      ⟨rfl, rfl⟩
    obtain ⟨rfl, rfl⟩ := hown.unique hnames
    exact .of_not_mem (by decide) (by decide)
  have hpair : ∀ key left right, Names ⟨key, .excludes, .text "A", [.text "B"]⟩ left right →
      Plain .excludes left right := by
    intro key left right hnames
    have hown : Names ⟨key, .excludes, .text "A", [.text "B"]⟩ "A" ["B"] := ⟨rfl, rfl⟩
    obtain ⟨rfl, rfl⟩ := hown.unique hnames
    exact .of_not_mem (by decide) (by decide)
  exact List.forall_mem_cons.mpr ⟨hgroup _, List.forall_mem_cons.mpr ⟨hgroup _,
    List.forall_mem_cons.mpr ⟨hpair _, List.forall_mem_singleton.mpr (hpair _)⟩⟩⟩

/-- The one of two constraints that say the same. -/
def repeated : Relationship := ⟨some 2, .excludes, .text "A", [.text "B"]⟩

/-- What is left of the separator in the one rule overlaps what is right of it in the other one. Where
names are plain, what one explanation names is named by another one with its rules, if only by a
constraint that says the same. -/
theorem rules_identify_merged :
    (merged.Made ∧ ∃ s, ofModel merged .declared = .ok s ∧
      merging ∈ merged.relationships ∧ confused ∈ merged.relationships ∧
        merging.rule = confused.rule) ∧
    echoed.Made ∧ ∃ s c d d', ofModel echoed .declared = .ok s ∧ [c] ⊆ s.cf ∧ [d, d'] ⊆ s.cf ∧
      explain [c] = .ok ["excludes(A, B)"] ∧
      explain [d, d'] = .ok ["alternative(Root, A,B)", "excludes(A, B)"] ∧
      Blames [c] repeated ∧ ¬Blames [d, d'] repeated ∧ ∃ r, Blames [d, d'] r ∧ repeated.Twin r := by
  refine ⟨?_, made_echoed, ?_⟩
  · obtain ⟨s, hs⟩ : ∃ s, ofModel merged .declared = .ok s := ⟨_, rfl⟩
    have hmem : merging ∈ merged.relationships := List.mem_cons_self
    have hmem' : confused ∈ merged.relationships :=
      List.mem_cons_of_mem _ (List.mem_cons_of_mem _ List.mem_cons_self)
    have hiff := (rules_identify made_merged hs).2.1 merging hmem confused hmem' "Root" ["B, C"]
      "Root, B" ["C"] ⟨rfl, rfl⟩ ⟨rfl, rfl⟩
    exact ⟨made_merged, s, hs, hmem, hmem',
      hiff.mpr ⟨rfl, .inr (.inl ⟨"B", by decide, by decide⟩)⟩⟩
  · obtain ⟨s, c, d, d', hs, hc, hd, hd', hrules, hrules', hsource, hsource', hsource''⟩ :
        ∃ s c d d', ofModel echoed .declared = .ok s ∧ s.cf[4]? = some c ∧ s.cf[0]? = some d ∧
          s.cf[5]? = some d' ∧ explain [c] = .ok ["excludes(A, B)"] ∧
          explain [d, d'] = .ok ["alternative(Root, A,B)", "excludes(A, B)"] ∧
          c.source = some repeated ∧ d.source.map (·.key) = some (some 0) ∧
          d'.source.map (·.key) = some (some 3) :=
      ⟨_, _, _, _, rfl, rfl, rfl, rfl, rfl, rfl, rfl, rfl, rfl⟩
    have hone : [c] ⊆ s.cf := List.cons_subset.mpr ⟨List.mem_of_getElem? hc, List.nil_subset _⟩
    have hboth : [d, d'] ⊆ s.cf := List.cons_subset.mpr ⟨List.mem_of_getElem? hd,
      List.cons_subset.mpr ⟨List.mem_of_getElem? hd', List.nil_subset _⟩⟩
    have hblames : Blames [c] repeated := ⟨c, List.mem_singleton_self c, hsource⟩
    have hnot : ¬Blames [d, d'] repeated := by
      rintro ⟨b, hb, hblamed⟩
      rcases List.mem_pair.mp hb with rfl | rfl
      · rw [hblamed] at hsource'
        cases hsource'
      · rw [hblamed] at hsource''
        cases hsource''
    refine ⟨s, c, d, d', hs, hone, hboth, hrules, hrules', hblames, hnot, ?_⟩
    exact ((rules_identify made_echoed hs).2.2 plain_echoed).2 [c] hone [d, d'] hboth _ _ hrules hrules'
      (List.subset_cons_self _ _) repeated hblames

/-- A rule does not identify a relationship: the explanation by the one constraint is that by the other,
and an explanation by both has one rule only. -/
theorem rule_not_identifying : merged.Made ∧ ∃ s c c', ofModel merged .declared = .ok s ∧
    c ∈ s.cf ∧ c' ∈ s.cf ∧ c.source = some merging ∧ c'.source = some confused ∧
      merging.rule = confused.rule ∧ merging.left ≠ confused.left ∧ merging.right ≠ confused.right ∧
      explain [c] = explain [c'] ∧ explain [c, c'] = explain [c] := by
  refine ⟨made_merged, _, _, _, rfl, List.mem_cons_self,
    List.mem_cons_of_mem _ (List.mem_cons_of_mem _ List.mem_cons_self), rfl, rfl, rfl, ?_, ?_, rfl, rfl⟩
  · intro h
    exact absurd (Value.text.inj h) (by decide)
  · intro h
    exact absurd (Value.text.inj (List.cons.inj h).1) (by decide)

end Store
end ProductLine

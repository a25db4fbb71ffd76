import ProductLine.Proofs.Constraint.Encoding
import ProductLine.Proofs.Constraint.Posting
import ProductLine.Proofs.FeatureModel.Order

/-! # What the store of a model says

A store is `Faithful` to a model if its constraints say together what the relationships of the model
mean. The store that `Store.attempt` makes is (`faithful_of_attempt`), and it is at its baseline. What
is done to a store later changes neither its constraints nor the numbers they have. -/

namespace ProductLine
namespace Store

open Constraint Encoding Formula Outcome

/-- The constraints say what the relationships of the model mean, each for itself. All numbers are
given out once. -/
structure Faithful (m : FeatureModel) (s : Store) : Prop where
  mem_vars : ∀ name, name ∈ s.vars ↔ name ∈ m.names
  sound : ∀ c ∈ s.cf, ∃ r ∈ m.relationships, c.source = some r ∧
    ∀ v, r.Holds v → c.formula.eval v = true
  single : ∀ c ∈ s.cf, ∃ r ∈ m.relationships, c.source = some r ∧
    (r.kind = .alternative ∧ 2 ≤ r.right.length ∨ ∀ v, c.formula.eval v = true ↔ r.Holds v)
  complete : ∀ r ∈ m.relationships, ∀ v,
    (∀ c ∈ s.cf, c.source = some r → c.formula.eval v = true) → r.Holds v
  rule : ∀ r ∈ m.relationships, ∃ rule, r.rule = .ok rule
  vars_subset : ∀ c ∈ s.cf, c.formula.vars ⊆ m.names
  root : ∃ f c, m.features.head? = some f ∧ s.root = some c ∧ c.formula = .var f.name ∧
    c.source = none
  crossTree : ∀ r ∈ m.crossTree, r.kind.isCrossTree = true ∧ ∃ a b rest, a ∈ m.names ∧
    b ∈ m.names ∧ r.left = .text a ∧ r.right = .text b :: rest
  ids_nodup : (ids s.ac).Nodup
  ids_lt : ∀ i ∈ ids s.ac, i < s.nextId

variable {m : FeatureModel} {s : Store}

/-- What is posted and which numbers are given out later does not matter. -/
theorem Faithful.numbered (h : Faithful m s) {n : Nat} (hn : s.nextId ≤ n) (p : Posting) :
    Faithful m { s with posting := p, nextId := n } :=
  ⟨h.mem_vars, h.sound, h.single, h.complete, h.rule, h.vars_subset, h.root, h.crossTree, h.ids_nodup,
    fun i hi => Int.lt_of_lt_of_le (h.ids_lt i hi) (Int.ofNat_le.mpr hn)⟩

/-- In which order the variables stand does not matter either. -/
theorem Faithful.reordered (h : Faithful m s) {vars : List String}
    (hvars : ∀ name, name ∈ vars ↔ name ∈ s.vars) : Faithful m { s with vars := vars } :=
  { h with mem_vars := fun name => (hvars name).trans (h.mem_vars name) }

/-! ### Numbers -/

/-- The constraints are numbered by their places. -/
def Numbered (cs : List Constraint) : Prop := ids cs = (List.range cs.length).map Nat.cast

theorem numbered_addAll {role : Constraint.Role} {r : Relationship} {made : List Constraint}
    (h : Numbered made) (fs : List (Formula String)) : Numbered (addAll role r made fs) := by
  unfold Numbered at h ⊢
  have hplaces : List.range fs.length = fs.zipIdx.map Prod.snd := by
    rw [List.zipIdx_map_snd, List.range_eq_range']
  unfold addAll
  rw [ids_append, h, List.length_append, List.range_add, List.map_append, List.length_map,
    List.length_zipIdx, hplaces, ids, List.map_map, List.map_map, List.map_map]
  rfl

theorem Numbered.nodup {cs : List Constraint} (h : Numbered cs) : (ids cs).Nodup := by
  rw [h]
  exact List.nodup_range.map fun _ _ => Int.ofNat.inj

theorem Numbered.lt {cs : List Constraint} (h : Numbered cs) {i : Int} (hi : i ∈ ids cs) :
    i < cs.length := by
  rw [h, List.mem_map] at hi
  obtain ⟨n, hn, rfl⟩ := hi
  exact Int.ofNat_lt.mpr (List.mem_range.mp hn)

/-! ### Making constraints -/

/-- The constraints are those of one relationship, one for each of its formulas and in their order. -/
structure Renders (role : Constraint.Role)
    (formulas : Relationship → Except Failure (List (Formula String))) (r : Relationship)
    (cs : List Constraint) : Prop where
  formulas : formulas r = .ok (Constraint.formulas cs)
  role : ∀ c ∈ cs, c.role = role
  source : ∀ c ∈ cs, c.source = some r

/-- The constraints are those of the relationships. -/
structure Encodes (formulas : Relationship → Except Failure (List (Formula String)))
    (rs : List Relationship) (cs : List Constraint) : Prop where
  sound : ∀ c ∈ cs, ∃ r ∈ rs, ∃ fs, formulas r = .ok fs ∧ c.formula ∈ fs ∧ c.source = some r
  complete : ∀ r ∈ rs, ∃ fs, formulas r = .ok fs ∧
    ∀ f ∈ fs, ∃ c ∈ cs, c.formula = f ∧ c.source = some r

section

variable {role : Constraint.Role} {formulas : Relationship → Except Failure (List (Formula String))}
  {rs : List Relationship} {made made' : List Constraint}

theorem addAll_renders {r : Relationship} {fs : List (Formula String)} (h : formulas r = .ok fs)
    (made : List Constraint) :
    ∃ group, addAll role r made fs = made ++ group ∧ Renders role formulas r group := by
  refine ⟨_, rfl, ?_, ?_, ?_⟩
  · rw [h, Constraint.formulas, List.map_map]
    exact congrArg Except.ok (List.zipIdx_map_fst 0 fs).symm
  · exact List.forall_mem_map.mpr fun _ _ => rfl
  · exact List.forall_mem_map.mpr fun _ _ => rfl

/-- The constraints of each relationship stand together, in the order of the relationships. -/
theorem addEach_renders (h : addEach role formulas rs made = (made', none)) :
    ∃ groups, made' = made ++ groups.flatten ∧ List.Forall₂ (Renders role formulas) rs groups := by
  induction rs generalizing made with
  | nil =>
    cases h
    exact ⟨[], (List.append_nil _).symm, .nil⟩
  | cons r rs ih =>
    unfold addEach at h
    cases hr : formulas r with
    | error e =>
      rw [hr] at h
      cases h
    | ok fs =>
      rw [hr] at h
      obtain ⟨group, hgroup, hrenders⟩ := addAll_renders hr made
      obtain ⟨groups, rfl, hgroups⟩ := ih h
      refine ⟨group :: groups, ?_, .cons hrenders hgroups⟩
      rw [hgroup, List.append_assoc, List.flatten_cons]

theorem addEach_numbered (h : addEach role formulas rs made = (made', none))
    (hmade : Numbered made) : Numbered made' := by
  induction rs generalizing made with
  | nil =>
    cases h
    exact hmade
  | cons r rs ih =>
    unfold addEach at h
    cases hr : formulas r with
    | error e =>
      rw [hr] at h
      cases h
    | ok fs =>
      rw [hr] at h
      exact ih h (numbered_addAll hmade fs)

theorem encodes_of_renders {groups : List (List Constraint)}
    (h : List.Forall₂ (Renders role formulas) rs groups) : Encodes formulas rs groups.flatten := by
  induction h with
  | nil => exact ⟨List.forall_mem_nil _, List.forall_mem_nil _⟩
  | @cons r group rs groups hr _ ih =>
    refine ⟨?_, ?_⟩
    · intro c hc
      rcases List.mem_append.mp hc with hc | hc
      · exact ⟨r, List.mem_cons_self, _, hr.formulas, List.mem_map_of_mem hc, hr.source c hc⟩
      · obtain ⟨r', hr', hfs⟩ := ih.sound c hc
        exact ⟨r', List.mem_cons_of_mem _ hr', hfs⟩
    · refine List.forall_mem_cons.mpr ⟨⟨_, hr.formulas, ?_⟩, ?_⟩
      · intro f hf
        obtain ⟨c, hc, rfl⟩ := List.mem_map.mp hf
        exact ⟨c, List.mem_append_left _ hc, rfl, hr.source c hc⟩
      · intro r' hr'
        obtain ⟨fs, hfs, hall⟩ := ih.complete r' hr'
        refine ⟨fs, hfs, fun f hf => ?_⟩
        obtain ⟨c, hc, hcf⟩ := hall f hf
        exact ⟨c, List.mem_append_right _ hc, hcf⟩

end

/-- The constraints of both sides of a model, relationship by relationship. -/
theorem encode_renders {features : List String} {made : List Constraint}
    (h : encode features m = (made, none)) :
    Numbered made ∧ ∃ inTree across, made = inTree.flatten ++ across.flatten ∧
      List.Forall₂ (Renders .relationship (structural features)) m.structural inTree ∧
      List.Forall₂ (Renders .crossTree fun r => do return [← crossTree features r]) m.crossTree
        across := by
  unfold encode at h
  split at h
  · next made' hmade =>
    obtain ⟨inTree, rfl, htree⟩ := addEach_renders hmade
    obtain ⟨across, rfl, hacross⟩ := addEach_renders h
    exact ⟨addEach_numbered h (addEach_numbered hmade rfl), inTree, across, rfl, htree, hacross⟩
  · next failed hfailed => exact absurd h (hfailed made)

theorem encode_encodes {features : List String} {made : List Constraint}
    (h : encode features m = (made, none)) :
    Numbered made ∧ ∃ inTree across, made = inTree ++ across ∧
      Encodes (structural features) m.structural inTree ∧
      Encodes (fun r => do return [← crossTree features r]) m.crossTree across := by
  obtain ⟨hnum, inTree, across, rfl, htree, hacross⟩ := encode_renders h
  exact ⟨hnum, _, _, rfl, encodes_of_renders htree, encodes_of_renders hacross⟩

/-- Every relationship of a model is encoded by formulas that say what it means, and nothing else
is. -/
theorem encode_means {features : List String} {made : List Constraint}
    (h : encode features m = (made, none)) :
    Numbered made ∧
      (∀ c ∈ made, ∃ r ∈ m.relationships, ∃ fs, Means features r fs ∧ c.formula ∈ fs ∧
        c.source = some r) ∧
      ∀ r ∈ m.relationships, ∃ fs, Means features r fs ∧
        ∀ f ∈ fs, ∃ c ∈ made, c.formula = f ∧ c.source = some r := by
  obtain ⟨hnum, inTree, across, rfl, htree, hacross⟩ := encode_encodes h
  have hmeans : ∀ {r fs}, (do return [← crossTree features r] : Except Failure _) = .ok fs →
      Means features r fs := fun hfs => by
    obtain ⟨f, hf, hfs⟩ := bind_eq_ok_iff.mp hfs
    rw [← pure_eq_ok_iff.mp hfs]
    exact crossTree_means hf
  refine ⟨hnum, ?_, ?_⟩
  · intro c hc
    rcases List.mem_append.mp hc with hc | hc
    · obtain ⟨r, hr, fs, hfs, hmem⟩ := htree.sound c hc
      exact ⟨r, List.mem_append_left _ hr, fs, structural_means hfs, hmem⟩
    · obtain ⟨r, hr, fs, hfs, hmem⟩ := hacross.sound c hc
      exact ⟨r, List.mem_append_right _ hr, fs, hmeans hfs, hmem⟩
  · intro r hr
    rcases List.mem_append.mp hr with hr | hr
    · obtain ⟨fs, hfs, hall⟩ := htree.complete r hr
      refine ⟨fs, structural_means hfs, ?_⟩
      intro f hf
      obtain ⟨c, hc, hcf⟩ := hall f hf
      exact ⟨c, List.mem_append_left _ hc, hcf⟩
    · obtain ⟨fs, hfs, hall⟩ := hacross.complete r hr
      refine ⟨fs, hmeans hfs, ?_⟩
      intro f hf
      obtain ⟨c, hc, hcf⟩ := hall f hf
      exact ⟨c, List.mem_append_right _ hc, hcf⟩

theorem crossTree_of_encode {features : List String} {made : List Constraint}
    (h : encode features m = (made, none)) {r : Relationship} (hr : r ∈ m.crossTree) :
    r.kind.isCrossTree = true ∧ ∃ a b rest, a ∈ features ∧ b ∈ features ∧
      r.left = .text a ∧ r.right = .text b :: rest := by
  obtain ⟨-, _, _, -, -, hacross⟩ := encode_encodes h
  obtain ⟨fs, hfs, -⟩ := hacross.complete r hr
  obtain ⟨f, hf, -⟩ := bind_eq_ok_iff.mp hfs
  obtain ⟨a, b, rest, ha, hb, hleft, hright, ⟨hkind, -⟩ | ⟨hkind, -⟩⟩ := crossTree_eq_ok hf
  · exact ⟨hkind ▸ rfl, a, b, rest, ha, hb, hleft, hright⟩
  · exact ⟨hkind ▸ rfl, a, b, rest, ha, hb, hleft, hright⟩

/-- The constraint that the root is selected. -/
def selectedRoot (made : List Constraint) (root : Feature) : Constraint :=
  ⟨made.length, .var root.name, .root, none⟩

theorem numbered_selectedRoot {made : List Constraint} (h : Numbered made) (root : Feature) :
    Numbered (made ++ [selectedRoot made root]) := by
  unfold Numbered at h ⊢
  rw [ids_append, h, List.length_append, List.length_singleton, List.range_succ, List.map_append]
  rfl

theorem attempt_eq_ok {o : FeatureOrder} (h : (attempt m o).outcome = .ok s) :
    ∃ root rest vars unreachable made, m.features = root :: rest ∧
      survey m o = .ok (vars, unreachable) ∧ encode vars m = (made, none) ∧
      s = reset ⟨vars, made, some (selectedRoot made root), .empty, made.length + 1⟩ := by
  unfold attempt at h
  split at h
  · cases h
  · next root rest hm =>
    split at h
    · cases h
    · next vars unreachable hsurvey =>
      split at h
      · cases h
      · next made hencode =>
        cases h
        exact ⟨root, rest, vars, unreachable, made, hm, hsurvey, hencode, rfl⟩

theorem mem_vars_of_survey {o : FeatureOrder} {vars unreachable : List String}
    (h : survey m o = .ok (vars, unreachable)) (name : String) : name ∈ vars ↔ name ∈ m.names := by
  unfold survey at h
  obtain ⟨fs, hfs, h⟩ := bind_eq_ok_iff.mp h
  obtain ⟨_, -, h⟩ := bind_eq_ok_iff.mp h
  cases pure_eq_ok_iff.mp h
  exact FeatureModel.mem_names_of_order hfs name

theorem nonRoot_of_attempt {o : FeatureOrder} (h : (attempt m o).outcome = .ok s) :
    ∃ visited, m.nonRoot o = .ok visited := by
  obtain ⟨root, rest, vars, unreachable, made, hm, hsurvey, -⟩ := attempt_eq_ok h
  obtain ⟨fs, hfs, -⟩ := bind_eq_ok_iff.mp hsurvey
  have hroot : m.root = .ok root := by
    rw [FeatureModel.root, hm]
  exact ⟨_, bind_eq_ok_iff.mpr ⟨root, hroot, bind_eq_ok_iff.mpr ⟨fs, hfs, rfl⟩⟩⟩

theorem ofModel_alike {n : FeatureModel} {o : FeatureOrder} (halike : m.Alike n)
    (h : ofModel m o = .ok s) : ofModel n o = .ok s := by
  obtain ⟨root, rest, vars, unreachable, made, hm, hsurvey, hencode, rfl⟩ := attempt_eq_ok h
  obtain ⟨fs, hfs, hsurvey⟩ := bind_eq_ok_iff.mp hsurvey
  obtain ⟨_, hunreachable, hsurvey⟩ := bind_eq_ok_iff.mp hsurvey
  cases pure_eq_ok_iff.mp hsurvey
  obtain ⟨fs', hfs', hnames⟩ := halike.order hfs
  have hsurvey' : survey n o = .ok (fs.map (·.name), unreachable) := by
    rw [hnames]
    exact bind_eq_ok_iff.mpr ⟨fs', hfs', bind_eq_ok_iff.mpr ⟨_, halike.unreachable ▸ hunreachable, rfl⟩⟩
  have hencode' : encode (fs.map (·.name)) n = (made, none) := by
    unfold encode at hencode ⊢
    rwa [← halike.structural, ← halike.crossTree]
  have hroots : m.features.map (·.name) = n.features.map (·.name) := halike.names
  rw [hm, List.map_cons] at hroots
  obtain ⟨root', rest', hn, hroot, -⟩ := List.map_eq_cons_iff.mp hroots.symm
  unfold ofModel attempt
  rw [hn]
  dsimp only
  rw [hsurvey']
  dsimp only
  rw [hencode', hroot]
  rfl

/-- The store made of a model is faithful to it and at its baseline. -/
theorem faithful_of_attempt {o : FeatureOrder} (h : (attempt m o).outcome = .ok s) :
    Faithful m s ∧ s.posting = .of s.ac := by
  obtain ⟨root, rest, vars, unreachable, made, hm, hsurvey, hencode, rfl⟩ := attempt_eq_ok h
  have hvars := mem_vars_of_survey hsurvey
  obtain ⟨hnum, hsound, hcomplete⟩ := encode_means hencode
  have hids := numbered_selectedRoot hnum root
  refine ⟨⟨hvars, ?_, ?_, ?_, ?_, ?_,
    ⟨root, selectedRoot made root, ?_, rfl, rfl, rfl⟩, ?_, hids.nodup, ?_⟩,
    Posting.post_empty_of_nodup hids.nodup⟩
  · intro c hc
    obtain ⟨r, hr, fs, hfs, hmem, hsource⟩ := hsound c hc
    exact ⟨r, hr, hsource, fun v hv => (hfs.satisfies_iff v).mpr hv _ hmem⟩
  · intro c hc
    obtain ⟨r, hr, fs, hfs, hmem, hsource⟩ := hsound c hc
    refine ⟨r, hr, hsource, ?_⟩
    -- a relationship that is encoded by a single constraint is what that constraint says
    by_cases hlength : fs.length ≤ 1
    · right
      obtain ⟨f, rfl⟩ := List.length_eq_one_iff.mp
        (Nat.le_antisymm hlength (List.length_pos_of_mem hmem))
      intro v
      rw [List.mem_singleton.mp hmem, ← satisfies_singleton, hfs.satisfies_iff]
    · obtain ⟨hkind, heq⟩ := hfs.length_le.resolve_left hlength
      exact .inl ⟨hkind, heq ▸ Nat.lt_of_not_le hlength⟩
  · intro r hr v hv
    obtain ⟨fs, hfs, hall⟩ := hcomplete r hr
    refine (hfs.satisfies_iff v).mp ?_
    intro f hf
    obtain ⟨c, hc, rfl, hsource⟩ := hall f hf
    exact hv c hc hsource
  · intro r hr
    obtain ⟨fs, hfs, -⟩ := hcomplete r hr
    exact hfs.rule
  · intro c hc
    obtain ⟨r, hr, fs, hfs, hmem, -⟩ := hsound c hc
    exact fun x hx => (hvars x).mp (hfs.vars_subset _ hmem hx)
  · rw [hm]
    rfl
  · intro r hr
    obtain ⟨hkind, a, b, others, ha, hb, hright⟩ := crossTree_of_encode hencode hr
    exact ⟨hkind, a, b, others, (hvars a).mp ha, (hvars b).mp hb, hright⟩
  · intro i hi
    have hlt := hids.lt hi
    rw [List.length_append, List.length_singleton] at hlt
    exact hlt

end Store
end ProductLine

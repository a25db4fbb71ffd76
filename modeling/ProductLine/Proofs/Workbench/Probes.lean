import ProductLine.Anomaly.Analyzer
import ProductLine.Proofs.Constraint.Redundancy
import ProductLine.Proofs.Workbench.Checks

/-! # Work on a workbench at its baseline

On a workbench that is `Standing`, the store is faithful to the model and at its baseline. The
perturbations that an analysis probes are always possible there (`perturbation_eq`), and every probe
brings the baseline back (`probe_checked`, `retracted_probed`), so that nothing is left of it but the
numbers given out and the failures of the engine (`Probed`). -/

namespace ProductLine

open Constraint

namespace Workbench

/-- The store is faithful to the model, which may have been tagged since, and at its baseline. -/
structure Standing (m : FeatureModel) (b : Workbench) : Prop where
  alike : m.Alike b.model
  faithful : b.store.Faithful m
  posting : b.store.posting = .of b.store.ac

/-- What a probe leaves of a workbench: only numbers are given out and failures are added, none of
them on a calm workbench. An idle world stays idle. -/
structure Probed (b c : Workbench) : Prop where
  model : c.model = b.model
  attached : c.attached = b.attached
  store : ∃ n, b.store.nextId ≤ n ∧ c.store = { b.store with nextId := n }
  edition : c.edition = b.edition
  settings : c.settings = b.settings
  failures : b.failures <+: c.failures
  faults : c.world.faults = b.world.faults
  unfailing : b.Calm → c.failures = b.failures
  idle : b.world.Idle → c.world.Idle
  time : b.world.Precedes c.world

variable {m : FeatureModel} {b c d : Workbench}

theorem Checked.probed (h : Checked b c) : Probed b c :=
  { h with store := ⟨b.store.nextId, Nat.le_refl _, h.store⟩ }

namespace Probed

theorem refl (b : Workbench) : Probed b b := (Checked.refl b).probed

theorem calm (h : Probed b c) (hb : b.Calm) : c.Calm := by
  obtain ⟨n, -, hstore⟩ := h.store
  unfold Workbench.Calm
  rw [h.faults, h.settings, hstore]
  exact hb

theorem trans (h : Probed b c) (h' : Probed c d) : Probed b d := by
  obtain ⟨n, hn, hstore⟩ := h.store
  obtain ⟨k, hk, hstore'⟩ := h'.store
  refine ⟨h'.model.trans h.model, h'.attached.trans h.attached, ⟨k, ?_, ?_⟩,
    h'.edition.trans h.edition, h'.settings.trans h.settings, h.failures.trans h'.failures,
    h'.faults.trans h.faults, fun hb => (h'.unfailing (h.calm hb)).trans (h.unfailing hb),
    fun hb => h'.idle (h.idle hb), h.time.trans h'.time⟩
  · rw [hstore] at hk
    exact Nat.le_trans hn hk
  · rw [hstore', hstore]

theorem cf (h : Probed b c) : c.store.cf = b.store.cf := by
  obtain ⟨n, -, hstore⟩ := h.store
  rw [hstore]

theorem standing (h : Probed b c) (hb : Standing m b) : Standing m c := by
  obtain ⟨n, hn, hstore⟩ := h.store
  refine ⟨h.model ▸ hb.alike, ?_, ?_⟩
  · rw [hstore]
    exact hb.faithful.numbered hn b.store.posting
  · rw [hstore]
    exact hb.posting

end Probed

/-- What stays as it is while a store is made. -/
structure Building (b c : Workbench) : Prop where
  model : c.model = b.model
  settings : c.settings = b.settings
  faults : c.world.faults = b.world.faults
  token : c.world.token = b.world.token
  reading : c.world.reading = b.world.reading

theorem Building.time (h : Building b c) : b.world.Precedes c.world :=
  ⟨0, fun k => by rw [h.reading, Nat.zero_add]⟩

theorem Building.noted (h : Building b c) (n : Journal.Note) :
    Building b { c with world := { c.world with notes := c.world.notes.push n } } := by
  refine { h with reading := ?_ }
  rw [← h.reading]
  exact funext (World.reading_congr rfl rfl rfl)

/-- The workbench after numbers have been given out. -/
def numbered (b : Workbench) (n : Nat) : Workbench :=
  { b with store := { b.store with nextId := b.store.nextId + n } }

/-- The workbench with assignments posted on top of the baseline. -/
def perturbed (b : Workbench) (values : List (String × Bool)) : Workbench :=
  (b.numbered values.length).posting (b.store.ac ++ assignments b.store.nextId values)

/-- The opposite of a constraint between two features, with the next number. -/
def opposite (b : Workbench) (r : Relationship) (x y : String) : Constraint :=
  ⟨b.store.nextId, Encoding.negation r.kind x y, .negation, some r⟩

/-- The workbench with the baseline posted, but a constraint replaced by its opposite. -/
def replaced (b : Workbench) (r : Relationship) (x y : String) : Workbench :=
  (b.numbered 1).posting
    (subtract b.store.ac (b.store.constraintsOf r) ++ [b.opposite r x y])

open Classical in
/-- Whatever is done while a constraint is retracted, it begins with exactly this posted: the baseline
without what was made of the constraint, and its opposite. -/
def Replaces (r : Relationship) (b : Workbench) : Prop :=
  ∃ opposite : Constraint, (∀ v, opposite.formula.eval v = true ↔ ¬r.Holds v) ∧
    ∀ (α : Type) (work : List Constraint → Work α), ∃ ending c,
      Work.retracted r work b = Work.closing ending (work [opposite]) c ∧
      c.store.posted = (b.store.ac.filter fun d => d.source ≠ some r) ++ [opposite]

theorem Standing.posted (hb : Standing m b) : b.store.posted = b.store.ac :=
  Store.posted_of_posting hb.posting

theorem numbered_numbered (b : Workbench) (n k : Nat) :
    (b.numbered n).numbered k = b.numbered (n + k) := by
  unfold numbered
  rw [Nat.add_assoc]

theorem probed_numbered (b : Workbench) (n : Nat) : Probed b (b.numbered n) :=
  ⟨rfl, rfl, ⟨_, Nat.le_add_right _ _, rfl⟩, rfl, rfl, List.prefix_rfl, rfl, fun _ => rfl, id,
    .refl _⟩

end Workbench

namespace Work

open Workbench

variable {α β : Type} {m : FeatureModel} {b : Workbench}

/-- Once the store is made of the model, the workbench stands, and the features can be visited in
order. -/
theorem made_standing (o : FeatureOrder) :
    Ensures (Building b)
      (do
        let s ← orFail (Store.attempt b.model o).outcome
        modify fun c => { c with
          store := s, edition := c.edition + 1, calls := 0, failures := [] }
        note (.storeMade b.model.name s.vars.length s.cf.length))
      (fun _ c => (Standing b.model c ∧ ∃ visited, b.model.nonRoot o = .ok visited) ∧
        Store.ofModel b.model o = .ok c.store ∧ c.failures = [] ∧ Building b c)
      fun _ _ => True := by
  have hattempt : Ensures (Building b) (orFail (Store.attempt b.model o).outcome)
      (fun s c => (Store.attempt b.model o).outcome = .ok s ∧ Building b c)
      fun _ _ => True := Ensures.orFail (fun s hs c hc => ⟨hs, hc⟩) fun _ _ _ _ => trivial
  apply Ensures.bind hattempt
  intro s
  apply Ensures.assuming
  intro hs
  obtain ⟨hfaithful, hposting⟩ := Store.faithful_of_attempt hs
  have hset : Ensures (Building b)
      (modify fun c => { c with
        store := s, edition := c.edition + 1, calls := 0, failures := [] } : Work Unit)
      (fun _ c => Standing b.model c ∧ Store.ofModel b.model o = .ok c.store ∧
        c.failures = [] ∧ Building b c) fun _ _ => True := by
    apply Ensures.modify
    intro c hc
    exact ⟨⟨hc.model ▸ .refl _, hfaithful, hposting⟩, hs, rfl, { hc with }⟩
  apply Ensures.bind hset
  intro _
  apply Ensures.modify
  intro c hc
  obtain ⟨hstanding, hmodel, hfailures, hbuilding⟩ := hc
  exact ⟨⟨{ hstanding with }, Store.nonRoot_of_attempt hs⟩, hmodel, hfailures, hbuilding.noted _⟩

theorem build_standing (o : FeatureOrder) :
    Ensures (· = b) (build o)
      (fun _ c => (Standing b.model c ∧ ∃ visited, b.model.nonRoot o = .ok visited) ∧
        Store.ofModel b.model o = .ok c.store ∧ c.failures = [] ∧ Building b c)
      fun _ _ => True := by
  have hattached : ∀ cs : Workbench → List Constraint,
      Ensures (· = b) (modify fun c => { c with attached := cs c } : Work Unit)
        (fun _ => Building b) fun _ _ => True := by
    intro cs
    apply Ensures.modify
    intro c hc
    rw [hc]
    exact ⟨rfl, rfl, rfl, rfl, rfl⟩
  have hwarned : ∀ n, Ensures (Building b) (note n) (fun _ => Building b) fun _ _ => True :=
    fun n => Ensures.modify fun c hc => hc.noted n
  unfold build
  apply Ensures.get_bind
  intro c hc
  rw [hc]
  apply Ensures.bind (hattached _)
  intro _
  dsimp only
  split
  · exact made_standing o
  · apply Ensures.bind (hwarned _)
    intro _
    exact made_standing o

/-! ### Perturbations -/

theorem variableOf_eq {name : String} (h : name ∈ b.store.vars) :
    variableOf (.text name) b = .ok name b := by
  have hfind : b.store.find? (.text name) = .ok (some name) :=
    congrArg Except.ok (Encoding.find?_text h)
  have hfound : orFail (b.store.find? (.text name)) b = .ok (some name) b := by
    rw [hfind]
    rfl
  unfold variableOf
  exact (bind_eq_of_ok rfl).trans (bind_eq_of_ok hfound)

theorem assign_eq {name : String} (h : name ∈ b.store.vars) (value : Bool) :
    assign (.text name) value b =
      .ok ⟨b.store.nextId, .literal name value, .assignment, none⟩ (b.numbered 1) := by
  unfold assign
  rw [bind_eq_of_ok (variableOf_eq h)]
  rfl

theorem perturbation_eq {values : List (String × Bool)} (h : ∀ x ∈ values, x.1 ∈ b.store.vars) :
    Anomaly.Analysis.perturbation values b =
      .ok (assignments b.store.nextId values) (b.numbered values.length) := by
  unfold Anomaly.Analysis.perturbation
  induction values generalizing b with
  | nil => rfl
  | cons x rest ih =>
    obtain ⟨name, value⟩ := x
    rw [List.forall_mem_cons] at h
    have hrest := ih (b := b.numbered 1) h.2
    rw [List.mapM_cons, bind_eq_of_ok (assign_eq h.1 value), bind_eq_of_ok hrest]
    rw [numbered_numbered, Nat.add_comm 1]
    rfl

/-! ### Probes -/

theorem probe_eq {cs : List Constraint} {work : List Constraint → Work α}
    (hnd : (ids (b.store.ac ++ cs)).Nodup) :
    probe cs work b =
      closing Store.reset (work (b.store.ac ++ cs)) (b.posting (b.store.ac ++ cs)) := by
  have hinside : b.store.reset.post cs = (b.posting (b.store.ac ++ cs)).store := by
    have hbase := hnd
    rw [ids_append, List.nodup_append] at hbase
    show { b.store with posting := (Posting.empty.post b.store.ac).post cs } = _
    rw [Posting.post_empty_of_nodup hbase.1, Posting.post_of, post_of_nodup hnd]
    rfl
  have hopen : probe cs work b = closing Store.reset (work (b.store.reset.post cs).posted)
      { b with store := b.store.reset.post cs } := rfl
  rw [hopen, hinside]
  rfl

theorem probe_checked {cs : List Constraint} {work : List Constraint → Work α}
    {Q : α → List Oracle.SolverFailure → Prop} {F : Failure → World → Prop}
    (hposting : b.store.posting = .of b.store.ac) (hnd : (ids (b.store.ac ++ cs)).Nodup)
    (h : Ensures (Checked (b.posting (b.store.ac ++ cs))) (work (b.store.ac ++ cs))
      (fun a c => Q a c.failures ∧ Checked (b.posting (b.store.ac ++ cs)) c)
      (fun e c => F e c.world ∧ Checked (b.posting (b.store.ac ++ cs)) c)) :
    Ensures (Checked b) (probe cs work) (fun a c => Q a c.failures ∧ Checked b c)
      (fun e c => F e c.world ∧ Checked b c) := by
  have hback : ∀ d, Checked (b.posting (b.store.ac ++ cs)) d → Checked b { d with
      store := (b.posting (b.store.ac ++ cs)).store.reset } := by
    intro d hd
    have hstore : (b.posting (b.store.ac ++ cs)).store.reset = b.store := by
      rw [ids_append, List.nodup_append] at hnd
      exact Store.reset_of_posting hnd.1 hposting
    rw [hstore]
    exact { hd with store := rfl }
  intro s hs
  rw [probe_eq (hs.store ▸ hnd), hs.store]
  refine ((closing_ensures Store.reset h).mono ?_ ?_) _ (hs.posting _)
  · rintro a c ⟨d, hQ, hd, rfl⟩
    exact ⟨hQ, hback d hd⟩
  · rintro e c ⟨d, hF, hd, rfl⟩
    exact ⟨hF, hback d hd⟩

/-! ### Opposites -/

theorem negationOf_eq {r : Relationship} {x y : String} {rest : List Value}
    (hkind : r.kind.isCrossTree = true) (hleft : r.left = .text x) (hright : r.right = .text y :: rest)
    (hx : x ∈ b.store.vars) (hy : y ∈ b.store.vars) :
    negationOf r b = .ok [b.opposite r x y] (b.numbered 1) := by
  have hcross : r.isCrossTree = true := hkind
  have hfirst : orFail (Encoding.firstRight r) b = .ok (.text y) b := by
    rw [Encoding.firstRight_eq_ok_iff.mpr ⟨rest, hright⟩]
    rfl
  unfold negationOf
  rw [hcross, hleft]
  refine (bind_eq_of_ok rfl).trans ((bind_eq_of_ok (variableOf_eq hx)).trans ?_)
  exact (bind_eq_of_ok hfirst).trans ((bind_eq_of_ok (variableOf_eq hy)).trans rfl)

theorem ids_opposite_nodup (hb : Standing m b) (r : Relationship) (x y : String) :
    (ids (b.store.ac ++ [b.opposite r x y])).Nodup := by
  apply ids_append_singleton_nodup hb.faithful.ids_nodup
  intro hi
  exact Int.lt_irrefl _ (hb.faithful.ids_lt _ hi)

theorem ids_replaced_nodup (hb : Standing m b) (r : Relationship) (x y : String) :
    (ids (b.replaced r x y).store.posted).Nodup :=
  (ids_opposite_nodup hb r x y).sublist ((subtract_sublist.append (List.Sublist.refl _)).map _)

/-- Whatever is done while a constraint is taken back begins with its opposite posted in its place. -/
theorem retracted_eq {r : Relationship} {x y : String} {rest : List Value}
    {work : List Constraint → Work α} (hb : Standing m b) (hkind : r.kind.isCrossTree = true)
    (hleft : r.left = .text x) (hright : r.right = .text y :: rest) (hx : x ∈ b.store.vars)
    (hy : y ∈ b.store.vars) :
    retracted r work b =
      closing (fun s => ((s.unpost [b.opposite r x y]).post (b.store.constraintsOf r)).reset)
        (work [b.opposite r x y]) (b.replaced r x y) := by
  have hopen : (((b.numbered 1).store.reset.unpost (b.store.constraintsOf r)).post
      [b.opposite r x y]) = (b.replaced r x y).store := by
    have hposting : ((Posting.empty.post b.store.ac).unpost (b.store.constraintsOf r)).post
        [b.opposite r x y] = (b.replaced r x y).store.posting := by
      rw [Posting.post_empty_of_nodup hb.faithful.ids_nodup, Posting.unpost_of, Posting.post_of,
        post_of_nodup (ids_replaced_nodup hb r x y)]
      rfl
    exact congrArg (fun p => { (b.numbered 1).store with posting := p }) hposting
  have hnegation := negationOf_eq (b := { b with
    store := b.store.reset.unpost (b.store.constraintsOf r) }) hkind hleft hright hx hy
  have hrun : retracted r work b = closing _ (work [b.opposite r x y])
      { b.numbered 1 with store := (((b.numbered 1).store.reset.unpost
        (b.store.constraintsOf r)).post [b.opposite r x y]) } :=
    (bind_eq_of_ok rfl).trans ((bind_eq_of_ok rfl).trans
      ((bind_eq_of_ok hnegation).trans (bind_eq_of_ok rfl)))
  rw [hrun, hopen]
  rfl

/-- In the store of a model whose constraints can be told from each other, what is taken back is what
was made of the constraint. -/
theorem replaces (hb : Standing m b) (hm : m.Arranged) {done rest : List Relationship}
    {r : Relationship} (hsplit : m.crossTree = done ++ r :: rest) : Replaces r b := by
  have hr : r ∈ m.crossTree := hsplit ▸ List.mem_append_right _ List.mem_cons_self
  obtain ⟨hkind, x, y, others, hx, hy, hleft, hright⟩ := hb.faithful.crossTree r hr
  refine ⟨b.opposite r x y, fun v => Encoding.eval_negation_iff hkind hleft hright, ?_⟩
  intro α work
  refine ⟨_, _, retracted_eq hb hkind hleft hright ((hb.faithful.mem_vars x).mpr hx)
    ((hb.faithful.mem_vars y).mpr hy), ?_⟩
  rw [← hb.faithful.subtract_constraintsOf hm hsplit]
  rfl

theorem retracted_probed {r : Relationship} {x y : String} {rest : List Value}
    {work : List Constraint → Work α} {Q : α → List Oracle.SolverFailure → Prop}
    {F : Failure → World → Prop} (hb : Standing m b) (hkind : r.kind.isCrossTree = true)
    (hleft : r.left = .text x) (hright : r.right = .text y :: rest) (hx : x ∈ b.store.vars)
    (hy : y ∈ b.store.vars)
    (h : Ensures (Checked (b.replaced r x y)) (work [b.opposite r x y])
      (fun a c => Q a c.failures ∧ Checked (b.replaced r x y) c)
      (fun e c => F e c.world ∧ Checked (b.replaced r x y) c)) :
    Ensures (· = b) (retracted r work) (fun a c => Q a c.failures ∧ Probed b c)
      (fun e c => F e c.world ∧ Probed b c) := by
  have hback : ∀ d, Checked (b.replaced r x y) d → Probed b { d with
      store := ((((b.replaced r x y).store.unpost [b.opposite r x y]).post
        (b.store.constraintsOf r))).reset } := by
    intro d hd
    have hstore : ((((b.replaced r x y).store.unpost [b.opposite r x y]).post
        (b.store.constraintsOf r))).reset = (b.numbered 1).store := by
      show { (b.numbered 1).store with posting := Posting.empty.post b.store.ac } = _
      rw [Posting.post_empty_of_nodup hb.faithful.ids_nodup, ← hb.posting]
      rfl
    rw [hstore]
    exact (probed_numbered b 1).trans { hd with store := ⟨_, Nat.le_refl _, rfl⟩ }
  intro s hs
  rw [hs, retracted_eq hb hkind hleft hright hx hy]
  refine ((closing_ensures _ h).mono ?_ ?_) _ (.refl _)
  · rintro a c ⟨d, hQ, hd, rfl⟩
    exact ⟨hQ, hback d hd⟩
  · rintro e c ⟨d, hF, hd, rfl⟩
    exact ⟨hF, hback d hd⟩

/-! ### What cannot be -/

/-- Whatever is done to a perturbed model, the baseline is brought back. -/
theorem perturbed_probed {values : List (String × Bool)} {work : List Constraint → Work α}
    {Q : α → List Oracle.SolverFailure → Prop} {F : Failure → World → Prop} (hb : Standing m b)
    (hvalues : ∀ x ∈ values, x.1 ∈ m.names)
    (h : Ensures (Checked (b.perturbed values)) (work (b.perturbed values).store.posted)
      (fun a c => Q a c.failures ∧ Checked (b.perturbed values) c)
      (fun e c => F e c.world ∧ Checked (b.perturbed values) c)) :
    Ensures (· = b) (Anomaly.Analysis.perturbation values >>= fun cs => probe cs work)
      (fun a c => Q a c.failures ∧ Probed b c) (fun e c => F e c.world ∧ Probed b c) := by
  have hvars : ∀ x ∈ values, x.1 ∈ b.store.vars := fun x hx =>
    (hb.faithful.mem_vars x.1).mpr (hvalues x hx)
  have hprobe : Ensures (Checked (b.numbered values.length))
      (probe (assignments b.store.nextId values) work)
      (fun a c => Q a c.failures ∧ Checked (b.numbered values.length) c)
      (fun e c => F e c.world ∧ Checked (b.numbered values.length) c) :=
    probe_checked hb.posting (hb.faithful.ids_assignments_nodup values) h
  intro s hs
  rw [hs, bind_eq_of_ok (perturbation_eq hvars)]
  refine (hprobe.mono ?_ ?_) _ (Checked.refl _)
  · intro a c hc
    exact ⟨hc.1, (probed_numbered _ _).trans hc.2.probed⟩
  · intro e c hc
    exact ⟨hc.1, (probed_numbered _ _).trans hc.2.probed⟩

/-- What a probe for values that no product has is worth. -/
structure Finds (m : FeatureModel) (values : List (String × Bool)) (infeasible : Bool)
    (failures : List Oracle.SolverFailure) : Prop where
  no : infeasible = false → m.Allows values
  yes : infeasible = true → failures = [] → ¬m.Allows values

theorem infeasible_probed {values : List (String × Bool)} (hb : Standing m b)
    (hvalues : ∀ x ∈ values, x.1 ∈ m.names) :
    Ensures (· = b)
      (Anomaly.Analysis.perturbation values >>= fun cs =>
        probe cs fun posted => return !(← isConsistent posted))
      (fun found c => Finds m values found c.failures ∧ Probed b c)
      (fun e c => CalledOff b.world e ∧ Probed b c) := by
  have hnd : (ids (b.perturbed values).store.posted).Nodup :=
    hb.faithful.ids_assignments_nodup values
  have hfeasible : Diagnosis.Consistent (post [] (b.perturbed values).store.posted) ↔
      m.Allows values := by
    rw [post_nil_of_nodup hnd]
    exact hb.faithful.consistent_assignments_iff hvalues
  have hf : (b.perturbed values).store.Faithful m :=
    hb.faithful.numbered (Nat.le_add_right _ _) _
  have hvars : ∀ c ∈ (b.perturbed values).store.posted, c.formula.vars ⊆ m.names :=
    List.forall_mem_append.mpr ⟨hb.faithful.vars_ac_subset, vars_assignments_subset hvalues⟩
  apply perturbed_probed (F := fun e _ => CalledOff b.world e) hb hvalues
  apply Ensures.bind (isConsistent_checked (.of_nodup hnd) (hf.vars_of_names hvars))
  intro answer
  apply Ensures.pure
  intro c hc
  refine ⟨⟨?_, ?_⟩, hc.2⟩
  · intro hno
    rw [Bool.not_eq_false'] at hno
    exact hfeasible.mp (hc.1.yes hno)
  · intro hyes hfail hallows
    rw [Bool.not_eq_true'] at hyes
    exact hc.1.no hyes hfail (hfeasible.mpr hallows)

end Work
end ProductLine

import ProductLine.Proofs.Diagnosis.Posed
import ProductLine.Proofs.Workbench.Preservation
import ProductLine.Proofs.Workbench.Diagnoses

/-! # What is asked on a workbench

Whenever diagnoses are looked for, something was found that they are to explain, and it was announced in
the journal before. So the journal tells whether everything that was looked for explains what was announced
last (`Journal.Accounted`). The announcement says what is to be explained: the baseline, with something
added to it and something else taken back. The candidates are the constraints of relationships that are
left, and what else is posted is the background, so that a search there is well posed (`poses_store`), and
with it all that is looked for further down (`diagnose_explains`). -/

namespace ProductLine

open Constraint

namespace Journal

/-- Whether the note announces that something was found. -/
def Note.announces : Note → Bool
  | .void | .found .. | .incompatible .. | .redundant .. => true
  | _ => false

/-- What was announced last. -/
def announced? (notes : List Note) : Option Note := (notes.filter Note.announces).getLast?

/-- Whenever diagnoses of candidates over a background are looked for, something was announced before, and
the two fit what was announced last. -/
def Accounted (fits : Note → List Constraint → List Constraint → Prop) (notes : List Note) : Prop :=
  ∀ before candidates background after, notes = before ++ .sought candidates background :: after →
    ∃ n ∈ announced? before, fits n candidates background

variable {fits : Note → List Constraint → List Constraint → Prop} {notes : List Note} {n k : Note}

theorem announced?_of_announces (h : n.announces = true) : announced? (notes ++ [n]) = some n := by
  unfold announced?
  rw [List.filter_append, List.filter_cons_of_pos h, List.filter_nil, List.getLast?_concat]

theorem announced?_of_silent (h : n.announces = false) :
    announced? (notes ++ [n]) = announced? notes := by
  unfold announced?
  rw [List.filter_append, List.filter_cons_of_neg (h ▸ Bool.false_ne_true), List.filter_nil,
    List.append_nil]

theorem accounted_nil : Accounted fits [] := fun _ _ _ _ h =>
  absurd h.symm (List.append_ne_nil_of_right_ne_nil _ (List.cons_ne_nil _ _))

/-- One more note is all right if it does not tell that something unfit is looked for. -/
theorem Accounted.concat (h : Accounted fits notes)
    (hk : ∀ candidates background, k = .sought candidates background →
      ∃ n ∈ announced? notes, fits n candidates background) : Accounted fits (notes ++ [k]) := by
  intro before candidates background after heq
  rcases List.eq_nil_or_concat after with rfl | ⟨others, last, rfl⟩
  · obtain ⟨rfl, hlast⟩ := List.append_inj' heq rfl
    exact hk _ _ (List.singleton_inj.mp hlast)
  · rw [List.concat_eq_append, ← List.cons_append, ← List.append_assoc] at heq
    exact h _ _ _ _ (List.append_inj' heq rfl).1

end Journal

open Journal

namespace Workbench

variable {fits : Note → List Constraint → List Constraint → Prop} {b c d : Workbench} {n k : Note}

/-- Since the first workbench, whatever was looked for fits what was announced. -/
def Recounts (fits : Note → List Constraint → List Constraint → Prop) (b c : Workbench) : Prop :=
  ∃ noted, c.world.notes.toList = b.world.notes.toList ++ noted ∧ Accounted fits noted

/-- Since the first workbench, whatever was looked for fits what was announced, which is the note at last. -/
def Explains (fits : Note → List Constraint → List Constraint → Prop) (n : Note) (b c : Workbench) :
    Prop :=
  ∃ noted, c.world.notes.toList = b.world.notes.toList ++ noted ∧ Accounted fits noted ∧
    announced? noted = some n

theorem Recounts.refl (b : Workbench) : Recounts fits b b :=
  ⟨[], (List.append_nil _).symm, accounted_nil⟩

theorem Explains.recounts (h : Explains fits n b c) : Recounts fits b c :=
  h.imp fun _ hnoted => ⟨hnoted.1, hnoted.2.1⟩

theorem Recounts.push (h : Recounts fits b c)
    (hk : ∀ candidates background, k ≠ .sought candidates background)
    (hd : d.world.notes = c.world.notes.push k) : Recounts fits b d := by
  obtain ⟨noted, hnotes, haccounted⟩ := h
  refine ⟨noted ++ [k], ?_, haccounted.concat fun _ _ heq => absurd heq (hk _ _)⟩
  rw [hd, Array.toList_push, hnotes, List.append_assoc]

/-- A note that announces something is all right; after it, what fits is what explains that. -/
theorem Recounts.announce (h : Recounts fits b c) (hn : n.announces = true)
    (hd : d.world.notes = c.world.notes.push n) : Explains fits n b d := by
  obtain ⟨noted, hnotes, haccounted⟩ := h
  refine ⟨noted ++ [n], ?_, haccounted.concat ?_, announced?_of_announces hn⟩
  · rw [hd, Array.toList_push, hnotes, List.append_assoc]
  · rintro candidates background rfl
    cases hn

/-- While something is explained, a note is all right that announces nothing else and does not tell that
something unfit is looked for. -/
theorem Explains.push (h : Explains fits n b c) (hk : k.announces = false)
    (hfits : ∀ candidates background, k = .sought candidates background → fits n candidates background)
    (hd : d.world.notes = c.world.notes.push k) : Explains fits n b d := by
  obtain ⟨noted, hnotes, haccounted, hlast⟩ := h
  refine ⟨noted ++ [k], ?_, haccounted.concat fun _ _ heq => ⟨n, hlast, hfits _ _ heq⟩, ?_⟩
  · rw [hd, Array.toList_push, hnotes, List.append_assoc]
  · rw [announced?_of_silent hk, hlast]

theorem insensitive_of_notes {P : Workbench → Prop}
    (hsame : ∀ c d : Workbench, d.world.notes = c.world.notes → P c → P d)
    (htold : ∀ c o n, n.outcome? = some o → P c → P (c.told o n)) : Insensitive P where
  store c s := hsame c _ rfl
  model c m := hsame c _ rfl
  clock c := hsame c _ (by unfold World.tick; cases c.world.lapses <;> rfl)
  token c t := hsame c _ rfl
  told := htold

theorem not_sought_of_outcome {o : Option Oracle.SolverFailure} (h : k.outcome? = some o) :
    k.announces = false ∧ ∀ candidates background, k ≠ .sought candidates background := by
  cases k <;> first | exact ⟨rfl, fun _ _ => Note.noConfusion⟩ | cases h

theorem recounts_insensitive : Insensitive (Recounts fits b) :=
  insensitive_of_notes (fun _ _ hd ⟨noted, hnotes, h⟩ => ⟨noted, hd ▸ hnotes, h⟩)
    fun _ _ _ hk h => h.push (not_sought_of_outcome hk).2 rfl

theorem explains_insensitive : Insensitive (Explains fits n b) :=
  insensitive_of_notes (fun _ _ hd ⟨noted, hnotes, h⟩ => ⟨noted, hd ▸ hnotes, h⟩) fun _ _ _ hk h =>
    h.push (not_sought_of_outcome hk).1 (fun _ _ heq => absurd heq ((not_sought_of_outcome hk).2 _ _)) rfl

end Workbench

namespace Anomaly
namespace Analysis

open Diagnosis Workbench

variable {fits : Note → List Constraint → List Constraint → Prop} {m : FeatureModel} {b c : Workbench}
  {s : Store} {n : Note} {limits : Limits} {recentFirst : Bool} {retracted added : List Constraint}

/-! ### What is looked for -/

/-- The question how something can hold that was added to the baseline while something else was taken back.
The candidates are the constraints of relationships, in the order of the configuration; the selected root
and what was added are fixed. -/
def Asked (s : Store) (recentFirst : Bool) (retracted added : List Constraint) :
    List Constraint → List Constraint → Prop :=
  Poses (Analysis.candidates recentFirst s) (subtract s.ac retracted ++ added) (s.root.toList ++ added)

theorem perm_candidates (recentFirst : Bool) (s : Store) :
    (Analysis.candidates recentFirst s).Perm s.cf := by
  unfold Analysis.candidates
  split
  · exact List.reverse_perm _
  · exact .refl _

section store

variable (hf : s.Faithful m) (hnd : (ids (s.ac ++ added)).Nodup) (hsub : retracted ⊆ s.cf)
include hf hnd hsub

/-- With the constraints that are left of the relationships as candidates and everything else in the
background, the question is well posed. -/
theorem poses_store (recentFirst : Bool) : Asked s recentFirst retracted added
    (subtract (Analysis.candidates recentFirst s) retracted) (s.root.toList ++ added) := by
  have hleft : subtract (Analysis.candidates recentFirst s) retracted ⊆ s.cf :=
    List.Subset.trans subtract_subset (candidates_subset recentFirst s)
  have hids : (ids (subtract (Analysis.candidates recentFirst s) retracted)).Nodup :=
    ids_subtract_nodup (ids_candidates_nodup hf.ids_cf_nodup recentFirst)
  have hapart := Store.ids_candidates_apart hnd hleft hids
  rw [ids_append, List.nodup_append] at hapart
  refine ⟨subtract_sublist, hids, fun c hc hi => hapart.2.2 _ (id_mem_ids hc) _ hi rfl, ?_,
    List.Subset.refl _⟩
  rw [hf.subtract_ac hsub, List.append_assoc]
  exact ((perm_candidates recentFirst s).filter _).append_right _

/-- Whatever is looked for in a search, down to any depth, fits. -/
theorem diagnose_explains (hposted : s.posted = subtract s.ac retracted ++ added)
    (hfits : ∀ candidates background, Asked s recentFirst retracted added candidates background →
      fits n candidates background) :
    Keeps (Explains fits n b)
      (diagnose limits (subtract (Analysis.candidates recentFirst s) retracted) s.background) := by
  have hposes := poses_store hf hnd hsub recentFirst
  have hdistinct : (ids (s.root.toList ++ added)).Nodup := by
    unfold Store.ac at hnd
    rw [List.append_assoc, ids_append] at hnd
    exact hnd.of_append_right
  -- The enumeration starts with nothing excluded, which leaves the background as it is.
  have hnone : union (s.root.toList ++ added) [] = s.root.toList ++ added := by
    rw [union_of_nodup (by rwa [List.append_nil]), List.append_nil]
  have he : setting.Stays (Asked s recentFirst retracted added) (Explains fits n b)
      fun _ => Explains fits n b := by
    refine ⟨Work.isConsistent_keeps explains_insensitive, fun k hk => ?_,
      Work.readClock_keeps explains_insensitive⟩
    refine Ensures.modify fun c hc => hc.push ?_ ?_ rfl
    · cases k <;> first | rfl | exact hk.elim
    · rintro candidates background rfl
      exact hfits _ _ hk
  rw [background_eq hnd hsub hposted]
  unfold diagnose
  refine Ensures.bind (first_stays he hposes) fun found => .assuming fun hfound => ?_
  refine Ensures.bind (enumerate_stays he (fun _ _ _ h => h) Poses.moved (fun _ _ h => h)
    (hnone.symm ▸ hposes) hfound) fun all => ?_
  split
  · refine Keeps.bind (Ensures.modify fun c hc => hc.push rfl ?_ rfl) fun _ => Keeps.pure all
    exact fun _ _ heq => Note.noConfusion heq
  · exact Keeps.pure all

end store

/-! ### Probes -/

variable {b₀ : Workbench}

theorem isConsistent_recounts {cs : List Constraint} (hsound : b.store.posting.Sound)
    (hcs : ∀ c ∈ cs, c.formula.vars ⊆ b.store.vars) (hb : Recounts fits b₀ b) :
    Ensures (· = b) (Work.isConsistent cs) (fun _ c => Recounts fits b₀ c ∧ c.store = b.store)
      fun _ => Recounts fits b₀ :=
  (((Work.isConsistent_keeps recounts_insensitive cs).inState hb).both
    ((Work.isConsistent_checked hsound hcs).inState (.refl b))).mono
    (fun _ _ h => ⟨h.1, h.2.2.store⟩) fun _ _ h => h.1

theorem announced_search_recounts {α : Type} {search : Workbench → Work Enumeration}
    {answer : Enumeration → α} (hn : n.announces = true) (hb : Recounts fits b₀ b)
    (hsearch : ∀ c, c.store = b.store → Keeps (Explains fits n b₀) (search c)) :
    Ensures (· = b) (do
        Work.note n
        let all ← search (← get)
        return answer all)
      (fun _ => Recounts fits b₀) fun _ => Recounts fits b₀ := by
  have hnoted : Ensures (· = b) (Work.note n)
      (fun _ c => Explains fits n b₀ c ∧ c.store = b.store) fun _ => Recounts fits b₀ := by
    rintro _ rfl
    exact ⟨hb.announce hn rfl, rfl⟩
  refine .bindState hnoted fun _ _ hc => .get_bind ?_
  rintro _ rfl
  exact .bind (((hsearch _ hc.2).inState hc.1).weakenFail fun _ _ => Explains.recounts) fun _ =>
    .pure fun _ => Explains.recounts

/-- What cannot go together with assignments is asked for right. -/
theorem diagnosed_explains {values : List (String × Bool)} (hb : Standing m b)
    (hvalues : ∀ x ∈ values, x.1 ∈ m.names) (hn : Explains fits n b₀ b)
    (hfits : ∀ candidates background,
      Asked b.store recentFirst [] (assignments b.store.nextId values) candidates background →
        fits n candidates background) :
    Ensures (· = b)
      (perturbation values >>= fun cs => Work.probe cs fun _ => do
        let s := (← get).store
        diagnose limits (Analysis.candidates recentFirst s) s.background)
      (fun _ => Explains fits n b₀) fun _ => Explains fits n b₀ := by
  have hnd := hb.faithful.ids_assignments_nodup values
  have hf : (b.perturbed values).store.Faithful m := hb.faithful.numbered (Nat.le_add_right _ _) _
  have hposted : (b.perturbed values).store.posted =
      subtract b.store.ac [] ++ assignments b.store.nextId values := by
    rw [subtract_nil]
    exact Store.posted_of_posting rfl
  have hsearch : Keeps (Explains fits n b₀) (diagnose limits
      (subtract (Analysis.candidates recentFirst (b.perturbed values).store) [])
      (b.perturbed values).store.background) :=
    diagnose_explains hf hnd (List.nil_subset _) hposted hfits
  rw [subtract_nil] at hsearch
  have hinside : Ensures (· = b.perturbed values) (do
      let s := (← get).store
      diagnose limits (Analysis.candidates recentFirst s) s.background)
      (fun _ => Explains fits n b₀) fun _ => Explains fits n b₀ := by
    apply Ensures.get_bind
    rintro _ rfl
    exact hsearch.inState hn
  intro c hc
  rw [hc, bind_eq_of_ok (Work.perturbation_eq fun x hx =>
    (hb.faithful.mem_vars x.1).mpr (hvalues x hx)), Work.probe_eq (b := b.numbered values.length) hnd]
  exact Work.closing_keeps explains_insensitive _ hinside _ rfl

/-- What no product can have is asked for right. -/
theorem diagnoseVoid_recounts (a : Analyzer) (hb : Standing m b) (hrecounts : Recounts fits b₀ b)
    (hfits : ∀ candidates background,
      Asked b.store a.config.recentFirst [] [] candidates background →
        fits .void candidates background) :
    Ensures (· = b) (Work.probe [] (diagnoseVoid a)) (fun _ => Recounts fits b₀)
      fun _ => Recounts fits b₀ := by
  have hnd : (ids (b.store.ac ++ [])).Nodup := by
    rw [List.append_nil]
    exact hb.faithful.ids_nodup
  have hf : (b.posting (b.store.ac ++ [])).store.Faithful m :=
    hb.faithful.numbered (Nat.le_refl _) _
  have hvars : ∀ c ∈ b.store.ac ++ [], c.formula.vars ⊆ m.names :=
    List.forall_mem_append.mpr ⟨hb.faithful.vars_ac_subset, List.forall_mem_nil _⟩
  have hposted : (b.posting (b.store.ac ++ [])).store.posted = subtract b.store.ac [] ++ [] := by
    rw [subtract_nil]
    exact Store.posted_of_posting rfl
  have hsearch : Keeps (Explains fits .void b₀) (diagnose a.limits
      (subtract (Analysis.candidates a.config.recentFirst (b.posting (b.store.ac ++ [])).store) [])
      (b.posting (b.store.ac ++ [])).store.background) :=
    diagnose_explains hf hnd (List.nil_subset _) hposted hfits
  rw [subtract_nil] at hsearch
  have hinside : Ensures (· = b.posting (b.store.ac ++ [])) (diagnoseVoid a (b.store.ac ++ []))
      (fun _ => Recounts fits b₀) fun _ => Recounts fits b₀ := by
    unfold diagnoseVoid
    refine .bindState (isConsistent_recounts (.of_nodup hnd) (hf.vars_of_names hvars) hrecounts) ?_
    rintro consistent d ⟨hd, hstore⟩
    cases consistent with
    | true =>
      have hnoted : Keeps (Recounts fits b₀) (Work.note .consistent) :=
        Ensures.modify fun _ h => h.push (fun _ _ => Note.noConfusion) rfl
      exact .bind (hnoted.inState hd) fun _ => .pure fun _ => id
    | false =>
      refine announced_search_recounts rfl hd fun t ht => ?_
      rw [ht, hstore]
      exact hsearch
  intro c hc
  rw [hc, Work.probe_eq hnd]
  exact Work.closing_keeps recounts_insensitive _ hinside _ rfl

/-- What a product would have to be like to break a constraint is asked for right. -/
theorem diagnoseImplied_recounts (a : Analyzer) {r : Relationship} (hr : r ∈ m.crossTree)
    (hb : Standing m b) (hrecounts : Recounts fits b₀ b)
    (hfits : ∀ rule x y rest, r.rule = .ok rule → r.left = .text x → r.right = .text y :: rest →
      ∀ candidates background,
        Asked b.store a.config.recentFirst (b.store.constraintsOf r) [b.opposite r x y]
          candidates background → fits (.redundant rule) candidates background) :
    Ensures (· = b) (Work.retracted r fun _ => diagnoseImplied a r) (fun _ => Recounts fits b₀)
      fun _ => Recounts fits b₀ := by
  obtain ⟨hkind, x, y, rest, hx, hy, hleft, hright⟩ := hb.faithful.crossTree r hr
  obtain ⟨rule, hrule⟩ := hb.faithful.rule r (List.mem_append_right _ hr)
  have hf : (b.replaced r x y).store.Faithful m := hb.faithful.numbered (Nat.le_add_right _ _) _
  have hsearch : Keeps (Explains fits (.redundant rule) b₀) (diagnose a.limits
      (subtract (Analysis.candidates a.config.recentFirst (b.replaced r x y).store)
        (b.store.constraintsOf r)) (b.replaced r x y).store.background) :=
    diagnose_explains hf (Work.ids_opposite_nodup hb r x y) (List.filter_subset_self _)
      (Store.posted_of_posting rfl) (hfits rule x y rest hrule hleft hright)
  have hinside : Ensures (· = b.replaced r x y) (diagnoseImplied a r) (fun _ => Recounts fits b₀)
      fun _ => Recounts fits b₀ := by
    unfold diagnoseImplied
    apply Ensures.get_bind
    rintro _ rfl
    refine .bindState (isConsistent_recounts (.of_nodup (Work.ids_replaced_nodup hb r x y))
      (hf.vars_of_names (vars_replaced_subset hb r hx hy)) hrecounts) ?_
    rintro consistent d ⟨hd, hstore⟩
    cases consistent with
    | true => exact .pureState hd
    | false =>
      simp only [hrule, orFail, pure_bind]
      refine announced_search_recounts rfl hd fun t ht => ?_
      rw [ht, hstore]
      exact hsearch
  intro c hc
  rw [hc, Work.retracted_eq hb hkind hleft hright ((hb.faithful.mem_vars x).mpr hx)
    ((hb.faithful.mem_vars y).mpr hy)]
  exact Work.closing_keeps recounts_insensitive _ hinside _ rfl

end Analysis
end Anomaly
end ProductLine

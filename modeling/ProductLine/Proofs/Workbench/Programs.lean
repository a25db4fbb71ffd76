import ProductLine.Proofs.Constraint.Translation
import ProductLine.Proofs.Workbench.Cancellation
import ProductLine.Workbench.Program

/-! # What programs leave of a store

However a program over a store goes, the store stays `Intact`: its constraints are those it was made
with, no number is posted twice, and the two copies of what is posted agree. One step keeps that, for
every way of putting programs together, and so does a whole run and every part of it (`points_intact`).

A scope does not hand the store back as it was found in every case. What is posted after it is
`Scope.restored`: a swap brings back what was posted before, but a probe and a retraction bring back
the baseline. So these two are felt outside exactly if they are opened away from the baseline. -/

namespace ProductLine

open Constraint

/-- The store has the variables and constraints of another one, and the two copies of what is posted
agree. -/
structure Store.Intact (s t : Store) : Prop where
  sound : t.posting.Sound
  vars : t.vars = s.vars
  cf : t.cf = s.cf
  root : t.root = s.root

/-- What is posted after a scope in which the work began with a store. -/
def Scope.restored (s : Store) : Scope → List Constraint
  | .swapped _ => s.posted
  | .probe _ => s.ac
  | .retracted _ => s.ac

/-- The store is intact, and no other store was made. -/
structure Workbench.Holds (s : Store) (edition : Nat) (b : Workbench) : Prop where
  intact : s.Intact b.store
  edition : b.edition = edition

/-! ### Stores -/

namespace Store

variable {s t : Store}

theorem Intact.ac (h : s.Intact t) : t.ac = s.ac := by
  unfold Store.ac
  rw [h.cf, h.root]

theorem Intact.change (h : s.Intact t) (c : Change) : s.Intact (c.apply t) := by
  have hreset : s.Intact t.reset := ⟨Posting.sound_empty.post _, h.vars, h.cf, h.root⟩
  cases c with
  | post cs => exact ⟨h.sound.post cs, h.vars, h.cf, h.root⟩
  | unpost cs => exact ⟨h.sound.unpost cs, h.vars, h.cf, h.root⟩
  | clear => exact ⟨Posting.sound_empty, h.vars, h.cf, h.root⟩
  | reset => exact hreset

theorem Intact.posting_reset (h : s.Intact t) (hnd : (ids s.ac).Nodup) :
    t.reset.posting = .of s.ac := by
  rw [reset_eq (h.ac ▸ hnd), h.ac]

theorem Intact.posting_clear_post (h : s.Intact t) (u : Store) :
    (u.clear.post t.posted).posting = .of t.posted := by
  rw [posting_post, posting_clear, posted, Posting.post_empty_of_nodup h.sound.nodup]

end Store

namespace Work

open Workbench

variable {P : Workbench → Prop} {s : Store} {n : Nat} {α : Type}

/-! ### Operations -/

theorem onStore_holds {f : Store → Store} (h : ∀ t, s.Intact t → s.Intact (f t)) :
    Keeps (Holds s n) (onStore f) :=
  Ensures.modify fun _ hb => ⟨h _ hb.intact, hb.edition⟩

theorem make_holds (f : Formula String) (role : Constraint.Role) (source : Option Relationship) :
    Keeps (Holds s n) (make f role source) := fun _ hb => ⟨{ hb.intact with }, hb.edition⟩

theorem variableOf_keeps (name : Value) : Keeps P (variableOf name) := by
  refine Keeps.get_bind fun b => (Keeps.orFail _).bind fun found => ?_
  cases found with
  | none => exact Keeps.throw _
  | some v => exact Keeps.pure v

/-- Only a relationship that goes across the tree has an opposite, and if it cannot be made, nothing
changes. -/
theorem negationOf_ensures {b : Workbench} (r : Relationship) : Ensures (· = b) (negationOf r)
    (fun made c => r.isCrossTree = true ∧ ∃ f, made = [(b.store.make f .negation (some r)).1] ∧
      c = { b with store := (b.store.make f .negation (some r)).2 }) fun _ c => c = b := by
  have hmade : r.isCrossTree = true → Ensures (· = b) (do
      let left ← variableOf r.left
      let right ← variableOf (← ProductLine.orFail (Encoding.firstRight r))
      return [← make (Encoding.negation r.kind left right) .negation (some r)])
      (fun made c => r.isCrossTree = true ∧ ∃ f, made = [(b.store.make f .negation (some r)).1] ∧
        c = { b with store := (b.store.make f .negation (some r)).2 }) fun _ c => c = b := by
    intro hcross
    refine Ensures.bind (variableOf_keeps _) fun left => Ensures.bind (Keeps.orFail _) fun first =>
      Ensures.bind (variableOf_keeps _) fun right => ?_
    rintro _ rfl
    exact ⟨hcross, _, rfl, rfl⟩
  have hrefused : ∀ rule, Ensures (· = b) (throw (.notNegatable rule) : Work PUnit)
      (fun _ _ => False) fun _ c => c = b := fun _ => Ensures.throw fun _ => id
  unfold negationOf
  split
  · next hcross => exact hmade hcross
  · exact Ensures.bind (Keeps.orFail _) fun rule => Ensures.bind (hrefused rule) fun _ _ => False.elim

theorem negationOf_keeps (hmake : ∀ f role source, Keeps P (make f role source)) (r : Relationship) :
    Keeps P (negationOf r) := by
  refine Ensures.ofState fun b hb => (negationOf_ensures r).mono ?_ ?_
  · rintro made c ⟨-, f, -, rfl⟩
    exact hmake f .negation (some r) b hb
  · rintro e c rfl
    exact hb

theorem passToken_preserves
    (h : ∀ c token, P c → P { c with world := { c.world with token := token } }) :
    Keeps P passToken := by
  refine Keeps.get_bind fun b => ?_
  split
  · exact Keeps.pure ()
  · unfold passing
    refine Keeps.bind (Ensures.modify fun c hc => h c _ hc) fun _ => ?_
    split
    · exact Keeps.throw _
    · exact Keeps.pure ()

theorem passToken_holds : Keeps (Holds s n) passToken :=
  passToken_preserves fun _ _ hc => ⟨hc.intact, hc.edition⟩

theorem note_holds (x : Journal.Note) : Keeps (Holds s n) (note x) :=
  Ensures.modify fun _ hb => ⟨hb.intact, hb.edition⟩

theorem takeAnswer_holds (constraints : Nat) (outcome : Except Oracle.Mishap Bool) :
    Keeps (Holds s n) (takeAnswer constraints outcome) := by
  cases outcome with
  | error mishap =>
    have hrecord : Keeps (Holds s n) (recordFailure ⟨mishap, constraints⟩) :=
      Keeps.bind (Ensures.modify fun c hc => ⟨hc.intact, hc.edition⟩) fun _ => note_holds _
    exact hrecord.bind fun _ => Keeps.pure false
  | ok answer => exact Keeps.get_bind fun b => (note_holds _).bind fun _ => Keeps.pure answer

theorem consult_holds (cs : List Constraint) : Keeps (Holds s n) (consult cs) := by
  have hcount : Keeps (Holds s n) countCall :=
    Keeps.bind (Ensures.modify fun c hc => ⟨hc.intact, hc.edition⟩) fun _ =>
      Keeps.get_bind fun b => Keeps.pure _
  unfold consult
  split
  · exact Keeps.pure true
  · exact hcount.bind fun fault => Keeps.get_bind fun b => takeAnswer_holds _ _

/-- What changes of the store keep is kept by work that is followed by one. -/
theorem closing_preserves {pre : Workbench → Prop} {change : Store → Store} {work : Work α}
    (hchange : ∀ c, P c → P { c with store := change c.store })
    (h : Ensures pre work (fun _ => P) fun _ => P) :
    Ensures pre (closing change work) (fun _ => P) fun _ => P := by
  refine Ensures.get_bind fun b hb => ?_
  have hend : ∀ c, P c →
      P (if c.edition = b.edition then { c with store := change c.store } else c) := by
    intro c hc
    split
    · exact hchange c hc
    · exact hc
  exact Ensures.always (h.inState hb) (fun _ => hend) fun _ => hend

theorem closing_holds {change : Store → Store} {work : Work α}
    (hchange : ∀ t, s.Intact t → s.Intact (change t)) (h : Keeps (Holds s n) work) :
    Keeps (Holds s n) (closing change work) :=
  closing_preserves (fun _ hc => ⟨hchange _ hc.intact, hc.edition⟩) h

end Work

/-! ### Scopes -/

namespace Scope

open Workbench

variable {s : Store} {n : Nat} {α : Type} {b inside : Workbench} {handed : List Constraint}

theorem around_eq (k : Scope) (work : List Constraint → Work α) :
    k.around work = k.opening >>= fun x => Work.closing x.2 (work x.1) := by
  cases k with
  | probe perturbation => rfl
  | swapped cs => rfl
  | retracted r =>
    funext b
    show ((do
      Work.onStore fun s => s.reset.unpost (b.store.constraintsOf r)
      let negation ← Work.negationOf r
      Work.onStore fun s => s.post negation
      Work.closing (fun s => ((s.unpost negation).post (b.store.constraintsOf r)).reset)
        (work negation) : Work α)) b = ((do
      Work.onStore fun s => s.reset.unpost (b.store.constraintsOf r)
      let negation ← Work.negationOf r
      Work.onStore fun s => s.post negation
      return (negation, fun s : Store =>
        ((s.unpost negation).post (b.store.constraintsOf r)).reset)) >>=
          fun x => Work.closing x.2 (work x.1)) b
    simp only [bind_assoc, pure_bind]

/-- The ending of a scope keeps every store intact and leaves the same posted in each. -/
def Ends (s : Store) (k : Scope) (b : Workbench) (ending : Store → Store) : Prop :=
  ∀ t, s.Intact t → s.Intact (ending t) ∧ (ending t).posting = .of (k.restored b.store)

/-- A scope is opened with the store kept intact, and with an ending to be relied on. -/
theorem opening_holds (hnd : (ids s.ac).Nodup) (k : Scope) (hb : Holds s n b) :
    Ensures (· = b) k.opening (fun x c => Holds s n c ∧ Ends s k b x.2) (fun _ c => Holds s n c) := by
  have hreset : ∀ t, s.Intact t → s.Intact t.reset ∧ t.reset.posting = .of b.store.ac :=
    fun t ht => ⟨ht.change .reset, by rw [ht.posting_reset hnd, hb.intact.ac]⟩
  cases k with
  | probe perturbation =>
    rintro _ rfl
    exact ⟨⟨(hb.intact.change .reset).change (.post perturbation), hb.edition⟩, hreset⟩
  | swapped cs =>
    rintro _ rfl
    exact ⟨⟨(hb.intact.change .clear).change (.post cs), hb.edition⟩, fun t ht =>
      ⟨(ht.change .clear).change (.post _), hb.intact.posting_clear_post t⟩⟩
  | retracted r =>
    have hopened : Keeps (Holds s n)
        (Work.onStore fun t => t.reset.unpost (b.store.constraintsOf r)) :=
      Work.onStore_holds fun t ht => (ht.change .reset).change (.unpost _)
    have hmade := (hopened.bind fun _ => Work.negationOf_keeps Work.make_holds r).inState hb
    have hposted : ∀ negation, Ensures (Holds s n) (do
        Work.onStore fun t => t.post negation
        return (negation, fun t : Store =>
          ((t.unpost negation).post (b.store.constraintsOf r)).reset))
        (fun x c => Holds s n c ∧ Ends s (.retracted r) b x.2) (fun _ c => Holds s n c) := by
      intro negation
      refine Ensures.bind (Work.onStore_holds fun t ht => ht.change (.post negation)) fun _ => ?_
      refine Ensures.pure fun c hc => ⟨hc, fun t ht => ?_⟩
      exact hreset _ ((ht.change (.unpost negation)).change (.post _))
    rintro _ rfl
    have hrun := Ensures.bind hmade hposted _ rfl
    rwa [bind_assoc] at hrun

theorem around_holds (hnd : (ids s.ac).Nodup) (k : Scope) {work : List Constraint → Work α}
    (h : ∀ handed, Keeps (Holds s n) (work handed)) : Keeps (Holds s n) (k.around work) := by
  rw [around_eq]
  refine Ensures.ofState fun b hb => Ensures.bind (opening_holds hnd k hb) fun x => ?_
  intro c hc
  exact Work.closing_holds (fun t ht => (hc.2 t ht).1) (h x.1) c hc.1

theorem Enters.holds (hnd : (ids s.ac).Nodup) {k : Scope} (h : k.Enters b handed inside)
    (hb : Holds s n b) : Holds s n inside := by
  obtain ⟨ending, hrun⟩ := h
  exact ((opening_holds hnd k hb).of_eq_ok rfl hrun).1

/-- After a scope that was entered, exactly what it restores is posted, however the work in it ends. -/
theorem posting_endState (hnd : (ids s.ac).Nodup) {k : Scope} {work : List Constraint → Work α}
    (henter : k.Enters b handed inside) (hb : Holds s n b)
    (hwork : Keeps (Holds s n) (work handed)) :
    (endState (k.around work b)).store.posting = .of (k.restored b.store) := by
  have hinside := henter.holds hnd hb
  obtain ⟨ending, hrun⟩ := henter
  have hopened := (opening_holds hnd k hb).of_eq_ok rfl hrun
  have hlast := hwork.endState hinside
  rw [around_eq, bind_eq_of_ok hrun, Work.closing_eq, endState_endIn,
    if_pos (hlast.edition.trans hinside.edition.symm)]
  exact (hopened.2 _ hlast.intact).2

end Scope

/-! ### Programs -/

namespace Program

open Workbench

variable {s : Store} {n : Nat} {α β : Type} {b c : Workbench}

theorem isConsistent_holds (hnd : (ids s.ac).Nodup) (cs : List Constraint) :
    Keeps (Holds s n) (Work.isConsistent cs) :=
  Work.passToken_holds.bind fun _ => (Scope.swapped cs).around_holds hnd Work.consult_holds

theorem caught_keeps {P : Workbench → Prop} {work : Work α} (h : Keeps P work) :
    Keeps P (caught work) := by
  intro b hb
  have hw := h b hb
  unfold caught
  cases hr : work b with
  | ok a c =>
    rw [hr] at hw
    exact hw
  | error e c =>
    rw [hr] at hw
    exact hw

theorem run_holds (hnd : (ids s.ac).Nodup) (p : Program α) : Keeps (Holds s n) p.run := by
  induction p with
  | done a => exact Keeps.pure a
  | raise e => exact Keeps.throw e
  | look => exact Keeps.get_bind fun b => Keeps.pure b.store
  | change c => exact Work.onStore_holds fun t ht => ht.change c
  | make f role source => exact Work.make_holds f role source
  | check cs => exact isConsistent_holds hnd cs
  | block k body ih => exact k.around_holds hnd ih
  | andThen first next ihfirst ihnext => exact ihfirst.bind ihnext
  | attempt p ih => exact caught_keeps ih

theorem leaves_eq (p : Program α) (b : Workbench) : p.leaves b = endState (p.run b) := by
  unfold leaves
  cases p.run b <;> rfl

section parts

variable {P : Workbench → Prop} (hrun : ∀ {γ : Type} (p : Program γ), Keeps P p.run)
  (henter : ∀ {k : Scope} {d inside : Workbench} {handed : List Constraint},
    k.Enters d handed inside → P d → P inside)
include hrun henter

/-- What programs and the openings of scopes keep holds where a part of a run begins. -/
theorem Part.keeps {q : Program β} {p : Program α} (h : Part q c p b) (hb : P b) : P c := by
  induction h with
  | whole => exact hb
  | first _ ih => exact ih hb
  | @next α γ p next b d a hreturned _ ih =>
    have hnext := hrun p b hb
    rw [hreturned] at hnext
    exact ih hnext
  | attempt _ ih => exact ih hb
  | inside hentered _ ih => exact ih (henter hentered hb)

theorem Point.keeps (hpass : Keeps P Work.passToken) {p : Program α} (h : Point p b c) (hb : P b) :
    P c := by
  cases h with
  | before hpart => exact hpart.keeps hrun henter hb
  | @behind β q d hpart =>
    rw [leaves_eq]
    exact (hrun q).endState (hpart.keeps hrun henter hb)
  | asking hpart hpassed hentered =>
    have hasking := hpass _ (hpart.keeps hrun henter hb)
    rw [hpassed] at hasking
    exact henter hentered hasking

end parts

theorem Part.holds (hnd : (ids s.ac).Nodup) {q : Program β} {p : Program α} (h : Part q c p b)
    (hb : Holds s n b) : Holds s n c :=
  h.keeps (run_holds hnd) (fun hentered hd => hentered.holds hnd hd) hb

theorem Point.holds (hnd : (ids s.ac).Nodup) {p : Program α} (h : Point p b c)
    (hb : Holds s n b) : Holds s n c :=
  h.keeps (run_holds hnd) (fun hentered hd => hentered.holds hnd hd) Work.passToken_holds hb

/-- After a scope that was entered in a run, exactly what it restores is posted. -/
theorem Part.posted_leaves (hnd : (ids s.ac).Nodup) {p : Program α} {k : Scope}
    {body : List Constraint → Program β} (h : Part (block k body) c p b) (hb : Holds s n b)
    {handed : List Constraint} {inside : Workbench} (henter : k.Enters c handed inside) :
    ((block k body).leaves c).store.posted = k.restored c.store := by
  rw [leaves_eq]
  exact Store.posted_of_posting
    (Scope.posting_endState hnd henter (h.holds hnd hb) ((body handed).run_holds hnd))

variable {m : FeatureModel} {o : FeatureOrder}

theorem holds_of_ofModel (hs : Store.ofModel m o = .ok s) (hb : b.store = s) :
    (ids s.ac).Nodup ∧ Holds s b.edition b := by
  obtain ⟨hfaithful, hposting⟩ := Store.faithful_of_attempt hs
  refine ⟨hfaithful.ids_nodup, ⟨⟨?_, ?_, ?_, ?_⟩, rfl⟩⟩
  · rw [hb, hposting]
    exact .of_nodup hfaithful.ids_nodup
  · rw [hb]
  · rw [hb]
  · rw [hb]

/-- **The store is sound under every program.** At every point of every program on a store that was made
of a model, no number is posted twice, the numbers that are taken are those of what is posted, and the
store has the constraints that were made of the model. After a swap that was entered, what was posted
before is posted again, in its order, and after a probe or a retraction that was entered the baseline
is; it does not matter what the work in the scope did and whether it failed. -/
theorem run_intact (hs : Store.ofModel m o = .ok s) (hb : b.store = s) (p : Program α) :
    (∀ c, Point p b c → (ids c.store.posted).Nodup ∧
      (∀ i, i ∈ c.store.posting.numbers ↔ i ∈ ids c.store.posted) ∧
      c.store.cf = s.cf ∧ c.store.ac = s.ac) ∧
    ∀ (β : Type) (k : Scope) (body : List Constraint → Program β) (c : Workbench)
      (handed : List Constraint) (inside : Workbench),
      Part (block k body) c p b → k.Enters c handed inside →
      match k with
      | .swapped _ => ((block k body).leaves c).store.posted = c.store.posted
      | .probe _ | .retracted _ => ((block k body).leaves c).store.posted = s.ac := by
  obtain ⟨hnd, hholds⟩ := holds_of_ofModel hs hb
  constructor
  · intro c hpoint
    have hc := (hpoint.holds hnd hholds).intact
    exact ⟨hc.sound.nodup, hc.sound.mem_numbers, hc.cf, hc.ac⟩
  · intro β k body c handed inside hpart henter
    have hposted := hpart.posted_leaves hnd hholds henter
    have hac := (hpart.holds hnd hholds).intact.ac
    cases k with
    | swapped cs => exact hposted
    | probe perturbation => exact hposted.trans hac
    | retracted r => exact hposted.trans hac

open FeatureModel in
/-- Adds a root and two features that products may do without, one of which requires the other. -/
def offer : Edit Unit := do
  addFeatures (.list [.text "Root", .text "A", .text "B"])
  discard (addRelationship .optional (.text "A") (.text "Root"))
  discard (addRelationship .optional (.text "B") (.text "Root"))
  discard (addConstraint .requires (.text "A") (.text "B"))

/-- A model that leaves something to choose. -/
def offered : FeatureModel := .edited offer (.empty (.text "offered"))

def offeredStore : Store :=
  match Store.ofModel offered .declared with
  | .ok s => s
  | .error _ => .empty

/-- A workbench with that store, at whose first check the engine runs out of time. -/
def bench : Workbench :=
  { Workbench.new offered .standard { World.calm with faults := [(1, .timeout)] } with
    store := offeredStore }

/-- In a retraction, everything is taken back, something is checked, and the work fails. -/
def careless : Program Unit :=
  block (.retracted ⟨some 2, .requires, .text "A", [.text "B"]⟩) fun negation =>
    andThen (change .clear) fun _ => andThen (check negation) fun _ => raise .cancelled

/-- Even then the baseline is posted again. -/
theorem run_intact_careless : Store.ofModel offered .declared = .ok bench.store ∧
    (∃ e, careless.run bench = .error e (careless.leaves bench)) ∧
    (careless.leaves bench).store.posted = bench.store.ac ∧
    (ids (careless.leaves bench).store.posted).Nodup := by
  have hs : Store.ofModel offered .declared = .ok bench.store := rfl
  obtain ⟨hpoints, hscopes⟩ := run_intact hs rfl careless
  exact ⟨hs, ⟨.cancelled, rfl⟩, hscopes _ _ _ _ _ _ .whole ⟨_, rfl⟩, (hpoints _ (.behind .whole)).1⟩

/-- **When a scope is not felt outside.** After a scope that was entered at any point of any program the
same is posted as before it exactly if the scope is a swap or was opened at the baseline. -/
theorem block_restores_iff (hs : Store.ofModel m o = .ok s) (hb : b.store = s) {p : Program α}
    {k : Scope} {body : List Constraint → Program β} (hpart : Part (block k body) c p b)
    {handed : List Constraint} {inside : Workbench} (henter : k.Enters c handed inside) :
    ((block k body).leaves c).store.posted = c.store.posted ↔
      (∃ cs, k = .swapped cs) ∨ c.store.posted = s.ac := by
  obtain ⟨hnd, hholds⟩ := holds_of_ofModel hs hb
  have hac := (hpart.holds hnd hholds).intact.ac
  rw [hpart.posted_leaves hnd hholds henter]
  -- both scopes that are no swap bring back the baseline
  have hbaseline : (∀ cs, k ≠ .swapped cs) → (s.ac = c.store.posted ↔
      (∃ cs, k = .swapped cs) ∨ c.store.posted = s.ac) := fun hk =>
    eq_comm.trans (or_iff_right fun ⟨cs, h⟩ => hk cs h).symm
  cases k with
  | swapped cs => exact iff_of_true rfl (.inl ⟨cs, rfl⟩)
  | probe perturbation =>
    rw [Scope.restored, hac]
    exact hbaseline fun cs h => nomatch h
  | retracted r =>
    rw [Scope.restored, hac]
    exact hbaseline fun cs h => nomatch h

/-- The constraint that a product has one of the features. -/
def wish : Constraint := ⟨4, .var "A", .assignment, none⟩

/-- A probe for nothing at all, in which nothing is done. -/
def idling : Program Unit := block (.probe []) fun _ => done ()

def overlaid : Program Unit := block (.probe [wish]) fun _ => idling

/-- The workbench on which the inner probe is opened. -/
def wishful : Workbench := { bench with store := bench.store.reset.post [wish] }

theorem part_overlaid : Part idling wishful overlaid bench := .inside ⟨_, rfl⟩ .whole

/-- A probe does not in every case hand the store back as it was found. -/
theorem not_block_restores : ¬∀ (m : FeatureModel) (o : FeatureOrder) (b : Workbench)
    (p : Program Unit), Store.ofModel m o = .ok b.store → ∀ (k : Scope)
      (body : List Constraint → Program Unit) (c : Workbench) (handed : List Constraint)
      (inside : Workbench), Part (block k body) c p b → k.Enters c handed inside →
        ((block k body).leaves c).store.posted = c.store.posted := by
  intro h
  have hsame : (idling.leaves wishful).store.posted = wishful.store.posted :=
    h offered .declared bench overlaid rfl (.probe []) _ wishful _ _ part_overlaid ⟨_, rfl⟩
  exact absurd (congrArg ids hsame) (by decide)

/-- The outer probe, which is opened at the baseline, is not felt outside; the inner one is, which is
opened away from it. -/
theorem block_restores_iff_overlaid :
    (overlaid.leaves bench).store.posted = bench.store.posted ∧
      (idling.leaves wishful).store.posted ≠ wishful.store.posted := by
  have hs : Store.ofModel offered .declared = .ok bench.store := rfl
  constructor
  · exact (block_restores_iff hs rfl .whole ⟨_, rfl⟩).mpr (.inr rfl)
  · intro h
    rcases (block_restores_iff hs rfl part_overlaid ⟨_, rfl⟩).mp h with ⟨cs, hk⟩ | hbase
    · nomatch hk
    · exact absurd (congrArg ids hbase) (by decide)

end Program
end ProductLine

import Mathlib.Data.List.ReduceOption
import ProductLine.Anomaly.Probes
import ProductLine.Proofs.Diagnosis.Cancellation
import ProductLine.Proofs.Workbench.Checks

/-! # Work on a workbench that is called off

Without a token, work on a workbench is free; with one that lets some checks pass, it follows the free
work (`Workbench.budget`). Every check of an analysis is made of a list with the selected root in it,
so that it calls the engine and leaves a note of what came of it (`isConsistent_shadows`). What is
posted has the root as well, before and after every scope (`Unlimited`). -/

namespace ProductLine

open Constraint Journal

namespace Workbench

variable {b c d : Workbench}

/-- The notes of the second workbench are those of the first one and more, and the calls and failures
are those that the further notes tell of. -/
def Onward (b c : Workbench) : Prop :=
  ∃ noted, c.world.notes.toList = b.world.notes.toList ++ noted ∧
    c.calls = b.calls + (outcomes noted).length ∧
    c.failures = b.failures ++ (outcomes noted).reduceOption

theorem Onward.refl (b : Workbench) : Onward b b :=
  ⟨[], (List.append_nil _).symm, rfl, (List.append_nil _).symm⟩

theorem Onward.trans (h : Onward b c) (h' : Onward c d) : Onward b d := by
  obtain ⟨noted, hnotes, hcalls, hfailures⟩ := h
  obtain ⟨more, hmore, hcalls', hfailures'⟩ := h'
  refine ⟨noted ++ more, ?_, ?_, ?_⟩
  · rw [hmore, hnotes, List.append_assoc]
  · rw [hcalls', hcalls, outcomes_append, List.length_append, Nat.add_assoc]
  · rw [hfailures', hfailures, outcomes_append, List.reduceOption_append, List.append_assoc]

theorem Onward.calls_le (h : Onward b c) : b.calls ≤ c.calls := by
  obtain ⟨noted, -, hcalls, -⟩ := h
  rw [hcalls]
  exact Nat.le_add_right _ _

/-- Work under a token that lets a number of checks pass, or all of them. -/
def budget (most : Option Nat) : Budget Workbench where
  most := most
  checks := (·.calls)
  limited b := b.under (some ⟨false, b.calls, most⟩)
  Onward := Onward
  refl := Onward.refl
  trans := Onward.trans
  checks_le := Onward.calls_le

/-- The workbench after a call of the engine: what came of it is counted and noted. -/
def told (b : Workbench) (o : Option Oracle.SolverFailure) (n : Note) : Workbench :=
  { b with
    calls := b.calls + 1
    failures := b.failures ++ o.toList
    world := { b.world with calls := b.world.calls + 1, notes := b.world.notes.push n } }

theorem onward_told {o : Option Oracle.SolverFailure} {n : Note} (h : n.outcome? = some o) :
    Onward b (b.told o n) := by
  refine ⟨[n], Array.toList_push, ?_, ?_⟩
  · rw [outcomes_eq_singleton h]
    rfl
  · rw [outcomes_eq_singleton h]
    cases o <;> rfl

theorem onward_noted {n : Note} (h : n.outcome? = none) :
    Onward b { b with world := { b.world with notes := b.world.notes.push n } } := by
  refine ⟨[n], Array.toList_push, ?_, ?_⟩
  · rw [outcomes_eq_nil h]
    rfl
  · rw [outcomes_eq_nil h]
    exact (List.append_nil _).symm

/-- There is no token, and the root, which belongs to no relationship, is posted. -/
structure Unlimited (b : Workbench) : Prop where
  free : b.world.token = none
  root : ∃ c, b.store.root = some c ∧ c.id ∉ ids b.store.cf ∧ c.id ∈ ids b.store.posted

theorem Unlimited.onStore (h : Unlimited b) {s : Store} (hcf : s.cf = b.store.cf)
    (hroot : s.root = b.store.root)
    (hposted : ∀ c, b.store.root = some c → c.id ∉ ids b.store.cf → c.id ∈ ids b.store.posted →
      c.id ∈ ids s.posted) : Unlimited { b with store := s } := by
  obtain ⟨c, hc, hnot, hin⟩ := h.root
  exact ⟨h.free, c, hroot.trans hc, hcf.symm ▸ hnot, hposted c hc hnot hin⟩

theorem mem_ids_reset {s : Store} {c : Constraint} (h : s.root = some c) :
    c.id ∈ ids s.reset.posted := by
  refine Posting.mem_ids_post_empty.mpr (id_mem_ids (List.mem_append_right _ ?_))
  rw [h]
  exact List.mem_singleton_self c

theorem Unlimited.reset (h : Unlimited b) : Unlimited { b with store := b.store.reset } :=
  h.onStore rfl rfl fun _ hc _ _ => mem_ids_reset hc

end Workbench

/-- What the engine says about constraints when it is asked next. -/
def Workbench.reply (b : Workbench) (cs : List Constraint) : Except Oracle.Mishap Bool :=
  Oracle.solve b.settings (b.world.faults.lookup (b.world.calls + 1)) cs

/-- The failure that the engine's reply about so many constraints is, if it gives no answer. -/
def Oracle.failure? (constraints : Nat) : Except Oracle.Mishap Bool → Option Oracle.SolverFailure
  | .error mishap => some ⟨mishap, constraints⟩
  | .ok _ => none

/-- The note of the engine's reply about so many constraints. -/
def Journal.Note.ofReply (calls constraints : Nat) : Except Oracle.Mishap Bool → Journal.Note
  | .error mishap => .solverFailed ⟨mishap, constraints⟩
  | .ok answer => .checked calls constraints answer

theorem Journal.Note.outcome?_ofReply (calls constraints : Nat) (r : Except Oracle.Mishap Bool) :
    (Note.ofReply calls constraints r).outcome? = some (Oracle.failure? constraints r) := by
  cases r <;> rfl

/-- Whether the engine affirms that constraints can hold together if no fault hits the call; it is not
asked about no constraints at all. -/
def Oracle.affirms (settings : Oracle.Settings) (cs : List Constraint) : Bool :=
  cs.isEmpty || (Oracle.solve settings none cs).toOption.getD false

/-- There is no token, or one that lets the next check pass. -/
def World.Permits (w : World) : Prop := ∀ t, w.token = some t → t.check.cancelled = false

namespace Work

open Workbench

variable {most : Option Nat} {α : Type} {cs : List Constraint}

/-! ### Checks -/

theorem closing_eq (change : Store → Store) (work : Work α) (b : Workbench) :
    closing change work b = endIn (fun c => if c.edition = b.edition then
      { c with store := change c.store } else c) (work b) := by
  have hclosed : closing change work b = always (fun c => if c.edition = b.edition then
      { c with store := change c.store } else c) work b := rfl
  rw [hclosed]
  unfold always
  cases work b <;> rfl

theorem closing_eq_of_ok (change : Store → Store) {work : Work α} {b c : Workbench} {a : α}
    (h : work b = .ok a c) (hedition : c.edition = b.edition) :
    closing change work b = .ok a { c with store := change c.store } := by
  rw [closing_eq, h, endIn, if_pos hedition]

/-- The engine is asked about constraints, and its reply is noted. No answer counts as no. -/
theorem consult_eq (hcs : cs ≠ []) (b : Workbench) : consult cs b =
    .ok ((b.reply cs).toOption.getD false) (b.told (Oracle.failure? cs.length (b.reply cs))
      (.ofReply (b.calls + 1) cs.length (b.reply cs))) := by
  have hask : consult cs b = takeAnswer cs.length (b.reply cs)
      { b with calls := b.calls + 1, world := { b.world with calls := b.world.calls + 1 } } := by
    unfold consult
    rw [List.isEmpty_eq_false_iff.mpr hcs]
    rfl
  rw [hask]
  cases b.reply cs with
  | ok answer =>
    unfold Workbench.told Oracle.failure?
    rw [Option.toList_none, List.append_nil]
    rfl
  | error mishap => rfl

/-- Of the world around, only the faults and the number of calls matter to what the engine replies. -/
theorem consult_told (hcs : cs ≠ []) (b : Workbench) :
    ∃ answer o n, (b.world.faults = [] → answer = Oracle.affirms b.settings cs) ∧
      n.outcome? = some o ∧ ∀ w : World, w.faults = b.world.faults → w.calls = b.world.calls →
        consult cs { b with world := w } = .ok answer ({ b with world := w }.told o n) := by
  refine ⟨(b.reply cs).toOption.getD false, _, _, ?_,
    Note.outcome?_ofReply (b.calls + 1) cs.length (b.reply cs), ?_⟩
  · intro hfaults
    unfold Oracle.affirms Workbench.reply
    rw [hfaults, List.isEmpty_eq_false_iff.mpr hcs, Bool.false_or]
    rfl
  · intro w hfaults hcalls
    have hreply : Workbench.reply { b with world := w } cs = b.reply cs := by
      unfold Workbench.reply
      rw [← hfaults, ← hcalls]
    rw [consult_eq hcs, hreply]

theorem swapped_told (hcs : cs ≠ []) (b : Workbench) :
    ∃ answer o n, (b.world.faults = [] → answer = Oracle.affirms b.settings (post [] cs)) ∧
      n.outcome? = some o ∧ ∀ w : World, w.faults = b.world.faults → w.calls = b.world.calls →
        swapped cs consult { b with world := w } = .ok answer
          { { b with world := w }.told o n with store := b.store.clear.post b.store.posted } := by
  obtain ⟨answer, o, n, hanswer, ho, hrun⟩ :=
    consult_told (post_ne_nil hcs) (b.posting (post [] cs))
  refine ⟨answer, o, n, hanswer, ho, fun w hfaults hcalls => ?_⟩
  have hclosed := closing_eq_of_ok (fun s => s.clear.post b.store.posted) (hrun w hfaults hcalls) rfl
  rw [swapped_eq]
  exact hclosed

theorem passToken_of_permits {b : Workbench} (h : b.world.Permits) :
    passToken b = .ok () (b.under (b.world.token.map .check)) := by
  have hsame : b.under b.world.token = b := rfl
  cases htoken : b.world.token with
  | none =>
    have hpass : passToken (b.under none) = .ok () (b.under none) := rfl
    rw [htoken] at hsame
    rw [hsame] at hpass
    exact hpass.trans (congrArg _ hsame.symm)
  | some t =>
    have hpass : passToken (b.under (some t)) = passing t.check (b.under (some t)) := rfl
    have hopen : passing t.check (b.under (some t)) = .ok () (b.under (some t.check)) := by
      unfold passing
      rw [h t htoken]
      rfl
    rw [htoken] at hsame
    rw [hopen, hsame] at hpass
    exact hpass

theorem passToken_of_lt {b : Workbench} (h : ∀ m, most = some m → b.calls < m) :
    passToken (b.under (some ⟨false, b.calls, most⟩)) =
      .ok () (b.under (some ⟨false, b.calls + 1, most⟩)) := by
  have hpass : (⟨false, b.calls, most⟩ : CancelToken).check = ⟨false, b.calls + 1, most⟩ := by
    have hany : most.any (fun m => decide (m ≤ b.calls)) = false := by
      cases most with
      | none => rfl
      | some m => exact decide_eq_false (Nat.not_le_of_lt (h m rfl))
    unfold CancelToken.check
    rw [hany]
    rfl
  have hpermits : (b.under (some ⟨false, b.calls, most⟩)).world.Permits := by
    rintro _ ⟨⟩
    rw [hpass]
  rw [← hpass]
  exact passToken_of_permits hpermits

theorem passToken_of_eq {b : Workbench} (h : most = some b.calls) :
    passToken (b.under (some ⟨false, b.calls, most⟩)) =
      .error .cancelled (b.under (some ⟨true, b.calls, most⟩)) := by
  have hrefuse : (⟨false, b.calls, most⟩ : CancelToken).check = ⟨true, b.calls, most⟩ := by
    have hany : most.any (fun m => decide (m ≤ b.calls)) = true := by
      rw [h]
      exact decide_eq_true (Nat.le_refl _)
    unfold CancelToken.check
    rw [hany]
    rfl
  have hrun : passToken (b.under (some ⟨false, b.calls, most⟩)) =
      passing (⟨false, b.calls, most⟩ : CancelToken).check
        (b.under (some ⟨false, b.calls, most⟩)) := rfl
  rw [hrun, hrefuse]
  rfl

/-- A check that passes is one more for the token, and the one after the last is refused. -/
theorem isConsistent_shadows (hcs : cs ≠ []) :
    (budget most).Shadows Unlimited (isConsistent cs) fun _ => Unlimited := by
  intro b hb
  obtain ⟨answer, o, n, -, ho, htold⟩ := swapped_told hcs b
  have hrun : ∀ token, swapped cs consult (b.under token) = .ok answer
      ({ b.told o n with store := b.store.clear.post b.store.posted }.under token) :=
    fun token => htold (b.world.under token) rfl rfl
  have hfree : b.under none = b := by
    unfold Workbench.under World.under
    rw [← hb.free]
  have hpass : passToken b = .ok () b := by
    have hnone : passToken (b.under none) = .ok () (b.under none) := rfl
    rw [hfree] at hnone
    exact hnone
  have hask : isConsistent cs b = swapped cs consult b := bind_eq_of_ok hpass
  rw [hask, ← hfree, hrun none]
  have honward : Onward b
      ({ b.told o n with store := b.store.clear.post b.store.posted }.under none) :=
    onward_told ho
  have hroot : Unlimited
      ({ b.told o n with store := b.store.clear.post b.store.posted }.under none) := by
    obtain ⟨c, hc, hnot, hin⟩ := hb.root
    exact ⟨rfl, c, hc, hnot, Posting.mem_ids_post_empty.mpr hin⟩
  refine ⟨⟨hroot, honward⟩, fun hopen => ?_⟩
  by_cases hlast : most = some b.calls
  · -- the check is the first one beyond those that pass
    refine .inr ⟨b.under (some ⟨true, b.calls, most⟩), bind_eq_of_error (passToken_of_eq hlast),
      Onward.refl b, hlast, Nat.lt_succ_self _, onward_told ho⟩
  · have hlt : ∀ m, most = some m → b.calls < m := fun m hm =>
      Nat.lt_of_le_of_ne (hopen m hm) fun heq => hlast (heq ▸ hm)
    exact .inl ⟨hlt, (bind_eq_of_ok (passToken_of_lt hlt)).trans (hrun _)⟩

/-! ### Notes, the clock and the store -/

theorem note_shadows {n : Note} (h : n.outcome? = none) {I : Workbench → Prop}
    (hI : ∀ b, I b → I { b with world := { b.world with notes := b.world.notes.push n } }) :
    (budget most).Shadows I (note n) fun _ => I :=
  .modify (fun _ => rfl) (fun _ => rfl) (fun _ _ => onward_noted h) hI

theorem readClock_shadows : (budget most).Shadows Unlimited readClock fun _ => Unlimited := by
  refine .ofReturn (a := fun b => b.world.clock) (f := fun b => { b with world := b.world.tick })
    (fun _ _ => rfl) ?_ (fun _ => rfl) ?_ ?_
  · intro b _
    have hrun : readClock ((budget most).limited b) = .ok b.world.clock { b with
        world := (b.world.under (some ⟨false, b.calls, most⟩)).tick } := rfl
    rw [hrun, World.tick_under]
    rfl
  · intro b _
    have hnotes : b.world.tick.notes = b.world.notes := by
      unfold World.tick
      split <;> rfl
    exact ⟨[], by rw [hnotes, List.append_nil], rfl, (List.append_nil _).symm⟩
  · intro b hb
    exact ⟨(World.token_tick _).trans hb.free, hb.root⟩

/-- The setting of diagnoses is watched as long as the root is asked about. -/
theorem setting_watched (i : Int) :
    Anomaly.Analysis.setting.Watched (budget most) Unlimited i where
  isConsistent cs hi := isConsistent_shadows fun hnil => by
    rw [hnil] at hi
    exact List.not_mem_nil hi
  note _ h := note_shadows h fun _ hb => ⟨hb.free, hb.root⟩
  readClock := readClock_shadows

theorem onStore_shadows {change : Store → Store} {pre post : Workbench → Prop}
    (h : ∀ b, pre b → post { b with store := change b.store }) :
    (budget most).Shadows pre (onStore change) fun _ => post :=
  .modify (fun _ => rfl) (fun _ => rfl) (fun b _ => .refl b) h

/-- Work in a scope may be called off; the scope is closed all the same. -/
theorem closing_shadows {change : Store → Store} {work : Work α} {pre : Workbench → Prop}
    (h : (budget most).Shadows pre work fun _ => Unlimited)
    (hchange : ∀ b, Unlimited b → Unlimited { b with store := change b.store }) :
    (budget most).Shadows pre (closing change work) fun _ => Unlimited := by
  unfold closing
  refine .get_bind (fun _ _ => rfl) fun b hb => ?_
  refine .always (h.inState hb) ?_ ?_ ?_ ?_ ?_
  · intro c
    show (if c.edition = b.edition then _ else _) = _
    split <;> rfl
  · intro c
    split <;> rfl
  · intro c d hcd
    split
    · exact hcd
    · exact hcd
  · intro c d hcd
    split
    · exact hcd
    · exact hcd
  · intro _ c hc
    split
    · exact hchange c hc
    · exact hc

theorem probe_shadows {work : List Constraint → Work α}
    (h : ∀ posted, (budget most).Shadows (fun b => Unlimited b ∧ b.store.posted = posted)
      (work posted) fun _ => Unlimited) :
    (budget most).Shadows Unlimited (probe cs work) fun _ => Unlimited := by
  have hopened : (budget most).Shadows Unlimited (onStore fun s => s.reset.post cs)
      fun _ => Unlimited := onStore_shadows fun b hb =>
    hb.reset.onStore rfl rfl fun _ _ _ hin => List.map_subset _ Posting.listed_subset_post hin
  unfold probe
  apply Budget.Shadows.bind hopened
  intro _
  refine .get_bind (fun _ _ => rfl) fun b hb => ?_
  exact closing_shadows ((h b.store.posted).inState ⟨hb, rfl⟩) fun _ hc => hc.reset

/-! ### Perturbations and opposites -/

theorem make_shadows (f : Formula String) (role : Constraint.Role) (source : Option Relationship) :
    (budget most).Shadows Unlimited (make f role source) fun _ => Unlimited :=
  .ofReturn (a := fun b => (b.store.make f role source).1)
    (f := fun b => { b with store := (b.store.make f role source).2 }) (fun _ _ => rfl)
    (fun _ _ => rfl) (fun _ => rfl) (fun b _ => .refl b) fun _ hb =>
    hb.onStore rfl rfl fun _ _ _ hin => hin

theorem variableOf_shadows (name : Value) :
    (budget most).Shadows Unlimited (variableOf name) fun _ => Unlimited := by
  unfold variableOf
  refine .get_bind (fun _ _ => rfl) fun b hb => ?_
  have hfind : b.store.find? name ≠ .error .cancelled := by
    unfold Store.find?
    split
    · exact fun h => nomatch h
    · exact fun h => nomatch h
  have hfound : (budget most).Shadows (· = b) (orFail (b.store.find? name)) fun _ => Unlimited :=
    .orFail (fun _ _ _ hc => hc ▸ hb) hfind
  apply Budget.Shadows.bind hfound
  intro v
  split
  · exact .pure fun _ => id
  · exact .throw fun h => nomatch h

theorem assign_shadows (name : Value) (value : Bool) :
    (budget most).Shadows Unlimited (assign name value) fun _ => Unlimited := by
  unfold assign
  apply Budget.Shadows.bind (variableOf_shadows name)
  intro v
  exact make_shadows _ _ _

theorem perturbation_shadows (values : List (String × Bool)) :
    (budget most).Shadows Unlimited (Anomaly.Analysis.perturbation values) fun _ => Unlimited :=
  .mapM fun x _ => assign_shadows (.text x.1) x.2

theorem rule_ne_cancelled (r : Relationship) : r.rule ≠ .error .cancelled := by
  unfold Relationship.rule
  split
  · apply Outcome.bind_ne_error
    · apply Outcome.mapM_ne_error
      intro v
      cases v <;> exact fun h => nomatch h
    · exact fun _ h => nomatch h
  · split
    · exact fun h => nomatch h
    · exact fun h => nomatch h

theorem firstRight_ne_cancelled (r : Relationship) :
    Encoding.firstRight r ≠ .error .cancelled := by
  unfold Encoding.firstRight
  split
  · exact fun h => nomatch h
  · exact fun h => nomatch h

theorem negationOf_shadows (r : Relationship) :
    (budget most).Shadows Unlimited (negationOf r) fun _ => Unlimited := by
  have hmade : (budget most).Shadows Unlimited (do
      let left ← variableOf r.left
      let right ← variableOf (← orFail (Encoding.firstRight r))
      return [← make (Encoding.negation r.kind left right) .negation (some r)])
      fun _ => Unlimited := by
    apply Budget.Shadows.bind (variableOf_shadows _)
    intro left
    apply Budget.Shadows.bind (.orFail (fun _ _ _ => id) (firstRight_ne_cancelled r))
    intro first
    apply Budget.Shadows.bind (variableOf_shadows _)
    intro right
    apply Budget.Shadows.bind (make_shadows _ _ _)
    intro c
    exact .pure fun _ => id
  unfold negationOf
  dsimp only
  split
  · exact hmade
  · apply Budget.Shadows.bind (.orFail (fun _ _ _ => id) (rule_ne_cancelled r))
    intro rule
    have hrefused : (budget most).Shadows Unlimited
        (throw (.notNegatable rule) : Work PUnit) fun _ => Unlimited := .throw fun h => nomatch h
    apply Budget.Shadows.bind hrefused
    intro _
    exact hmade

/-- The root is none of the constraints that are taken back. -/
theorem retracted_shadows (r : Relationship) {work : List Constraint → Work α}
    (h : ∀ negation, (budget most).Shadows Unlimited (work negation) fun _ => Unlimited) :
    (budget most).Shadows Unlimited (retracted r work) fun _ => Unlimited := by
  unfold retracted
  refine .get_bind (fun _ _ => rfl) fun b hb => ?_
  have hgroup : ids (b.store.constraintsOf r) ⊆ ids b.store.cf :=
    List.map_subset _ (List.filter_subset_self _)
  have hopened : (budget most).Shadows (· = b)
      (onStore fun s => s.reset.unpost (b.store.constraintsOf r)) fun _ => Unlimited := by
    apply onStore_shadows
    rintro _ rfl
    exact hb.reset.onStore rfl rfl fun c _ hnot hin =>
      Posting.mem_ids_unpost hin fun hi => hnot (hgroup hi)
  apply Budget.Shadows.bind hopened
  intro _
  apply Budget.Shadows.bind (negationOf_shadows r)
  intro negation
  have hposted : (budget most).Shadows Unlimited (onStore fun s => s.post negation)
      fun _ => Unlimited := onStore_shadows fun c hc =>
    hc.onStore rfl rfl fun _ _ _ hin => List.map_subset _ Posting.listed_subset_post hin
  apply Budget.Shadows.bind hposted
  intro _
  exact closing_shadows (h negation) fun c hc => { hc.reset with }

/-! ### Making the store -/

/-- The workbench once the making of its store was attempted: relationships may be attached to
constraints, and there may be a warning. -/
def attempted (b : Workbench) (o : FeatureOrder) : Workbench :=
  let attempt := Store.attempt b.model o
  let c := { b with attached := attempt.attached.getD b.attached }
  if attempt.unreachable.isEmpty then c
  else { c with world := { c.world with
    notes := c.world.notes.push (.unreachable (b.model.features.head?.elim "" (·.name))
      attempt.unreachable) } }

theorem build_eq (o : FeatureOrder) (b : Workbench) :
    build o b = match (Store.attempt b.model o).outcome with
      | .ok s => .ok () { attempted b o with
          store := s
          edition := (attempted b o).edition + 1
          calls := 0
          failures := []
          world := { (attempted b o).world with
            notes := (attempted b o).world.notes.push
              (.storeMade b.model.name s.vars.length s.cf.length) } }
      | .error e => .error e (attempted b o) := by
  have hopen : build o b = (do
      let s ← orFail (Store.attempt b.model o).outcome
      modify fun c => { c with store := s, edition := c.edition + 1, calls := 0, failures := [] }
      note (.storeMade b.model.name s.vars.length s.cf.length) : Work Unit) (attempted b o) := by
    unfold build attempted
    refine (bind_eq_of_ok rfl).trans ((bind_eq_of_ok rfl).trans ?_)
    dsimp only
    split
    · rfl
    · rfl
  rw [hopen]
  cases (Store.attempt b.model o).outcome with
  | ok s => rfl
  | error e => rfl

theorem attempted_under (o : FeatureOrder) (b : Workbench) (token : Option CancelToken) :
    attempted (b.under token) o = (attempted b o).under token := by
  have hattempt : Store.attempt (b.under token).model o = Store.attempt b.model o := rfl
  unfold attempted
  rw [hattempt]
  dsimp only
  split
  · rfl
  · rfl

theorem build_under (o : FeatureOrder) (b : Workbench) (token : Option CancelToken) :
    build o (b.under token) = endIn (·.under token) (build o b) := by
  have hattempt : Store.attempt (b.under token).model o = Store.attempt b.model o := rfl
  rw [build_eq, build_eq, attempted_under, hattempt]
  cases (Store.attempt b.model o).outcome with
  | ok s => rfl
  | error e => rfl
/-! ### Diagnoses -/

/-- The root is in the background, and none of the candidates is. -/
theorem diagnose_shadows {limits : Diagnosis.Limits} {candidates background : List Constraint}
    {i : Int} (hi : i ∈ ids background) (hc : i ∉ ids candidates) :
    (budget most).Shadows Unlimited (Anomaly.Analysis.diagnose limits candidates background)
      fun _ => Unlimited := by
  unfold Anomaly.Analysis.diagnose
  apply Budget.Shadows.bind (Diagnosis.first_shadows (setting_watched i) hi hc)
  intro found
  apply Budget.Shadows.bind (Diagnosis.enumerate_shadows (setting_watched i) hi hc found)
  intro all
  split
  · apply Budget.Shadows.bind (note_shadows rfl fun _ hb => ⟨hb.free, hb.root⟩)
    intro _
    exact .pure fun _ => id
  · exact .pure fun _ => id

/-- Whatever part of the relationships the candidates are, the root is none of them. -/
theorem diagnose_store_shadows {limits : Diagnosis.Limits} {recentFirst : Bool}
    {b : Workbench} (hb : Unlimited b) (group : List Constraint) :
    (budget most).Shadows (· = b) (Anomaly.Analysis.diagnose limits
      (subtract (Anomaly.Analysis.candidates recentFirst b.store) group) b.store.background)
      fun _ => Unlimited := by
  obtain ⟨c, -, hnot, hin⟩ := hb.root
  refine (diagnose_shadows (mem_ids_subtract.mpr ⟨hin, hnot⟩) fun hi => hnot ?_).inState hb
  have hall := (mem_ids_subtract.mp hi).1
  unfold Anomaly.Analysis.candidates at hall
  split at hall
  · rw [ids_reverse, List.mem_reverse] at hall
    exact hall
  · exact hall

theorem diagnose_candidates_shadows {limits : Diagnosis.Limits} {recentFirst : Bool}
    {b : Workbench} (hb : Unlimited b) :
    (budget most).Shadows (· = b) (Anomaly.Analysis.diagnose limits
      (Anomaly.Analysis.candidates recentFirst b.store) b.store.background) fun _ => Unlimited := by
  have hdiagnose : (budget most).Shadows (· = b) (Anomaly.Analysis.diagnose limits
      (subtract (Anomaly.Analysis.candidates recentFirst b.store) []) b.store.background)
      fun _ => Unlimited := diagnose_store_shadows hb []
  rw [subtract_nil] at hdiagnose
  exact hdiagnose

end Work

namespace Anomaly.Analysis

open Work Workbench

variable {most : Option Nat}

theorem posted_ne_nil {b : Workbench} (hb : Unlimited b) : b.store.posted ≠ [] := by
  obtain ⟨c, -, -, hin⟩ := hb.root
  intro hnil
  rw [hnil] at hin
  exact List.not_mem_nil hin

theorem isConsistent_posted_shadows {posted : List Constraint} :
    (budget most).Shadows (fun b => Unlimited b ∧ b.store.posted = posted) (isConsistent posted)
      fun _ => Unlimited := by
  apply Budget.Shadows.ofState
  rintro b ⟨hb, rfl⟩
  exact (isConsistent_shadows (posted_ne_nil hb)).inState hb

theorem probe_infeasible_shadows (values : List (String × Bool)) :
    (budget most).Shadows Unlimited
      (perturbation values >>= fun cs => probe cs fun posted => return !(← isConsistent posted))
      fun _ => Unlimited := by
  apply Budget.Shadows.bind (perturbation_shadows values)
  intro cs
  refine probe_shadows fun posted => ?_
  apply Budget.Shadows.bind isConsistent_posted_shadows
  intro answer
  exact .pure fun _ => id

theorem probe_diagnose_shadows (limits : Diagnosis.Limits) (recentFirst : Bool)
    (values : List (String × Bool)) :
    (budget most).Shadows Unlimited
      (perturbation values >>= fun cs => probe cs fun _ => do
        let s := (← get).store
        diagnose limits (Analysis.candidates recentFirst s) s.background)
      fun _ => Unlimited := by
  apply Budget.Shadows.bind (perturbation_shadows values)
  intro cs
  exact probe_shadows fun posted => .get_bind (fun _ _ => rfl) fun b hb =>
    diagnose_candidates_shadows hb.1

theorem probe_void_shadows (a : Analyzer) :
    (budget most).Shadows Unlimited (probe [] (diagnoseVoid a)) fun _ => Unlimited := by
  refine probe_shadows fun posted => ?_
  unfold diagnoseVoid
  apply Budget.Shadows.bind isConsistent_posted_shadows
  intro consistent
  split
  · apply Budget.Shadows.bind (note_shadows rfl fun _ hb => ⟨hb.free, hb.root⟩)
    intro _
    exact .pure fun _ => id
  · apply Budget.Shadows.bind (note_shadows rfl fun _ hb => ⟨hb.free, hb.root⟩)
    intro _
    refine .get_bind (fun _ _ => rfl) fun b hb => ?_
    apply Budget.Shadows.bind (diagnose_candidates_shadows hb)
    intro all
    exact .pure fun _ => id

theorem retracted_implied_shadows (a : Analyzer) (r : Relationship) :
    (budget most).Shadows Unlimited (retracted r fun _ => diagnoseImplied a r)
      fun _ => Unlimited := by
  refine retracted_shadows r fun negation => ?_
  unfold diagnoseImplied
  refine .get_bind (fun _ _ => rfl) fun b hb => ?_
  apply Budget.Shadows.bind (isConsistent_posted_shadows.inState ⟨hb, rfl⟩)
  intro consistent
  split
  · exact .pure fun _ => id
  · apply Budget.Shadows.bind (.orFail (fun _ _ _ => id) (rule_ne_cancelled r))
    intro rule
    apply Budget.Shadows.bind (note_shadows rfl fun _ hb => ⟨hb.free, hb.root⟩)
    intro _
    refine .get_bind (fun _ _ => rfl) fun c hc => ?_
    apply Budget.Shadows.bind (diagnose_store_shadows hc _)
    intro all
    exact .pure fun _ => id

end Anomaly.Analysis
end ProductLine

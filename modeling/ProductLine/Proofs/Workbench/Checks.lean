import ProductLine.Diagnosis.Minimal
import ProductLine.Proofs.Constraint.Posting
import ProductLine.Proofs.Contract
import ProductLine.Workbench.Calm
import ProductLine.Workbench.Clock

/-! # What a check leaves and what it says

A check leaves the model and the store as they were, whether it answers or is called off
(`Checked`). A yes is right, and a no is right as long as the engine has not failed (`Answers`). In
an idle world no check is called off, and on a calm workbench the engine does not fail. -/

namespace ProductLine

open Constraint

/-- With valid settings or not, the engine answers rightly if it answers at all. -/
theorem Oracle.solve_eq_ok {settings : Oracle.Settings} {fault : Option Oracle.Fault}
    {cs : List Constraint} {answer : Bool} (h : Oracle.solve settings fault cs = .ok answer) :
    answer = Formula.satisfiable (formulas cs) := by
  unfold Oracle.solve at h
  split at h
  · cases h
  · cases h
  · split at h
    · next hs =>
      cases h
      exact hs.symm
    · next hs =>
      split at h
      · cases h
      · cases h
        exact (Bool.eq_false_iff.mpr hs).symm

namespace Workbench

/-- What checks leave of a workbench: the model and the store are the same, and failures are only
added, none of them on a calm workbench. An idle world stays idle. -/
structure Checked (b c : Workbench) : Prop where
  model : c.model = b.model
  attached : c.attached = b.attached
  store : c.store = b.store
  edition : c.edition = b.edition
  settings : c.settings = b.settings
  failures : b.failures <+: c.failures
  faults : c.world.faults = b.world.faults
  unfailing : b.Calm → c.failures = b.failures
  idle : b.world.Idle → c.world.Idle
  time : b.world.Precedes c.world

/-- The analysis is called off, which does not happen in an idle world. -/
def CalledOff (w : World) (e : Failure) : Prop := e = .cancelled ∧ ¬w.Idle

theorem CalledOff.before {w w' : World} {e : Failure} (h : CalledOff w' e)
    (hidle : w.Idle → w'.Idle) : CalledOff w e := ⟨h.1, fun hw => h.2 (hidle hw)⟩

namespace Checked

variable {b c d : Workbench}

theorem refl (b : Workbench) : Checked b b :=
  ⟨rfl, rfl, rfl, rfl, rfl, List.prefix_rfl, rfl, fun _ => rfl, id, .refl _⟩

theorem calm (h : Checked b c) (hb : b.Calm) : c.Calm := by
  unfold Workbench.Calm
  rw [h.faults, h.settings, h.store]
  exact hb

theorem trans (h : Checked b c) (h' : Checked c d) : Checked b d :=
  ⟨h'.model.trans h.model, h'.attached.trans h.attached, h'.store.trans h.store,
    h'.edition.trans h.edition, h'.settings.trans h.settings, h.failures.trans h'.failures,
    h'.faults.trans h.faults, fun hb => (h'.unfailing (h.calm hb)).trans (h.unfailing hb),
    fun hb => h'.idle (h.idle hb), h.time.trans h'.time⟩

theorem inWorld (h : Checked b c) (calls : Nat) {w : World} (hfaults : w.faults = c.world.faults)
    (hidle : b.world.Idle → w.Idle) (htime : c.world.Precedes w) :
    Checked b { c with calls := calls, world := w } :=
  ⟨h.model, h.attached, h.store, h.edition, h.settings, h.failures, hfaults.trans h.faults,
    h.unfailing, hidle, h.time.trans htime⟩

theorem noted (h : Checked b c) (n : Journal.Note) :
    Checked b { c with world := { c.world with notes := c.world.notes.push n } } :=
  h.inWorld c.calls rfl h.idle (.unread rfl rfl rfl)

end Checked

/-- The workbench with other constraints posted. -/
def posting (b : Workbench) (cs : List Constraint) : Workbench :=
  { b with store := { b.store with posting := .of cs } }

theorem Checked.posting {b c : Workbench} (h : Checked b c) (cs : List Constraint) :
    Checked (b.posting cs) (c.posting cs) := by
  refine { h with store := ?_ }
  unfold Workbench.posting
  rw [h.store]

end Workbench

namespace Work

open Workbench

variable {α : Type} {b : Workbench} {fail : Failure → Workbench → Prop}

/-- What an answer to a question is worth: a yes is right, and a no is right as long as there are no
failures. -/
structure Answers (p : Prop) (answer : Bool) (failures : List Oracle.SolverFailure) : Prop where
  yes : answer = true → p
  no : answer = false → failures = [] → ¬p

theorem note_checked (n : Journal.Note) :
    Ensures (Checked b) (note n) (fun _ => Checked b) fail :=
  Ensures.modify fun _ h => h.noted n

theorem readClock_checked : Ensures (Checked b) readClock (fun _ => Checked b) fail := by
  intro c h
  refine h.inWorld c.calls (World.faults_tick _) ?_ (World.precedes_tick _)
  intro hb t ht
  rw [World.token_tick] at ht
  exact h.idle hb t ht

theorem passing_checked {token : CancelToken} (ht : b.world.Idle → token.Idle) :
    Ensures (Checked b) (passing token) (fun _ => Checked b)
      (fun e c => CalledOff b.world e ∧ Checked b c) := by
  have hset : Ensures (Checked b) (modify fun c => { c with world := { c.world with
      token := some token } } : Work Unit) (fun _ => Checked b)
      (fun e c => CalledOff b.world e ∧ Checked b c) := by
    apply Ensures.modify
    intro c hc
    refine hc.inWorld c.calls rfl ?_ (.unread rfl rfl rfl)
    intro hb t h
    exact Option.some.inj h ▸ ht hb
  unfold passing
  apply Ensures.bind hset
  intro _
  split
  · next hcancelled =>
    apply Ensures.throw
    intro c hc
    refine ⟨⟨rfl, ?_⟩, hc⟩
    intro hb
    exact Bool.false_ne_true ((ht hb).1.symm.trans hcancelled)
  · apply Ensures.pure
    intro _
    exact id

theorem passToken_checked : Ensures (Checked b) passToken (fun _ => Checked b)
    (fun e c => CalledOff b.world e ∧ Checked b c) := by
  unfold passToken
  apply Ensures.get_bind
  intro c hc
  refine Ensures.inState ?_ hc
  split
  · apply Ensures.pure
    intro _
    exact id
  · next token htoken =>
    apply passing_checked
    intro hb
    exact (hc.idle hb token htoken).check

theorem countCall_checked : Ensures (Checked b) countCall
    (fun fault c => (b.Calm → fault = none) ∧ Checked b c) fail := by
  intro c hc
  refine ⟨?_, hc.inWorld _ rfl hc.idle (.unread rfl rfl rfl)⟩
  intro hb
  show c.world.faults.lookup _ = none
  rw [hc.faults, hb.1]
  rfl

theorem takeAnswer_checked {cs : List Constraint} {outcome : Except Oracle.Mishap Bool}
    (h : ∀ answer, outcome = .ok answer → answer = Formula.satisfiable (formulas cs))
    (hmishap : ∀ mishap, outcome = .error mishap → ¬b.Calm) (constraints : Nat) :
    Ensures (Checked b) (takeAnswer constraints outcome)
      (fun answer c => Answers (Diagnosis.Consistent cs) answer c.failures ∧ Checked b c) fail := by
  cases outcome with
  | error mishap =>
    -- the failure is recorded, so that nothing is promised about the no
    have hrecord : Ensures (Checked b) (recordFailure ⟨mishap, constraints⟩)
        (fun _ c => c.failures ≠ [] ∧ Checked b c) fail := by
      have hadd : Ensures (Checked b) (modify fun c => { c with
          failures := c.failures ++ [⟨mishap, constraints⟩] } : Work Unit)
          (fun _ c => c.failures ≠ [] ∧ Checked b c) fail := Ensures.modify fun c hc =>
        ⟨List.append_ne_nil_of_right_ne_nil _ (List.cons_ne_nil _ _),
          { hc with
            failures := hc.failures.trans (List.prefix_append _ _)
            unfailing := fun hb => absurd hb (hmishap mishap rfl) }⟩
      unfold recordFailure
      apply Ensures.bind hadd
      intro _
      apply Ensures.modify
      intro c hc
      exact ⟨hc.1, hc.2.noted _⟩
    unfold takeAnswer
    apply Ensures.bind hrecord
    intro _
    apply Ensures.pure
    intro c hc
    refine ⟨⟨?_, ?_⟩, hc.2⟩
    · intro k
      exact absurd k Bool.false_ne_true
    · intro _ k
      exact absurd k hc.1
  | ok answer =>
    have hright := h answer rfl
    unfold takeAnswer
    apply Ensures.get_bind
    intro c hc
    refine Ensures.inState ?_ hc
    apply Ensures.bind (note_checked _)
    intro _
    apply Ensures.pure
    intro d hd
    refine ⟨⟨?_, ?_⟩, hd⟩
    · intro k
      rw [Diagnosis.consistent_iff, ← hright, k]
    · intro k _
      rw [Diagnosis.consistent_iff, ← hright, k]
      exact Bool.false_ne_true

theorem consult_checked {cs : List Constraint}
    (hcs : ∀ c ∈ cs, c.formula.vars ⊆ b.store.vars) :
    Ensures (Checked b) (consult cs)
      (fun answer c => Answers (Diagnosis.Consistent cs) answer c.failures ∧ Checked b c) fail := by
  unfold consult
  split
  · next hempty =>
    rw [List.isEmpty_iff] at hempty
    apply Ensures.pure
    intro c hc
    refine ⟨⟨?_, fun k => absurd k.symm Bool.false_ne_true⟩, hc⟩
    intro _
    rw [hempty]
    exact ⟨fun _ => true, List.forall_mem_nil _⟩
  · apply Ensures.bind countCall_checked
    intro fault
    apply Ensures.assuming
    intro hfault
    apply Ensures.get_bind
    intro c hc
    refine Ensures.inState ?_ hc
    apply takeAnswer_checked (fun _ => Oracle.solve_eq_ok)
    intro mishap h hb
    have htakes : Oracle.mishap? c.settings cs = none := by
      rw [hc.settings]
      exact hb.2 cs hcs
    rw [hfault hb, Oracle.solve_of_mishap?_eq_none htakes] at h
    cases h

theorem closing_ensures (change : Store → Store) {work : Work α} {Q : α → Workbench → Prop}
    {F : Failure → Workbench → Prop}
    (h : Ensures (Checked b) work (fun a c => Q a c ∧ Checked b c) (fun e c => F e c ∧ Checked b c)) :
    Ensures (Checked b) (closing change work)
      (fun a c => ∃ d, Q a d ∧ Checked b d ∧ c = { d with store := change b.store })
      (fun e c => ∃ d, F e d ∧ Checked b d ∧ c = { d with store := change b.store }) := by
  have hclosed : ∀ d, Checked b d → (if d.edition = b.edition then
      { d with store := change d.store } else d) = { d with store := change b.store } :=
    fun d hd => by rw [if_pos hd.edition, hd.store]
  unfold closing
  apply Ensures.get_bind
  intro c hc
  rw [hc.edition]
  refine Ensures.always (h.inState hc) ?_ ?_
  · intro a d hd
    exact ⟨d, hd.1, hd.2, hclosed d hd.2⟩
  · intro e d hd
    exact ⟨d, hd.1, hd.2, hclosed d hd.2⟩

theorem swapped_eq (cs : List Constraint) (work : List Constraint → Work α) (b : Workbench) :
    swapped cs work b = closing (fun s => s.clear.post b.store.posted) (work (post [] cs))
      (b.posting (post [] cs)) := by
  have hinside : b.store.clear.post cs = (b.posting (post [] cs)).store := by
    show { b.store with posting := Posting.empty.post cs } = _
    rw [Posting.post_empty]
    rfl
  have hopen : swapped cs work b = closing (fun s => s.clear.post b.store.posted)
      (work (b.store.clear.post cs).posted) { b with store := b.store.clear.post cs } := rfl
  rw [hopen, hinside]
  rfl

theorem swapped_checked {cs : List Constraint} {work : List Constraint → Work α}
    {Q : α → List Oracle.SolverFailure → Prop} {F : Failure → Prop}
    (hsound : b.store.posting.Sound)
    (h : Ensures (Checked (b.posting (post [] cs))) (work (post [] cs))
      (fun a c => Q a c.failures ∧ Checked (b.posting (post [] cs)) c)
      (fun e c => F e ∧ Checked (b.posting (post [] cs)) c)) :
    Ensures (Checked b) (swapped cs work) (fun a c => Q a c.failures ∧ Checked b c)
      (fun e c => F e ∧ Checked b c) := by
  have hback : ∀ d, Checked (b.posting (post [] cs)) d → Checked b { d with
      store := (b.posting (post [] cs)).store.clear.post b.store.posted } := by
    intro d hd
    have hstore : (b.posting (post [] cs)).store.clear.post b.store.posted = b.store := by
      exact Store.clear_post_posted hsound
    rw [hstore]
    exact { hd with store := rfl }
  intro s hs
  have hsaved : s.store.posted = b.store.posted := congrArg Store.posted hs.store
  have hinside := closing_ensures (fun t => t.clear.post s.store.posted) h
  rw [swapped_eq]
  refine (hinside.mono ?_ ?_) _ (hs.posting _)
  · rintro a c ⟨d, hQ, hd, rfl⟩
    rw [hsaved]
    exact ⟨hQ, hback d hd⟩
  · rintro e c ⟨d, hF, hd, rfl⟩
    rw [hsaved]
    exact ⟨hF, hback d hd⟩

/-- A check is right if it says yes, and also if it says no without a failure. -/
theorem isConsistent_checked {cs : List Constraint} (hsound : b.store.posting.Sound)
    (hcs : ∀ c ∈ cs, c.formula.vars ⊆ b.store.vars) :
    Ensures (Checked b) (isConsistent cs)
      (fun answer c => Answers (Diagnosis.Consistent (post [] cs)) answer c.failures ∧ Checked b c)
      (fun e c => CalledOff b.world e ∧ Checked b c) := by
  have hposted : ∀ c ∈ post [] cs, c.formula.vars ⊆ b.store.vars := by
    intro c hc
    rcases mem_of_mem_post hc with hc | hc
    · exact absurd hc List.not_mem_nil
    · exact hcs c hc
  unfold isConsistent
  apply Ensures.bind passToken_checked
  intro _
  exact swapped_checked hsound (consult_checked hposted)

end Work
end ProductLine

import ProductLine.Proofs.Workbench.Programs

/-! # What work preserves

Most of what is done on a workbench is done to its store, its clock and its token. A property that is
`Insensitive` hangs on none of them, and is kept when the engine answers a call. So whatever posts, makes
constraints and checks preserves it, and so does every program (`run_keeps`). -/

namespace ProductLine

open Constraint Journal

/-- The property hangs neither on the store, nor on the tags, nor on the clock and the token, and it is
kept when what came of a call is counted and noted. -/
structure Workbench.Insensitive (P : Workbench → Prop) : Prop where
  store : ∀ c s, P c → P { c with store := s }
  model : ∀ c m, P c → P { c with model := m }
  clock : ∀ c, P c → P { c with world := c.world.tick }
  token : ∀ c t, P c → P { c with world := { c.world with token := t } }
  told : ∀ c o n, n.outcome? = some o → P c → P (c.told o n)

namespace Work

open Workbench

variable {P : Workbench → Prop} {α : Type} (hP : Insensitive P)
include hP

/-! ### Posting and making -/

theorem onStore_keeps (f : Store → Store) : Keeps P (onStore f) :=
  Ensures.modify fun c hc => hP.store c _ hc

theorem make_keeps (f : Formula String) (role : Constraint.Role) (source : Option Relationship) :
    Keeps P (make f role source) := fun c hc => hP.store c _ hc

theorem perturbation_keeps (values : List (String × Bool)) :
    Keeps P (Anomaly.Analysis.perturbation values) := by
  have hassign : ∀ name value, Keeps P (assign name value) := fun name value =>
    (variableOf_keeps _).bind fun v => make_keeps hP _ _ _
  exact Keeps.mapM fun x => hassign (.text x.1) x.2

/-! ### Scopes -/

theorem closing_keeps {pre : Workbench → Prop} (change : Store → Store) {work : Work α}
    (h : Ensures pre work (fun _ => P) fun _ => P) :
    Ensures pre (closing change work) (fun _ => P) fun _ => P :=
  closing_preserves (fun c hc => hP.store c _ hc) h

theorem opening_keeps (k : Scope) : Keeps P k.opening := by
  cases k with
  | probe perturbation =>
    exact (onStore_keeps hP _).bind fun _ => Keeps.get_bind fun b => Keeps.pure _
  | swapped cs =>
    exact Keeps.get_bind fun b => (onStore_keeps hP _).bind fun _ =>
      Keeps.get_bind fun c => Keeps.pure _
  | retracted r =>
    refine Keeps.get_bind fun b => (onStore_keeps hP _).bind fun _ => ?_
    exact (negationOf_keeps (make_keeps hP) r).bind fun negation =>
      (onStore_keeps hP _).bind fun _ => Keeps.pure _

theorem around_keeps (k : Scope) {work : List Constraint → Work α}
    (h : ∀ handed, Keeps P (work handed)) : Keeps P (k.around work) := by
  rw [Scope.around_eq]
  exact (opening_keeps hP k).bind fun x => closing_keeps hP x.2 (h x.1)

theorem probe_keeps (perturbation : List Constraint) {work : List Constraint → Work α}
    (h : ∀ posted, Keeps P (work posted)) : Keeps P (probe perturbation work) :=
  around_keeps hP (.probe perturbation) h

theorem retracted_keeps (r : Relationship) {work : List Constraint → Work α}
    (h : ∀ negation, Keeps P (work negation)) : Keeps P (retracted r work) :=
  around_keeps hP (.retracted r) h

/-! ### Checks -/

theorem readClock_keeps : Keeps P readClock := fun c hc => hP.clock c hc

theorem passToken_keeps : Keeps P passToken := passToken_preserves hP.token

theorem consult_keeps (cs : List Constraint) : Keeps P (consult cs) := by
  by_cases hcs : cs = []
  · rw [hcs]
    exact Keeps.pure true
  · intro c hc
    rw [consult_eq hcs]
    exact hP.told c _ _ (Note.outcome?_ofReply _ _ _) hc

theorem isConsistent_keeps (cs : List Constraint) : Keeps P (isConsistent cs) :=
  (passToken_keeps hP).bind fun _ => around_keeps hP (.swapped cs) (consult_keeps hP)

/-! ### Programs -/

theorem run_keeps (p : Program α) : Keeps P p.run := by
  induction p with
  | done a => exact Keeps.pure a
  | raise e => exact Keeps.throw e
  | look => exact Keeps.get_bind fun b => Keeps.pure b.store
  | change c => exact onStore_keeps hP _
  | make f role source => exact make_keeps hP f role source
  | check cs => exact isConsistent_keeps hP cs
  | block k body ih => exact around_keeps hP k ih
  | andThen first next ihfirst ihnext => exact ihfirst.bind ihnext
  | attempt p ih => exact Program.caught_keeps ih

end Work
end ProductLine

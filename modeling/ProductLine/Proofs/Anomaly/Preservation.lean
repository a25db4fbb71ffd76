import ProductLine.Proofs.Anomaly.Steps
import ProductLine.Proofs.Workbench.Preservation

/-! # What steps of an analysis preserve

An analysis asks whether features can have values, tags what it has found and notes how it is explained.
All of that preserves an insensitive property of the workbench, provided that those notes do, and so does
whatever is put together of such steps. -/

namespace ProductLine
namespace Anomaly
namespace Analysis

open Journal Workbench

variable {α : Type} {P : Workbench → Prop}

/-- What work on a workbench promises of it, it promises of the workbench of an analyzer. -/
theorem onBench_promises {a : Analyzer} {work : Work α} {post : α → Workbench → Prop}
    {fail : Failure → Workbench → Prop} (h : Ensures (· = a.bench) work post fail) :
    Ensures (· = a) (onBench work) (fun x a' => post x a'.bench) fun e a' => fail e a'.bench := by
  refine (onBench_ensures h).mono ?_ ?_
  · rintro x _ ⟨b, hb, rfl⟩
    exact hb
  · rintro e _ ⟨b, hb, rfl⟩
    exact hb

theorem onBench_keeps {work : Work α} (h : Keeps P work) :
    Keeps (fun a : Analyzer => P a.bench) (onBench work) :=
  Ensures.ofState fun _ ha => onBench_promises (Ensures.inState h ha)

theorem note_keeps {n : Note} (h : Keeps P (Work.note n)) :
    Keeps (fun a : Analyzer => P a.bench) (note n) := onBench_keeps h

theorem model_keeps : Keeps (fun a : Analyzer => P a.bench) model := Keeps.get_bind fun _ => .pure _

theorem nonRoot_keeps : Keeps (fun a : Analyzer => P a.bench) nonRoot :=
  model_keeps.bind fun _ => Keeps.get_bind fun _ => .orFail _

variable (hP : Insensitive P)
include hP

/-! ### Asking -/

theorem infeasible_keeps (values : List (String × Bool)) :
    Keeps (fun a : Analyzer => P a.bench) (infeasible values) :=
  onBench_keeps ((Work.perturbation_keeps hP values).bind fun cs =>
    Work.probe_keeps hP cs fun posted => (Work.isConsistent_keeps hP posted).bind fun _ => .pure _)

theorem isDead_keeps (f : Feature) : Keeps (fun a : Analyzer => P a.bench) (isDead f) := by
  refine Keeps.get_bind fun a => ?_
  split
  · exact .pure _
  · exact infeasible_keeps hP _

theorem livingOptional?_keeps (f : Feature) :
    Keeps (fun a : Analyzer => P a.bench) (livingOptional? f) := by
  refine model_keeps.bind fun n => ?_
  split
  · exact (isDead_keeps hP f).bind fun dead => .pure _
  · exact .pure none

theorem livingOptional_keeps : Keeps (fun a : Analyzer => P a.bench) livingOptional :=
  nonRoot_keeps.bind fun _ => (Keeps.mapM (livingOptional?_keeps hP)).bind fun _ => .pure _

/-! ### Recording -/

variable (hnote : ∀ line, Keeps P (Work.note (.explained line)))
include hnote

theorem record_keeps (c : Category) (subject : String) (all : Diagnosis.Enumeration)
    (condition : Option String) :
    Keeps (fun a : Analyzer => P a.bench) (record c subject all condition) := by
  have hrecorded : Keeps (fun a : Analyzer => P a.bench) (recordTagged c subject all condition) := by
    refine (Keeps.orFail _).bind fun diagnoses => ?_
    refine (Keeps.forM fun line => note_keeps (hnote line)).bind fun _ => ?_
    exact Ensures.modify fun _ ha => ha
  unfold record
  cases c.tag? with
  | none => exact hrecorded
  | some t =>
    have htagged : Keeps P (modify fun c => { c with model := c.model.tag subject t }) :=
      Ensures.modify fun c hc => hP.model c _ hc
    exact (onBench_keeps htagged).bind fun _ => hrecorded

theorem recordPartner_keeps (all : Diagnosis.Enumeration) (reported : List String)
    (f partner : String) :
    Keeps (fun a : Analyzer => P a.bench) (recordPartner all reported f partner) := by
  unfold recordPartner
  split
  · exact .pure reported
  · exact (record_keeps hP hnote _ f all _).bind fun _ => .pure _

end Analysis
end Anomaly
end ProductLine

import ProductLine.Diagnosis.Minimal
import ProductLine.Proofs.Contract

/-! # Settings that can be relied on

What a search may rely on when it asks whether constraints are consistent. In an *honest* setting a
yes is right, while a no may be wrong and a check may also fail. In an *exact* setting every answer
is right and nothing fails. Both are said of the constraints in question only, and of the states
with a property that the setting keeps. -/

namespace ProductLine
namespace Diagnosis

open Constraint

variable {σ : Type}

/-- Every yes about a part of the constraints is right; what fails, fails as said. -/
structure Setting.Honest (e : Setting σ) (keeps : σ → Prop) (fail : Failure → σ → Prop)
    (all : List Constraint) : Prop where
  isConsistent : ∀ cs, cs ⊆ all → Ensures keeps (e.isConsistent cs)
    (fun answer s => (answer = true → Consistent (post [] cs)) ∧ keeps s) fail
  note : ∀ n, Ensures keeps (e.note n) (fun _ => keeps) fail
  readClock : Ensures keeps e.readClock (fun _ => keeps) fail

/-- An honest setting in which it is kept in mind what the clock has told, last things first. -/
structure Setting.Timed (e : Setting σ) (keeps : List Int → σ → Prop) (fail : Failure → σ → Prop)
    (all : List Constraint) : Prop where
  honest : ∀ times, e.Honest (keeps times) fail all
  readClock : ∀ times, Ensures (keeps times) e.readClock (fun now => keeps (now :: times)) fail
  forget : ∀ {now times s}, keeps (now :: times) s → keeps times s

/-- Every answer about a part of the constraints is right, and nothing fails. -/
structure Setting.Exact (e : Setting σ) (keeps : σ → Prop) (all : List Constraint) : Prop where
  isConsistent : ∀ cs, cs ⊆ all → Ensures keeps (e.isConsistent cs)
    (fun answer s => (answer = true ↔ Consistent (post [] cs)) ∧ keeps s) fun _ _ => False
  note : ∀ n, Ensures keeps (e.note n) (fun _ => keeps) fun _ _ => False
  readClock : Ensures keeps e.readClock (fun _ => keeps) fun _ _ => False

/-- What the clock says in some state. -/
def Setting.Reads (e : Setting σ) (keeps : σ → Prop) (now : Int) : Prop :=
  ∃ s t, keeps s ∧ e.readClock s = .ok now t

/-- A setting without any state that answers truly and in which no time passes. -/
def Setting.truthful : Setting Unit :=
  ⟨fun cs => pure (Formula.satisfiable (formulas (post [] cs))), fun _ => pure (), pure 0⟩

theorem Setting.truthful_exact (all : List Constraint) :
    Setting.truthful.Exact (fun _ => True) all where
  isConsistent cs _ := Ensures.pure fun _ _ => ⟨(consistent_iff (post [] cs)).symm, trivial⟩
  note _ := Ensures.pure fun _ _ => trivial
  readClock := Ensures.pure fun _ _ => trivial

variable {e : Setting σ} {keeps : σ → Prop} {fail : Failure → σ → Prop} {all cs : List Constraint}

theorem Setting.Exact.honest (he : e.Exact keeps all) : e.Honest keeps fail all where
  isConsistent cs h :=
    (he.isConsistent cs h).mono (fun _ _ k => ⟨k.1.mp, k.2⟩) fun _ _ => False.elim
  note n := (he.note n).weakenFail fun _ _ => False.elim
  readClock := he.readClock.weakenFail fun _ _ => False.elim

theorem Setting.reading (h : Ensures keeps e.readClock (fun _ => keeps) fail) :
    Ensures keeps e.readClock (fun now s => e.Reads keeps now ∧ keeps s) fail := by
  intro s hs
  have hread := h s hs
  cases hr : e.readClock s with
  | ok now t =>
    rw [hr] at hread
    exact ⟨⟨s, t, hs, hr⟩, hread⟩
  | error failure t =>
    rw [hr] at hread
    exact hread

theorem Setting.Exact.reading (he : e.Exact keeps all) :
    Ensures keeps e.readClock (fun now s => e.Reads keeps now ∧ keeps s) fun _ _ => False :=
  Setting.reading he.readClock

end Diagnosis
end ProductLine

import ProductLine.Proofs.Diagnosis.Clocked
import ProductLine.Proofs.Diagnosis.First
import ProductLine.Proofs.Workbench.Renumbered

/-! # Bounded enumerations on the workbench

What a check answers hangs on the engine and on the faults to come, which hit the calls by their numbers,
but neither on the clock nor on the journal. So the workbench is a setting in which limits only cut the
enumeration (`enumerate_bounded`), whatever faults there are. -/

namespace ProductLine

open Constraint Diagnosis

theorem World.untimed_tick (w : World) : w.tick.untimed = w.untimed := by
  unfold tick
  split <;> rfl

namespace Workbench

variable {b c d : Workbench}

/-- The workbenches differ in nothing but the clock and the journal, and no check is called off. -/
structure SameButTime (b c : Workbench) : Prop where
  same : c.untimed = b.untimed
  idle : b.world.Idle

namespace SameButTime

theorem idle' (h : SameButTime b c) : c.world.Idle := fun t ht =>
  h.idle t ((congrArg (·.world.token) h.same :).symm.trans ht)

theorem symm (h : SameButTime b c) : SameButTime c b := ⟨h.same.symm, h.idle'⟩

theorem trans (h : SameButTime b c) (h' : SameButTime c d) : SameButTime b d :=
  ⟨h'.same.trans h.same, h.idle⟩

theorem eq_inWorld (h : SameButTime b c) : c = { b with world := c.world } :=
  congrArg (fun d : Workbench => { d with world := c.world }) h.same

end SameButTime

/-- The clock and the journal tell the workbenches apart, and nothing else. -/
theorem setting_clocked :
    Anomaly.Analysis.setting.Clocked SameButTime fun b => b.world.reading where
  symm := .symm
  trans := .trans
  isConsistent cs b c h := by
    obtain ⟨answer, t, -, -, -, -, hidle, hrun⟩ := isConsistent_idle h.idle cs
    obtain ⟨s, hs, hsame, hread⟩ := hrun b.world rfl
    obtain ⟨s', hs', hsame', hread'⟩ := hrun c.world (congrArg Workbench.world h.same)
    rw [← h.eq_inWorld] at hs'
    refine ⟨answer, s, s', hs, hs', ⟨hsame'.trans hsame.symm, fun u hu => ?_⟩, hread, hread'⟩
    exact hidle u ((congrArg (·.world.token) hsame :).symm.trans hu)
  note n n' b c h :=
    ⟨_, _, rfl, rfl, ⟨h.same, h.idle⟩, funext (World.reading_congr rfl rfl rfl),
      funext (World.reading_congr rfl rfl rfl)⟩
  readClock {b c} h := by
    refine ⟨{ c with world := c.world.tick }, rfl, ⟨?_, h.idle⟩, fun _ => rfl⟩
    have hsame : ({ c with world := c.world.tick } : Workbench).untimed = c.untimed :=
      congrArg (fun w : World => ({ c with world := w } : Workbench)) c.world.untimed_tick
    exact hsame.trans h.same

end Workbench

namespace Anomaly.Analysis

/-- **Limits only cut the enumeration.** Whatever the engine answers and whatever faults hit its calls,
an enumeration with limits has the diagnoses that the one without them has, up to the one that is beyond
a limit, if it can be told how long it takes. -/
theorem enumerate_bounded (found candidates background : List Constraint) {b : Workbench}
    (hidle : b.world.Idle)
    (htell : ∀ k ≤ looks (branches setting found candidates background b) + 1,
      (Binary64.roundInt? (b.world.elapsed k)).isSome) :
    OnlyCut
        (fun limits all => ∃ c, enumerate setting limits found candidates background b = .ok all c)
        b.world.elapsed (branches setting found candidates background b) ∧
      (b.world.lapses = [] → ∀ k : Nat, b.world.elapsed k = k * b.world.clockStep) :=
  ⟨enumerate_only_cut Workbench.setting_clocked found candidates background ⟨rfl, hidle⟩ htell,
    World.elapsed_of_lapses_eq_nil⟩

/-- A workbench on which the fifth call of the engine runs out of time, and two seconds go by from one
reading of the clock to the next. -/
def faulty : Workbench :=
  .new ⟨.null, [], [], []⟩ .standard { World.calm with faults := [(5, .timeout)], clockStep := 2 }

theorem enumerate_bounded_faulty :
    faulty.world.Idle ∧
      (∀ k ≤ looks (branches setting [crossed[0], crossed[2]] crossed [] faulty) + 1,
        (Binary64.roundInt? (faulty.world.elapsed k)).isSome) ∧
      (branches setting [crossed[0], crossed[2]] crossed [] faulty).map (·.depth) = [0, 1, 1] ∧
      OnlyCut (fun limits all => ∃ c,
          enumerate setting limits [crossed[0], crossed[2]] crossed [] faulty = .ok all c)
        faulty.world.elapsed (branches setting [crossed[0], crossed[2]] crossed [] faulty) ∧
      (faulty.world.lapses = [] → ∀ k : Nat, faulty.world.elapsed k = k * faulty.world.clockStep) := by
  have hidle : faulty.world.Idle := fun t ht => nomatch ht
  have htell : ∀ k ≤ looks (branches setting [crossed[0], crossed[2]] crossed [] faulty) + 1,
      (Binary64.roundInt? (faulty.world.elapsed k)).isSome := by decide +kernel
  exact ⟨hidle, htell, by decide +kernel, enumerate_bounded _ _ _ hidle htell⟩

end Anomaly.Analysis
end ProductLine

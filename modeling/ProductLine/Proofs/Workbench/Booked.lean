import ProductLine.Proofs.Diagnosis.Asked
import ProductLine.Proofs.Diagnosis.Drained
import ProductLine.Proofs.Workbench.Preservation

/-! # Calls and failures are booked

A workbench counts the calls of the engine and lists its failures, and every call leaves a note in the
journal of what came of it. Whatever is done on a workbench, under whatever token and whether it returns
or fails, its count and its list go on in step with the journal and with the calls that the world around
has seen (`Workbench.Booked`). A check books its call, and nothing else that work consists of touches the
books, in particular no change of the store. So no part of any program lists more failures than it counts
calls (`Booked.failures_le`). A check counts one call at most, so that what a diagnosis costs is bounded by the
number of its candidates (`first_calls_le`). -/

namespace ProductLine

open Constraint Journal

namespace Workbench

variable {b c d : Workbench}

/-- What is booked on a workbench and what the booking hangs on. -/
def books (b : Workbench) : Nat × List Oracle.SolverFailure × Array Note × Oracle.Settings × Nat ×
    List (Nat × Oracle.Fault) :=
  (b.calls, b.failures, b.world.notes, b.settings, b.world.calls, b.world.faults)

/-- The books of the second workbench are those of the first one, gone on with. -/
structure Booked (b c : Workbench) : Prop where
  onward : Onward b c
  settings : c.settings = b.settings
  faults : c.world.faults = b.world.faults
  made : c.world.calls + b.calls = b.world.calls + c.calls

namespace Booked

theorem refl (b : Workbench) : Booked b b := ⟨.refl b, rfl, rfl, rfl⟩

theorem trans (h : Booked b c) (h' : Booked c d) : Booked b d where
  onward := h.onward.trans h'.onward
  settings := h'.settings.trans h.settings
  faults := h'.faults.trans h.faults
  made := by
    have hmade := h.made
    have hmade' := h'.made
    omega

theorem unbooked (h : Booked b c) (hbooks : d.books = c.books) : Booked b d := by
  unfold books at hbooks
  simp only [Prod.mk.injEq] at hbooks
  obtain ⟨hcalls, hfailures, hnotes, hsettings, hworld, hfaults⟩ := hbooks
  obtain ⟨noted, hnoted, hcounted, hlisted⟩ := h.onward
  refine ⟨⟨noted, ?_, ?_, ?_⟩, hsettings.trans h.settings, hfaults.trans h.faults, ?_⟩
  · rw [hnotes, hnoted]
  · rw [hcalls, hcounted]
  · rw [hfailures, hlisted]
  · rw [hworld, hcalls, h.made]

theorem failures_le (h : Booked b c) : c.failures.length + b.calls ≤ b.failures.length + c.calls := by
  obtain ⟨noted, -, hcounted, hlisted⟩ := h.onward
  have hreduced := List.reduceOption_length_le (outcomes noted)
  rw [hcounted, hlisted, List.length_append]
  omega

end Booked
end Workbench

namespace Work

open Workbench

variable {α : Type} {b : Workbench}

/-! ### Calls and notes -/

theorem booked_told {o : Option Oracle.SolverFailure} {n : Note} (h : n.outcome? = some o)
    (b : Workbench) : Booked b (b.told o n) where
  onward := onward_told h
  settings := rfl
  faults := rfl
  made := by
    show b.world.calls + 1 + b.calls = b.world.calls + (b.calls + 1)
    omega

/-- Nothing touches the books but calls and notes of them. -/
theorem booked_insensitive : Insensitive (Booked b) where
  store _ _ h := h.unbooked rfl
  model _ _ h := h.unbooked rfl
  clock c h := by
    refine h.unbooked ?_
    unfold books World.tick
    cases c.world.lapses <;> rfl
  token _ _ h := h.unbooked rfl
  told c _ _ hn h := h.trans (booked_told hn c)

theorem note_booked {n : Note} (h : n.outcome? = none) : Keeps (Booked b) (note n) :=
  Ensures.modify fun _ hc => hc.trans ⟨onward_noted h, rfl, rfl, rfl⟩

/-! ### Programs and diagnoses -/

/-- Whatever a program does, at every point of it the books have been gone on with. -/
theorem point_booked {p : Program α} {c : Workbench} (h : Program.Point p b c) : Booked b c := by
  refine h.keeps (run_keeps booked_insensitive) ?_ (passToken_keeps booked_insensitive) (.refl b)
  rintro k d inside handed ⟨ending, hentered⟩ hd
  have hopened := opening_keeps booked_insensitive k d hd
  rw [hentered] at hopened
  exact hopened

theorem setting_booked : Anomaly.Analysis.setting.Stable (Booked b) fun _ => Booked b where
  isConsistent := isConsistent_keeps booked_insensitive
  note _ := note_booked
  readClock := readClock_keeps booked_insensitive

theorem diagnose_booked (limits : Diagnosis.Limits) (candidates background : List Constraint) :
    Keeps (Booked b) (Anomaly.Analysis.diagnose limits candidates background) := by
  have hfirst : Keeps (Booked b)
      (Diagnosis.first Anomaly.Analysis.setting candidates background) :=
    (Diagnosis.first_stable setting_booked candidates background).weaken fun _ _ h => h.2
  have henumerate : ∀ found, Keeps (Booked b)
      (Diagnosis.enumerate Anomaly.Analysis.setting limits found candidates background) := fun found =>
    Diagnosis.enumerate_stable setting_booked (fun _ _ _ h => h) fun _ _ h => h
  unfold Anomaly.Analysis.diagnose
  refine hfirst.bind fun found => (henumerate found).bind fun all => ?_
  split
  · exact (note_booked rfl).bind fun _ => Keeps.pure all
  · exact Keeps.pure all

/-! ### How often the engine is called -/

theorem consult_asks (cs : List Constraint) : Asks (·.calls) 1 (consult cs) := by
  by_cases hcs : cs = []
  · rw [hcs]
    exact .pure true
  · intro b
    rw [consult_eq hcs]
    exact Nat.le_refl _

theorem isConsistent_asks (cs : List Constraint) : Asks (·.calls) 1 (isConsistent cs) := by
  have hpass : Asks (·.calls) 0 passToken := .of_keeps fun _ => passToken_preserves fun _ _ hc => hc
  refine (hpass.bind fun _ b => ?_).mono (Nat.le_of_eq (Nat.zero_add 1))
  have hopen : swapped cs consult b = closing (fun s => s.clear.post b.store.posted)
      (consult (b.store.clear.post cs).posted) { b with store := b.store.clear.post cs } := rfl
  have hasked := consult_asks (b.store.clear.post cs).posted { b with store := b.store.clear.post cs }
  rw [hopen, closing_eq, endState_endIn]
  split
  · exact hasked
  · exact hasked

theorem setting_counts : Anomaly.Analysis.setting.Counts (·.calls) where
  isConsistent := isConsistent_asks
  note _ _ := Nat.le_refl _

/-- For a diagnosis the engine is called twice for each candidate at most, whatever faults hit the calls and
even if the work is called off. -/
theorem first_calls_le (candidates background : List Constraint) :
    Asks (·.calls) (2 * candidates.length)
      (Diagnosis.first Anomaly.Analysis.setting candidates background) :=
  Diagnosis.first_asks setting_counts candidates background

end Work
end ProductLine

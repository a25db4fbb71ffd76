import ProductLine.Workbench.Basic

/-! # What the clock tells

While work goes on, the clock is read from time to time. All that is used of two readings is how many
seconds lie between them, told by a floating-point number; if there are more than such a number can
hold, the clock `Overran`. -/

namespace ProductLine
namespace World

/-- What the clock says at a reading to come, the next one being number zero. -/
def reading (w : World) : Nat → Int
  | 0 => w.clock
  | n + 1 => w.tick.reading n

/-- How much time has elapsed at a reading to come since the next one. -/
def elapsed (w : World) (k : Nat) : Int := w.reading k - w.reading 0

/-- After so many readings the clock of the one world is that of the other. -/
def Becomes (w w' : World) (n : Nat) : Prop := ∀ k, w'.reading k = w.reading (n + k)

/-- The one world may have become the other by readings of the clock. -/
def Precedes (w w' : World) : Prop := ∃ n, w.Becomes w' n

/-- After so many readings the clock of the one world goes like that of the other, if from another
time. -/
def Paces (w w' : World) : Prop := ∃ n lead, ∀ k, w'.reading k = w.reading (n + k) + lead

/-- From now on the clocks go alike, if from different times. -/
def InStep (w w' : World) : Prop := ∃ lag, ∀ k, w'.reading k = w.reading k + lag

/-- One of the readings between the worlds told this time. -/
def Told (w w' : World) (now : Int) : Prop := ∃ n i, w.Becomes w' n ∧ i < n ∧ w.reading i = now

/-- Two readings between the worlds were further apart than a floating-point number can tell. -/
def Overran (w w' : World) : Prop :=
  ∃ start now, w.Told w' start ∧ w.Told w' now ∧ Binary64.roundInt? (now - start) = none

variable {w w' w'' : World}

theorem reading_congr (hclock : w'.clock = w.clock) (hlapses : w'.lapses = w.lapses)
    (hstep : w'.clockStep = w.clockStep) (n : Nat) : w'.reading n = w.reading n := by
  induction n generalizing w w' with
  | zero => exact hclock
  | succ n ih =>
    unfold reading
    apply ih
    all_goals
      unfold tick
      rw [hlapses]
      split <;> simp only [hclock, hstep]

theorem Becomes.refl (w : World) : w.Becomes w 0 := fun k => by rw [Nat.zero_add]

theorem Becomes.trans {n k : Nat} (h : w.Becomes w' n) (h' : w'.Becomes w'' k) :
    w.Becomes w'' (n + k) := fun l => by rw [h', h, Nat.add_assoc]

theorem becomes_tick (w : World) : w.Becomes w.tick 1 := fun k => by rw [Nat.add_comm]; rfl

namespace Precedes

theorem refl (w : World) : w.Precedes w := ⟨0, .refl w⟩

theorem trans (h : w.Precedes w') (h' : w'.Precedes w'') : w.Precedes w'' := by
  obtain ⟨n, hn⟩ := h
  obtain ⟨k, hk⟩ := h'
  exact ⟨n + k, hn.trans hk⟩

theorem unread (hclock : w'.clock = w.clock) (hlapses : w'.lapses = w.lapses)
    (hstep : w'.clockStep = w.clockStep) : w.Precedes w' :=
  ⟨0, fun k => by rw [Nat.zero_add, reading_congr hclock hlapses hstep]⟩

end Precedes

theorem precedes_tick (w : World) : w.Precedes w.tick := ⟨1, becomes_tick w⟩

theorem told_tick (w : World) : w.Told w.tick w.clock := ⟨1, 0, becomes_tick w, Nat.one_pos, rfl⟩

theorem Told.later {now : Int} (h : w.Told w' now) (h' : w'.Precedes w'') : w.Told w'' now := by
  obtain ⟨n, i, hn, hi, hnow⟩ := h
  obtain ⟨k, hk⟩ := h'
  exact ⟨n + k, i, hn.trans hk, Nat.lt_add_right k hi, hnow⟩

theorem Told.earlier {now : Int} (h : w'.Told w'' now) (h' : w.Precedes w') : w.Told w'' now := by
  obtain ⟨k, i, hk, hi, hnow⟩ := h
  obtain ⟨n, hn⟩ := h'
  exact ⟨n + k, n + i, hn.trans hk, Nat.add_lt_add_left hi n, (hn i).symm.trans hnow⟩

theorem Overran.earlier (h : w'.Overran w'') (h' : w.Precedes w') : w.Overran w'' := by
  obtain ⟨start, now, hstart, hnow, hround⟩ := h
  exact ⟨start, now, hstart.earlier h', hnow.earlier h', hround⟩

theorem reading_of_lapses_eq_nil (hlapses : w.lapses = []) (n : Nat) :
    w.reading n = w.clock + n * w.clockStep := by
  induction n generalizing w with
  | zero => rw [Int.natCast_zero, Int.zero_mul, Int.add_zero, reading]
  | succ n ih =>
    have htick : w.tick = { w with clock := w.clock + w.clockStep } := by
      unfold tick
      rw [hlapses]
    have hlater : World.reading { w with clock := w.clock + w.clockStep } n =
        w.clock + w.clockStep + n * w.clockStep := ih hlapses
    unfold reading
    rw [htick, hlater, Int.natCast_succ, Int.add_mul, Int.one_mul]
    omega

theorem elapsed_of_lapses_eq_nil (hlapses : w.lapses = []) (k : Nat) :
    w.elapsed k = k * w.clockStep := by
  unfold elapsed
  rw [reading_of_lapses_eq_nil hlapses, reading_of_lapses_eq_nil hlapses, Int.natCast_zero,
    Int.zero_mul]
  omega

namespace InStep

theorem refl (w : World) : w.InStep w := ⟨0, fun k => by rw [Int.add_zero]⟩

theorem symm (h : w.InStep w') : w'.InStep w := by
  obtain ⟨lag, hlag⟩ := h
  exact ⟨-lag, fun k => by rw [hlag, Int.add_neg_cancel_right]⟩

theorem congr (h : w.InStep w') {v v' : World} (hv : v.reading = w.reading)
    (hv' : v'.reading = w'.reading) : v.InStep v' := by
  obtain ⟨lag, hlag⟩ := h
  exact ⟨lag, fun k => by rw [hv, hv', hlag]⟩

theorem paces (h : w.InStep w') : w.Paces w' := by
  obtain ⟨lag, hlag⟩ := h
  exact ⟨0, lag, fun k => by rw [hlag, Nat.zero_add]⟩

end InStep

theorem Paces.later (h : w.Paces w') (h' : w'.Precedes w'') : w.Paces w'' := by
  obtain ⟨n, lead, hn⟩ := h
  obtain ⟨k, hk⟩ := h'
  exact ⟨n + k, lead, fun l => by rw [hk, hn, Nat.add_assoc]⟩

/-- Two worlds that keep the pace of a clock that takes the same time for every reading are in step,
however old they are. -/
theorem Paces.inStep (h : w.Paces w') (h' : w.Paces w'') (hlapses : w.lapses = []) :
    w'.InStep w'' := by
  obtain ⟨k, lead, hk⟩ := h
  obtain ⟨l, lead', hl⟩ := h'
  refine ⟨(l - k) * w.clockStep + (lead' - lead), fun n => ?_⟩
  rw [hk, hl, reading_of_lapses_eq_nil hlapses, reading_of_lapses_eq_nil hlapses, Int.sub_mul,
    Int.natCast_add, Int.natCast_add, Int.add_mul, Int.add_mul]
  omega

theorem not_overran_of_still (hlapses : w.lapses = []) (hstep : w.clockStep = 0) :
    ¬w.Overran w' := by
  have hreading : ∀ n, w.reading n = w.clock := by
    intro n
    rw [reading_of_lapses_eq_nil hlapses, hstep, Int.mul_zero, Int.add_zero]
  rintro ⟨start, now, ⟨-, i, -, -, rfl⟩, ⟨-, j, -, -, rfl⟩, hround⟩
  rw [hreading i, hreading j, Int.sub_self] at hround
  exact absurd hround (by decide +kernel)

end World
end ProductLine

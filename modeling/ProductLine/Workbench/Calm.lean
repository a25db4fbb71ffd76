import ProductLine.Workbench.Consistency

/-! # What gets in the way of checks

A check is called off by a token, and the engine fails when a fault hits it or when it does not take
the question. In an `Idle` world nothing is called off. On a `Calm` workbench the engine does not
fail. -/

namespace ProductLine

/-- The token lets every check pass. -/
def CancelToken.Idle (t : CancelToken) : Prop := t.cancelled = false ∧ t.most = none

theorem CancelToken.Idle.check {t : CancelToken} (h : t.Idle) : t.check.Idle := by
  obtain ⟨hcancelled, hmost⟩ := h
  unfold CancelToken.check
  rw [hcancelled, hmost]
  exact ⟨rfl, rfl⟩

/-- No token calls the analysis off. -/
def World.Idle (w : World) : Prop := ∀ t, w.token = some t → t.Idle

/-- The engine takes every question about the features. -/
def Oracle.Settings.Takes (s : Settings) (features : List String) : Prop :=
  ∀ cs : List Constraint, (∀ c ∈ cs, c.formula.vars ⊆ features) → mishap? s cs = none

/-- No fault is to come, and the engine takes every question about the features. -/
def Workbench.Calm (b : Workbench) : Prop :=
  b.world.faults = [] ∧ b.settings.Takes b.store.vars

theorem World.faults_tick (w : World) : w.tick.faults = w.faults := by
  unfold World.tick
  split
  · rfl
  · rfl

theorem World.token_tick (w : World) : w.tick.token = w.token := by
  unfold World.tick
  split
  · rfl
  · rfl

end ProductLine

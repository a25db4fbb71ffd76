import ProductLine.Anomaly.Probes

/-! # Calls of an analyzer

A started analyzer can be asked for the whole analysis or for one of its probes, any number of times
and in any order, and whether the calls before succeeded or not. Whatever `Reached` analyzer it has
become, its store should be `Restored`. Between the calls of a `Used` analyzer, its features may be
tagged by hand, and the world around may become another one. -/

namespace ProductLine
namespace Anomaly

/-- The steps of a probe. -/
def Analysis.ofProbe : Journal.Probe → Analysis Unit
  | .consistency => discard checkConsistency
  | .dead => checkDead
  | .conditionallyDead => checkConditionallyDead
  | .fullMandatory => checkFullMandatory
  | .falseOptional => checkFalseOptional
  | .redundant => checkRedundancies

/-- What an analyzer can become by calls, each of which may succeed or fail. -/
inductive Reached (a₀ : Analyzer) : Analyzer → Prop where
  | start : Reached a₀ a₀
  | run {a : Analyzer} (h : Reached a₀ a) : Reached a₀ (after Analysis.run a)
  | probe {a : Analyzer} (h : Reached a₀ a) (p : Journal.Probe) :
    Reached a₀ (after (Analysis.ofProbe p) a)

/-- What an analyzer can become in use: by calls, each of which may succeed or fail, by tags that are put
on features or taken off them by hand, and by a world with another token, other faults to come or
another clock. -/
inductive Used (a₀ : Analyzer) : Analyzer → Prop where
  | start : Used a₀ a₀
  | run {a : Analyzer} (h : Used a₀ a) : Used a₀ (after Analysis.run a)
  | probe {a : Analyzer} (h : Used a₀ a) (p : Journal.Probe) :
    Used a₀ (after (Analysis.ofProbe p) a)
  | retagged {a : Analyzer} (h : Used a₀ a) (n : FeatureModel)
    (hn : n.clearTags = a.bench.model.clearTags) : Used a₀ { a with bench := { a.bench with model := n } }
  | surrounded {a : Analyzer} (h : Used a₀ a) (w : World) :
    Used a₀ { a with bench := { a.bench with world := w } }

/-- The store is the one that was made of the model, with its baseline posted in order; at most
numbers have been given out since. -/
def Analyzer.Restored (m : FeatureModel) (o : FeatureOrder) (a : Analyzer) : Prop :=
  (∃ s n, Store.ofModel m o = .ok s ∧ a.bench.store = { s with nextId := n }) ∧
    a.bench.store.posted = a.bench.store.ac

/-- The call ends in an analyzer with a restored store, by returning or by being called off. -/
def Analysis.Restores {α : Type} (m : FeatureModel) (o : FeatureOrder) (call : Analysis α)
    (a : Analyzer) : Prop :=
  ∃ a', a'.Restored m o ∧ ((∃ x, call a = .ok x a') ∨ call a = .error .cancelled a')

end Anomaly
end ProductLine

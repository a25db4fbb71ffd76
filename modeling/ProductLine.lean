import ProductLine.Main
import ProductLine.Proofs.Anomaly.Calls
import ProductLine.Proofs.Constraint.Translation
import ProductLine.Proofs.Diagnosis.Enumeration
import ProductLine.Proofs.Diagnosis.Incomparable
import ProductLine.Proofs.Budget
import ProductLine.Proofs.Diagnosis.Cancellation
import ProductLine.Proofs.Workbench.Cancellation
import ProductLine.Proofs.Anomaly.Cancellation
import ProductLine.Proofs.Anomaly.Irredundant
import ProductLine.Proofs.Agreement
import ProductLine.Proofs.Constraint.Renumbering
import ProductLine.Proofs.Diagnosis.Renumbered
import ProductLine.Proofs.Workbench.Renumbered
import ProductLine.Proofs.Anomaly.Independent
import ProductLine.Proofs.Workbench.Programs
import ProductLine.Proofs.Diagnosis.Clocked
import ProductLine.Proofs.Workbench.Clocked
import ProductLine.Proofs.Anomaly.Reordered
import ProductLine.Proofs.Diagnosis.Preferred
import ProductLine.Proofs.Workbench.Retractions
import ProductLine.Proofs.FeatureModel.Parents
import ProductLine.Proofs.Anomaly.FalseOptional
import ProductLine.Proofs.Anomaly.Used
import ProductLine.Proofs.Anomaly.Renewed
import ProductLine.Proofs.Diagnosis.Certain
import ProductLine.Proofs.Diagnosis.Drained
import ProductLine.Proofs.Workbench.Booked
import ProductLine.Proofs.Workbench.Numbers
import ProductLine.Proofs.Workbench.Answers
import ProductLine.Proofs.Anomaly.Counted
import ProductLine.Proofs.Anomaly.Rules
import ProductLine.Proofs.Anomaly.Tagged
import ProductLine.Proofs.Anomaly.Inherent
import ProductLine.Proofs.FeatureModel.Preorder
import ProductLine.Proofs.FeatureModel.Codec
import ProductLine.Proofs.FeatureModel.Register
import ProductLine.Proofs.Anomaly.Shape
import ProductLine.Proofs.Anomaly.Posed

import GraphCalc.Main
import GraphCalc.Sequence.Cursor
import GraphCalc.Proofs.Evaluation.Cycle
import GraphCalc.Proofs.Plot.Outcome
import GraphCalc.Proofs.Simplification.Refines
import GraphCalc.Proofs.Sequence.Chain
import GraphCalc.Proofs.Sequence.Splice
import GraphCalc.Proofs.History
import GraphCalc.Proofs.Sequence.Contents
import GraphCalc.Proofs.Sequence.Refinement
import GraphCalc.Proofs.Store.Distinct
import GraphCalc.Proofs.Store.History
import GraphCalc.Proofs.Settings.Grammar
import GraphCalc.Proofs.Settings.Reading
import GraphCalc.Proofs.Settings.Parse
import GraphCalc.Proofs.Evaluation.Unfolding
import GraphCalc.Proofs.Simplification.Depth
import GraphCalc.Proofs.Simplification.Folding
import GraphCalc.Proofs.Plot.Answer
import GraphCalc.Proofs.Settings.Fields
import GraphCalc.Proofs.Settings.Orders
import GraphCalc.Proofs.Evaluation.Unrelated
import GraphCalc.Proofs.Simplification.Convergence
import GraphCalc.Proofs.Plot.Steps
import GraphCalc.Proofs.Plot.Cap
import GraphCalc.Proofs.Plot.Stepping
import GraphCalc.Proofs.Sequence.Iteration
import GraphCalc.Proofs.Settings.FileNames
import GraphCalc.Proofs.Settings.Layers
import GraphCalc.Proofs.Plot.Log
import GraphCalc.Proofs.Sequence.Lookup
import GraphCalc.Proofs.Sequence.Arena
import GraphCalc.Proofs.Plot.Start
import GraphCalc.Proofs.Expr.Unambiguous
import GraphCalc.Proofs.Expr.Operands
import GraphCalc.Proofs.Plot.Columns

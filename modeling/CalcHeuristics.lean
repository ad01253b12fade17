import CalcHeuristics.Flow.Path
import CalcHeuristics.Flow.Loop
import CalcHeuristics.Stdio.Line
import CalcHeuristics.Stdio.Align
import CalcHeuristics.Analyses
import CalcHeuristics.Heuristics
import CalcHeuristics.Stdio.Printf
import CalcHeuristics.Pass
import CalcHeuristics.Fallible.Bind
import CalcHeuristics.Lists.SideBySide
import CalcHeuristics.Proof.Successor
import CalcHeuristics.Flow.Search
import CalcHeuristics.Proof.Condition
import CalcHeuristics.Proof.Inversion
import CalcHeuristics.Proof.DebugInfo
import CalcHeuristics.Proof.Output
import CalcHeuristics.Proof.Profile
import CalcHeuristics.Proof.Comparison
import CalcHeuristics.Proof.Descriptors
import CalcHeuristics.Proof.TrueProbability
import CalcHeuristics.Proof.Unconditional
import CalcHeuristics.Stdio.Restart
import CalcHeuristics.Session
import CalcHeuristics.Stdio.RowBuffer
import CalcHeuristics.Stdio.CutRow
import CalcHeuristics.Proof.Sessions
import CalcHeuristics.Proof.Crash
import CalcHeuristics.Csv.Reader
import CalcHeuristics.Numpy.Package
import CalcHeuristics.Numpy.Reference
import CalcHeuristics.FloatingPoint.Nearest
import CalcHeuristics.MachineLearning
import CalcHeuristics.Proof.Fields
import CalcHeuristics.Proof.DataSet
import CalcHeuristics.Proof.Training
import CalcHeuristics.Proof.CutRows
import CalcHeuristics.Proof.AnyFunction
import CalcHeuristics.Flow.Iso
import CalcHeuristics.Renaming
import CalcHeuristics.Proof.AnyFiles
import CalcHeuristics.Proof.RoundTrip
import CalcHeuristics.Proof.Relayout
import CalcHeuristics.Proof.RelaidRuns

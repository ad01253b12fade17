import CalcHeuristics.Csv.Reader
import CalcHeuristics.FloatingPoint.Nearest
import CalcHeuristics.Numpy.Package
import CalcHeuristics.Pass

/-!
# The data sets

`machine_learning.py` reads the two files of every benchmark, drops from the training data the rows on
which no heuristic has anything to say, and rounds the first column of the true probabilities to a label.
The array package is a parameter, and with it what `float` makes of a field.
-/

namespace CalcHeuristics

open FloatingPoint (Datum)

/-- The directories under `benchmarks/`. -/
inductive Benchmark where
  | basicmath
  | bitcount
  | qsort
  | susan
  | dijkstra
  | patricia
  deriving DecidableEq

inductive PythonError where
  | fileNotFound
  | csv (e : Csv.Error)
  | numpy (e : Numpy.Error)
  deriving DecidableEq

/-- The texts of the files that exist. -/
abbrev CsvFiles := Benchmark → CsvFile → Option (List Char)

/-- The four arrays `generate_training_data` returns. -/
structure TrainingData (δ : Type) where
  xTrain : δ
  yTrain : List Datum
  xTest : δ
  yTest : List Datum

def trainBenchmarkFolders : List Benchmark := [.basicmath, .bitcount, .qsort, .susan, .dijkstra, .patricia]

def testBenchmarkFolders : List Benchmark := [.basicmath]

/-- `np.array(['0.5'] * 8)` -/
def notApplicable : List (List Char) := List.replicate 8 ['0', '.', '5']

section
variable {σ δ : Type} (np : Numpy.Package (List Char) Datum σ δ)

/-- `np.array(list(csv.reader(f, delimiter=",")))` for a file opened before. -/
def readCsv (file : Option (List Char)) : Except PythonError σ :=
  match file with
  | none => .error .fileNotFound
  | some text => ((Csv.reader ',' text).mapError .csv).map np.array

/-- The body of the first loop. -/
def addTrain (files : CsvFiles) (train : δ × δ) (folder : Benchmark) : Except PythonError (δ × δ) := do
  let heuristicsData ← readCsv np (files folder .heuristics)
  let probabilityData ← readCsv np (files folder .trueProbability)
  let mask ← (np.allEqual heuristicsData notApplicable).mapError .numpy
  let notApplicableIdxs := np.nonzero mask
  let heuristicsData ← (np.delete heuristicsData notApplicableIdxs >>= np.astype).mapError .numpy
  let probabilityData ← (np.delete probabilityData notApplicableIdxs >>= np.astype).mapError .numpy
  let xTrain ← (np.concatenate train.1 heuristicsData).mapError .numpy
  let yTrain ← (np.concatenate train.2 probabilityData).mapError .numpy
  return (xTrain, yTrain)

/-- The body of the second loop, which deletes nothing. -/
def addTest (files : CsvFiles) (test : δ × δ) (folder : Benchmark) : Except PythonError (δ × δ) := do
  let heuristicsData ← readCsv np (files folder .heuristics)
  let probabilityData ← readCsv np (files folder .trueProbability)
  let xTest ← (np.astype heuristicsData >>= np.concatenate test.1).mapError .numpy
  let yTest ← (np.astype probabilityData >>= np.concatenate test.2).mapError .numpy
  return (xTest, yTest)

/-- `y[:, 0]`, with every element rounded to no decimals. -/
def labels (y : δ) : Except PythonError (List Datum) :=
  ((np.firstColumn y).mapError .numpy).map (List.map Datum.round)

def generateTrainingData (files : CsvFiles) : Except PythonError (TrainingData δ) := do
  let train ← trainBenchmarkFolders.foldlM (addTrain np files) (np.empty 8, np.empty 2)
  let test ← testBenchmarkFolders.foldlM (addTest np files) (np.empty 8, np.empty 2)
  let yTrain ← labels np train.2
  let yTest ← labels np test.2
  return ⟨train.1, yTrain, test.1, yTest⟩

end

end CalcHeuristics

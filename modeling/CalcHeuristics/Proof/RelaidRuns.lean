import CalcHeuristics.Proof.Relayout
import CalcHeuristics.Proof.Training

/-!
# Runs over functions laid out differently

The rows a run prints for a function are those of its branches, in the order of its blocks. Laying the
blocks out differently permutes them, and as both files and the script keep the rows of a branch together
when the streams flush in step, all that becomes of it is another order of the examples.
-/

namespace CalcHeuristics

open Stdio FloatingPoint SideBySide

/-- A function laid out differently, with the same probabilities on its edges and any other analyses. -/
inductive Relaid : AnalysedFunction → AnalysedFunction → Prop
  | rename {n : Nat} {F : Function n} {A A' : Analyses n} (r : Renaming n) (hF : F.verified = true)
      (hprob : ∀ b, A'.getEdgeProbability (r.block b) 0 = A.getEdgeProbability b 0) :
      Relaid ⟨n, F, A⟩ ⟨n, F.rename r, A'⟩

/-- A row without the name of its branch. -/
def RowRecord.anonymous (record : RowRecord) : RowRecord := { record with branch := ⟨0, 0⟩ }

/-! ### The rows of a function -/

/-- The rows printed for the blocks of a function, wherever it stands in its module. -/
def functionRows (f : AnalysedFunction) : List RowRecord :=
  (List.finRange f.blocks).flatMap fun b =>
    (blockPrinted f.function f.analyses 0 b).records.map RowRecord.anonymous

section
variable {n : Nat} {F : Function n} {A : Analyses n}

theorem anonymous_blockPrinted (index : Nat) (b : Fin n) :
    (blockPrinted F A index b).records.map RowRecord.anonymous =
      (blockPrinted F A 0 b).records.map RowRecord.anonymous := by
  rw [blockPrinted, blockPrinted]
  cases F.branchInst b with
  | none => rfl
  | some br =>
      dsimp only
      cases heuristicRow F A b br.takenSuccessor br.notTakenSuccessor <;> rfl

theorem anonymous_functionPrinted (hpass : ∀ b, Passes F b) (index : Nat) :
    (functionPrinted F A index).records.map RowRecord.anonymous = functionRows ⟨n, F, A⟩ := by
  rw [functionPrinted, blocksPrinted_of_passes fun b _ => hpass b, functionRows, List.map_flatMap]
  exact List.flatMap_congr fun b _ => anonymous_blockPrinted index b

end

theorem anonymous_printedRecords {M : Module} (hpass : ∀ f ∈ M, ∀ b, Passes f.function b) :
    (printedRecords M).map RowRecord.anonymous = M.flatMap functionRows := by
  have hrecords := moduleRecords_eq_ok_iff.2 ⟨hpass, rfl⟩
  rw [printedRecords, hrecords]
  conv_rhs => rw [← List.zipIdx_map_fst 0 M]
  rw [List.flatMap_map, List.map_flatten, List.map_map, ← List.flatMap]
  exact List.flatMap_congr fun f hf => anonymous_functionPrinted
    ((forall_functions_iff fun f => ∀ b, Passes f.function b).2 hpass f hf) f.2

/-! ### The same rows in another order -/

section
variable {f f' : AnalysedFunction} {M M' : Module}

theorem Relaid.branchCount_eq (h : Relaid f f') : branchCount f' = branchCount f := by
  obtain ⟨r, _, _⟩ := h
  rw [branchCount, branchCount, ← (Equiv.Perm.map_finRange_perm r.block).countP_eq, List.countP_map]
  congr 1
  funext b
  simp [Function.branchInst_rename]

/-- The rows keep their contents when every block reaches an exit and the analyses are those of the two
functions. -/
theorem Relaid.functionRows_perm (h : Relaid f f') (hexit : f.function.ReachesExit)
    (hA : f.analyses.Standard f.function) (hA' : f'.analyses.Standard f'.function) :
    (functionRows f').Perm (functionRows f) := by
  obtain ⟨r, hF, hprob⟩ := h
  have hpost := hA.postDominance hexit
  have hpost' := hA'.postDominance (reachesExit_rename hexit)
  rw [functionRows, functionRows]
  refine ((Equiv.Perm.map_finRange_perm r.block).symm.flatMap_right _).trans ?_
  rw [List.flatMap_map]
  refine List.Perm.of_eq (List.flatMap_congr fun b _ => ?_)
  rw [blockPrinted, blockPrinted, Function.branchInst_rename]
  cases Function.branchInst _ b with
  | none => rfl
  | some br =>
      rw [Option.map_some]
      dsimp only
      rw [br.heuristicRow_rename hF hA.loopInfo hpost hA'.loopInfo hpost', hprob]
      cases heuristicRow _ _ b br.takenSuccessor br.notTakenSuccessor <;> rfl

theorem passes_rename {n : Nat} {F : Function n} (r : Renaming n) (hF : F.verified = true) (b : Fin n) :
    Passes (F.rename r) (r.block b) ↔ Passes F b := by
  have hbranch := F.branchInst_rename r b
  cases hb : F.branchInst b with
  | none =>
      rw [hb] at hbranch
      simp [Passes, hbranch, hb]
  | some br =>
      rw [hb] at hbranch
      rw [← heuristicRow_ok_iff_passes (A := standardAnalyses F fun _ _ => certain) hb,
        ← heuristicRow_ok_iff_passes
          (A := standardAnalyses (F.rename r) fun _ _ => certain) hbranch,
        br.heuristicRow_rename hF (naturalLoops_standard F) (standardAnalyses_postDominance F _)
          (naturalLoops_standard _) (standardAnalyses_postDominance _ _)]

theorem Relaid.passes_iff (h : Relaid f f') :
    (∀ b, Passes f'.function b) ↔ ∀ b, Passes f.function b := by
  obtain ⟨r, hF, _⟩ := h
  rw [r.block.surjective.forall]
  exact forall_congr' fun b => passes_rename r hF b

/-- Which functions have their streams depends on their positions only. -/
theorem goesThrough_iff (cfg : Config) (h : List.Forall₂ Relaid M M') :
    GoesThrough cfg M' ↔ GoesThrough cfg M := by
  have hserved : List.Forall₂ Relaid (served cfg M) (served cfg M') := by
    rw [served, served]
    cases cfg.maxOpen with
    | none => exact h
    | some limit => exact List.forall₂_take (limit / 2) h
  have hunserved : List.Forall₂ Relaid (unserved cfg M) (unserved cfg M') := by
    rw [unserved, unserved]
    cases cfg.maxOpen with
    | none => exact .nil
    | some limit => exact List.forall₂_drop (limit / 2) h
  rw [GoesThrough, GoesThrough, forall_iff_of_forall₂ (fun _ _ hf => hf.passes_iff) hserved,
    forall_iff_of_forall₂ (fun _ _ hf => by rw [hf.branchCount_eq]) hunserved]

theorem map_branchCount_eq (h : List.Forall₂ Relaid M M') : M'.map branchCount = M.map branchCount := by
  induction h with
  | nil => rfl
  | cons hf _ ih => rw [List.map_cons, List.map_cons, hf.branchCount_eq, ih]

theorem inStep_iff {C : Nat} (h : List.Forall₂ Relaid M M') : InStep C M' ↔ InStep C M := by
  rw [InStep, InStep, map_branchCount_eq h]

/-- Every block of the functions reaches an exit, and their analyses are standard before and after. -/
structure Comparable (M M' : Module) : Prop where
  reachesExit : ∀ f ∈ M, f.function.ReachesExit
  standard : ∀ f ∈ M, f.analyses.Standard f.function
  standard' : ∀ f ∈ M', f.analyses.Standard f.function

theorem printedRecords_perm (h : List.Forall₂ Relaid M M') (hcomparable : Comparable M M')
    (hpass : ∀ f ∈ M, ∀ b, Passes f.function b) :
    ((printedRecords M').map RowRecord.anonymous).Perm
      ((printedRecords M).map RowRecord.anonymous) := by
  rw [anonymous_printedRecords hpass,
    anonymous_printedRecords ((forall_iff_of_forall₂ (fun _ _ hf => hf.passes_iff) h).2 hpass)]
  obtain ⟨hexit, hA, hA'⟩ := hcomparable
  clear hpass
  induction h with
  | nil => exact .refl _
  | cons hf _ ih =>
      rw [List.forall_mem_cons] at hexit hA hA'
      rw [List.flatMap_cons, List.flatMap_cons]
      exact (hf.functionRows_perm hexit.1 hA.1 hA'.1).append (ih hexit.2 hA.2 hA'.2)

/-- What does not look at the names of the branches is permuted with the rows. -/
theorem perm_of_anonymous {β : Type} {g : RowRecord → β} (hg : ∀ record, g record.anonymous = g record)
    {records records' : List RowRecord}
    (h : (records'.map RowRecord.anonymous).Perm (records.map RowRecord.anonymous)) :
    (records'.map g).Perm (records.map g) := by
  have hmap : ∀ l : List RowRecord, l.map g = (l.map RowRecord.anonymous).map g := fun l => by
    rw [List.map_map]
    exact List.map_congr_left fun record _ => (hg record).symm
  rw [hmap records', hmap records]
  exact h.map g

/-! ### The same files in another order -/

/-- Two modules that differ in the layout of their functions fault together, and when the streams flush in
step, their runs print the same pairs of rows. -/
theorem optOver_relaid (cfg : Config) (h : List.Forall₂ Relaid M M') :
    ((optOver cfg M' fun _ => []).2 = none ↔ (optOver cfg M fun _ => []).2 = none) ∧
      (Comparable M M' → (optOver cfg M fun _ => []).2 = none → InStep cfg.bufferSize M →
        ((runLines cfg M' .heuristics).zip (runLines cfg M' .trueProbability)).Perm
          ((runLines cfg M .heuristics).zip (runLines cfg M .trueProbability))) := by
  rw [fault_optOver, fault_optOver]
  refine ⟨goesThrough_iff cfg h, fun hcomparable hthrough hstep => ?_⟩
  obtain ⟨order, horder, hlines⟩ := exists_order hthrough hstep
  obtain ⟨order', horder', hlines'⟩ :=
    exists_order ((goesThrough_iff cfg h).2 hthrough) ((inStep_iff h).2 hstep)
  rw [hlines, hlines, hlines', hlines', List.zip_map', List.zip_map']
  refine perm_of_anonymous (fun _ => rfl) ?_
  exact (horder'.map _).trans
    ((printedRecords_perm h hcomparable hthrough.passes).trans (horder.map _).symm)

end

/-- The second and the third block are exchanged. -/
def swapBlocks (k : Nat) : Renaming (k + 3) where
  block := Equiv.swap ⟨1, by omega⟩ ⟨2, by omega⟩
  instruction := ⟨(· + 10), fun _ _ => Nat.add_right_cancel⟩
  block_entry h := Equiv.swap_apply_of_ne_of_ne (by simp) (by simp)

def swappedChain (k : Nat) : AnalysedFunction :=
  ⟨k + 3, (chain (k + 2)).rename (swapBlocks k),
    standardAnalyses ((chain (k + 2)).rename (swapBlocks k)) fun _ _ => certain⟩

/-- A run that flushes early, over functions in their own layout and in another one. -/
def chainLayouts : Module × Module :=
  ([analysedChain 2049, analysedChain 3], [swappedChain 2047, swappedChain 1])

theorem relaid_chainLayouts : List.Forall₂ Relaid chainLayouts.1 chainLayouts.2 :=
  .cons (.rename (swapBlocks 2047) (chain_verified 2049) fun _ => rfl)
    (.cons (.rename (swapBlocks 1) (chain_verified 3) fun _ => rfl) .nil)

theorem chain_reachesExit (k : Nat) : (chain k).ReachesExit := by
  have hexit : (chain k).flowGraph.IsExit (Fin.last k) := by
    intro s hs
    simp [Function.flowGraph, Function.successors, BasicBlock.successors, chain,
      Operation.successors?] at hs
  have hedge : ∀ b : Fin k, (chain k).flowGraph.edge b.castSucc b.succ := by
    intro b
    simp [Function.flowGraph, Function.successors, BasicBlock.successors, chain,
      Operation.successors?, BranchInst.successors, Fin.ext_iff]
  intro b
  induction b using Fin.reverseInduction with
  | last => exact ⟨_, _, hexit, .single _⟩
  | cast b ih =>
      obtain ⟨e, p, he, hp⟩ := ih
      exact ⟨e, _, he, .cons (hedge b) hp⟩

theorem comparable_chainLayouts : Comparable chainLayouts.1 chainLayouts.2 where
  reachesExit f hf := by
    obtain rfl | rfl := List.mem_pair.1 hf
    · exact chain_reachesExit 2049
    · exact chain_reachesExit 3
  standard f hf := by
    obtain rfl | rfl := List.mem_pair.1 hf <;> exact standardAnalyses_standard _ _
  standard' f hf := by
    obtain rfl | rfl := List.mem_pair.1 hf <;> exact standardAnalyses_standard _ _

theorem goesThrough_chainLayouts : GoesThrough (stdio 4096 (by decide)) chainLayouts.1 :=
  goesThrough_chain [2049, 3]

theorem branchCounts_chainLayouts : chainLayouts.1.map branchCount = [2049, 3] :=
  map_branchCount_chain [2049, 3]

theorem inStep_chainLayouts : InStep (stdio 4096 (by decide)).bufferSize chainLayouts.1 := by
  rw [InStep, branchCounts_chainLayouts, List.pairwise_pair]
  exact Or.inr (Or.inr ⟨2048, by decide, by decide, by decide⟩)

theorem optOver_relaid_chainLayouts :
    (optOver (stdio 4096 (by decide)) chainLayouts.2 fun _ => []).2 = none ∧
      ((runLines (stdio 4096 (by decide)) chainLayouts.2 .heuristics).zip
          (runLines (stdio 4096 (by decide)) chainLayouts.2 .trueProbability)).Perm
        ((runLines (stdio 4096 (by decide)) chainLayouts.1 .heuristics).zip
          (runLines (stdio 4096 (by decide)) chainLayouts.1 .trueProbability)) := by
  obtain ⟨hfault, hrows⟩ := optOver_relaid (stdio 4096 (by decide)) relaid_chainLayouts
  have hnone := (fault_optOver (stdio 4096 (by decide)) chainLayouts.1 fun _ => []).2
    goesThrough_chainLayouts
  exact ⟨hfault.2 hnone, hrows comparable_chainLayouts hnone inStep_chainLayouts⟩

/-! ### The same examples in another order -/

section
variable {records records' : List RowRecord}
  (h : (records'.map RowRecord.anonymous).Perm (records.map RowRecord.anonymous))
include h

theorem applies_perm : ((records'.filter RowRecord.applies).map RowRecord.anonymous).Perm
    ((records.filter RowRecord.applies).map RowRecord.anonymous) := by
  have hfilter : ∀ l : List RowRecord, (l.filter RowRecord.applies).map RowRecord.anonymous =
      (l.map RowRecord.anonymous).filter RowRecord.applies := fun l => by
    rw [List.filter_map]
    rfl
  rw [hfilter, hfilter]
  exact h.filter _

theorem examples_perm : ((records'.map RowRecord.features).zip (records'.map RowRecord.label)).Perm
    ((records.map RowRecord.features).zip (records.map RowRecord.label)) := by
  rw [List.zip_map', List.zip_map']
  exact perm_of_anonymous (fun _ => rfl) h

end

/-- The runs of the two sequences differ in the layout of their functions, and can be compared. -/
def RelaidRuns (modules modules' : List Module) : Prop :=
  List.Forall₂ (fun M M' => List.Forall₂ Relaid M M' ∧ Comparable M M') modules modules'

theorem runRecords_perm {modules modules' : List Module} (h : RelaidRuns modules modules')
    (hpass : ∀ M ∈ modules, ∀ f ∈ M, ∀ b, Passes f.function b) :
    ((modules'.flatMap printedRecords).map RowRecord.anonymous).Perm
      ((modules.flatMap printedRecords).map RowRecord.anonymous) := by
  induction h with
  | nil => exact .refl _
  | cons hM _ ih =>
      rw [List.flatMap_cons, List.flatMap_cons, List.map_append, List.map_append]
      exact (printedRecords_perm hM.1 hM.2 (hpass _ List.mem_cons_self)).append
        (ih fun M hM' => hpass M (List.mem_cons_of_mem _ hM'))

section
variable {σ δ : Type} {np : Numpy.Package (List Char) Datum σ δ} {float : List Char → Option Datum}
  (hnp : np.Documented float IsText) (hfloat : ReadsFixed float) {cfg : Config}
  {runs runs' : Benchmark → List Module} (hrelaid : ∀ folder, RelaidRuns (runs folder) (runs' folder))
  (h : ∀ folder, ∀ M ∈ runs folder, GoesThrough cfg M)
  (hstep : ∀ folder, ∀ M ∈ runs folder, InStep cfg.bufferSize M)
include hnp hfloat hrelaid h hstep

/-- Laying out the functions of the benchmarks differently only changes the order of the examples. -/
theorem trainingData_relaid {data : TrainingData δ}
    (hdata : generateTrainingData np (runFiles cfg runs) = .ok data) :
    ∃ data' x x' t t', generateTrainingData np (runFiles cfg runs') = .ok data' ∧
      np.HasRows data.xTrain 8 x ∧ np.HasRows data'.xTrain 8 x' ∧
      np.HasRows data.xTest 8 t ∧ np.HasRows data'.xTest 8 t' ∧
      (x'.zip data'.yTrain).Perm (x.zip data.yTrain) ∧
      (t'.zip data'.yTest).Perm (t.zip data.yTest) := by
  have h' : ∀ folder, ∀ M ∈ runs' folder, GoesThrough cfg M := fun folder =>
    (forall_iff_of_forall₂ (fun _ _ hM => goesThrough_iff cfg hM.1) (hrelaid folder)).2 (h folder)
  have hstep' : ∀ folder, ∀ M ∈ runs' folder, InStep cfg.bufferSize M := fun folder =>
    (forall_iff_of_forall₂ (fun _ _ hM => inStep_iff hM.1) (hrelaid folder)).2 (hstep folder)
  obtain ⟨order, horder, _, hordered⟩ := exists_ordered h hstep
  obtain ⟨order', horder', _, hordered'⟩ := exists_ordered h' hstep'
  have hperm : ∀ folder, ((order' folder).map RowRecord.anonymous).Perm
      ((order folder).map RowRecord.anonymous) := fun folder =>
    ((horder' folder).map _).trans ((runRecords_perm (hrelaid folder) fun M hM =>
      (h folder M hM).passes).trans ((horder folder).map _).symm)
  have hall : ∀ folders : List Benchmark, ((folders.flatMap order').map RowRecord.anonymous).Perm
      ((folders.flatMap order).map RowRecord.anonymous) := by
    intro folders
    rw [List.map_flatMap, List.map_flatMap]
    exact List.Perm.flatMap_left folders fun folder _ => hperm folder
  obtain ⟨hok, hexamples⟩ := trainingData_of_ordered hnp hfloat hordered
  obtain ⟨hok', hexamples'⟩ := trainingData_of_ordered hnp hfloat hordered'
  obtain ⟨data', hdata'⟩ := hok'.2 fun folder hnil => by
    have hempty := hperm folder
    rw [hnil, List.map_nil, List.nil_perm, List.map_eq_nil_iff] at hempty
    exact hok.1 ⟨data, hdata⟩ folder hempty
  obtain ⟨hx, hy, ht, hyt⟩ := hexamples data hdata
  obtain ⟨hx', hy', ht', hyt'⟩ := hexamples' data' hdata'
  refine ⟨data', _, _, _, _, hdata', hx, hx', ht, ht', ?_, ?_⟩
  · rw [hy, hy']
    exact examples_perm (applies_perm (hall _))
  · rw [hyt, hyt']
    exact examples_perm (hall _)

end

theorem trainingData_relaid_chainLayouts : ∃ data data' x x' t t',
    generateTrainingData (Numpy.reference readNearest)
        (runFiles (stdio 4096 (by decide)) fun _ => [chainLayouts.1]) = .ok data ∧
      generateTrainingData (Numpy.reference readNearest)
        (runFiles (stdio 4096 (by decide)) fun _ => [chainLayouts.2]) = .ok data' ∧
      (Numpy.reference readNearest).HasRows data.xTrain 8 x ∧
      (Numpy.reference readNearest).HasRows data'.xTrain 8 x' ∧
      (Numpy.reference readNearest).HasRows data.xTest 8 t ∧
      (Numpy.reference readNearest).HasRows data'.xTest 8 t' ∧
      (x'.zip data'.yTrain).Perm (x.zip data.yTrain) ∧
      (t'.zip data'.yTest).Perm (t.zip data.yTest) := by
  have hnp := Numpy.reference_documented readNearest IsText
  have hrelaid : ∀ _ : Benchmark, RelaidRuns [chainLayouts.1] [chainLayouts.2] := fun _ =>
    .cons ⟨relaid_chainLayouts, comparable_chainLayouts⟩ .nil
  have hthrough : ∀ _ : Benchmark, ∀ M ∈ [chainLayouts.1], GoesThrough (stdio 4096 (by decide)) M :=
    fun _ _ hM => List.mem_singleton.1 hM ▸ goesThrough_chainLayouts
  have hstep : ∀ _ : Benchmark, ∀ M ∈ [chainLayouts.1],
      InStep (stdio 4096 (by decide)).bufferSize M :=
    fun _ _ hM => List.mem_singleton.1 hM ▸ inStep_chainLayouts
  obtain ⟨order, _, hlength, hordered⟩ := exists_ordered hthrough hstep
  obtain ⟨hok, _⟩ := trainingData_of_ordered hnp readsFixed_readNearest hordered
  obtain ⟨data, hdata⟩ := hok.2 fun folder hnil => by
    have hcount := hlength folder
    rw [hnil] at hcount
    simp [runBranches, branchCounts_chainLayouts] at hcount
  obtain ⟨data', x, x', t, t', hrest⟩ :=
    trainingData_relaid hnp readsFixed_readNearest hrelaid hthrough hstep hdata
  exact ⟨data, data', x, x', t, t', hdata, hrest⟩

end CalcHeuristics

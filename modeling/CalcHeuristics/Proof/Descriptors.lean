import CalcHeuristics.Fallible.Bind
import CalcHeuristics.Proof.Output

/-!
# Running out of streams

Every call of `runOnFunction` opens two streams and closes none, so a process that may hold `limit` of
them gives both to its first `limit / 2` functions only. After that the second `fopen` returns null, and
the next branch is printed to it. A run ends that way exactly when such a branch is reached, which a
fault of the heuristics in one of the first functions prevents.
-/

namespace CalcHeuristics

open Stdio Fallible

/-! ### Faults of the heuristics -/

section
variable {n : Nat} {F : Function n} {A : Analyses n} {b t : Fin n} {f : Option (Fin n)}
  {index : Nat}

theorem conditionOperands_ne_nullStream : conditionOperands F b ≠ .error .nullStream := by
  cases hb : F.branchInst b with
  | none => simp [conditionOperands, hb, deref, bind, Except.bind]
  | some br =>
      cases br with
      | unconditional s => simp [conditionOperands_unconditional hb]
      | conditional cond s s' =>
          rw [conditionOperands_conditional hb]
          split
          · simp
          · split <;> simp

theorem opcodePrediction_ne_nullStream {pred : Predicate}
    {lone : Option (Value × Predicate × Predicate)} :
    opcodePrediction getSExtValue pred lone ≠ .error .nullStream := by
  obtain _ | ⟨c, strict, weak⟩ := lone
  · simp [opcodePrediction]
  · have hderef : deref c.dynCastConstantInt ≠ .error .nullStream := by
      cases c.dynCastConstantInt <;> simp [deref]
    have hsext : ∀ constant, getSExtValue constant ≠ .error .nullStream := by
      intro constant
      rw [getSExtValue]
      split <;> simp
    exact bind_ne_error hderef fun constant =>
      bind_ne_error (hsext constant) fun _ => by simp [pure, Except.pure]

theorem hOpcode_ne_nullStream : hOpcode F b ≠ .error .nullStream := by
  rw [hOpcode_eq]
  apply bind_ne_error conditionOperands_ne_nullStream
  intro operands
  split
  · split
    · exact opcodePrediction_ne_nullStream
    · simp
  · simp

theorem heuristicRow_ne_nullStream : heuristicRow F A b t f ≠ .error .nullStream := by
  have hpointer : hPointer F b ≠ .error .nullStream := by
    rw [hPointer_eq]
    exact map_ne_error conditionOperands_ne_nullStream
  have hguard : hGuard F A b t f ≠ .error .nullStream := by
    rw [hGuard_eq]
    exact map_ne_error conditionOperands_ne_nullStream
  exact bind_ne_error hpointer fun _ => bind_ne_error hOpcode_ne_nullStream fun _ =>
    bind_ne_error hguard fun _ => by simp [pure, Except.pure]

theorem fault_blocksPrinted_ne_nullStream (blocks : List (Fin n)) :
    (blocksPrinted F A index blocks).fault ≠ some .nullStream := by
  induction blocks with
  | nil => simp [blocksPrinted, Printed.fault]
  | cons b blocks ih =>
      by_cases hb : Passes F b
      · rw [blocksPrinted, Printed.andThen_of_passed (stopped_blockPrinted.2 hb)]
        exact ih
      · rw [blocksPrinted_cons_of_not_passes hb, blockPrinted]
        cases F.branchInst b with
        | none => simp [Printed.fault]
        | some br =>
            have hrow : heuristicRow F A b br.takenSuccessor br.notTakenSuccessor ≠
                .error .nullStream := heuristicRow_ne_nullStream
            dsimp only
            cases hfault : heuristicRow F A b br.takenSuccessor br.notTakenSuccessor with
            | ok row => simp [Printed.fault]
            | error fault =>
                intro heq
                obtain rfl : fault = .nullStream := by simpa [Printed.fault] using heq
                exact hrow hfault

end

theorem printedFault_ne_nullStream (functions : List (AnalysedFunction × Nat)) :
    printedFault (functionsPrinted functions) ≠ some .nullStream := by
  intro h
  obtain ⟨printed, hmem, hfault⟩ := List.exists_of_findSome?_eq_some h
  obtain ⟨f, _, rfl⟩ := mem_functionsPrinted hmem
  exact fault_blocksPrinted_ne_nullStream _ hfault

/-! ### The streams of a call -/

section
variable {n : Nat} {F : Function n} {A : Analyses n} {cfg : Config} {index limit : Nat}
  {p p' : Process CsvFile OutByte}

theorem length_streams_fprintf {stream : Option Nat} {branch : BranchId} {text : List Char}
    (h : fprintf cfg stream branch text p = .ok p') : p'.streams.length = p.streams.length := by
  cases stream with
  | none => simp [fprintf] at h
  | some s =>
      rw [← Except.ok.inj h]
      simp

theorem length_streams_writeBlock {heuristicData trueProbData : Option Nat} {b : Fin n}
    (h : Tracked.writeBlock F A cfg index heuristicData trueProbData p b = .ok p') :
    p'.streams.length = p.streams.length := by
  rw [Tracked.writeBlock] at h
  split at h
  · rw [Except.ok.inj h]
  · rename_i br _
    dsimp only at h
    cases hprinted : fprintf cfg trueProbData ⟨index, b⟩
        (trueProbText (A.getEdgeProbability b 0)) p with
    | error stopped => simp [hprinted, bind, Except.bind] at h
    | ok printed =>
        cases hrow : heuristicRow F A b br.takenSuccessor br.notTakenSuccessor with
        | error fault => simp [hprinted, hrow, Except.mapError, bind, Except.bind] at h
        | ok row =>
            have h' : fprintf cfg heuristicData ⟨index, b⟩ row.text printed = .ok p' := by
              simpa [hprinted, hrow, Except.mapError, bind, Except.bind] using h
            rw [length_streams_fprintf h', length_streams_fprintf hprinted]

/-- Of the streams open after a call, those not open before are its own two. -/
theorem length_streams_runOnFunction (hlimit : cfg.maxOpen = some limit)
    (h : Tracked.runOnFunction F A cfg index p = .ok p') :
    p'.streams.length = max p.streams.length (min (p.streams.length + 2) limit) := by
  have hblocks : ∀ (heuristicData trueProbData : Option Nat) (blocks : List (Fin n))
      {q q' : Process CsvFile OutByte},
      blocks.foldlM (Tracked.writeBlock F A cfg index heuristicData trueProbData) q = .ok q' →
        q'.streams.length = q.streams.length := by
    intro heuristicData trueProbData blocks
    induction blocks with
    | nil => intro q q' hq; rw [Except.ok.inj hq]
    | cons b blocks ih =>
        intro q q' hq
        rw [List.foldlM_cons] at hq
        cases hb : Tracked.writeBlock F A cfg index heuristicData trueProbData q b with
        | error stopped => simp [hb, bind, Except.bind] at hq
        | ok r =>
            rw [hb] at hq
            rw [ih hq, length_streams_writeBlock hb]
  rw [tracked_runOnFunction_eq] at h
  rw [hblocks _ _ _ h, length_streams_fopen, length_streams_fopen, hlimit]
  simp only [Option.all_some, decide_eq_true_eq]
  split_ifs <;> omega

end

/-! ### A run -/

section
variable {cfg : Config} {limit : Nat} {p : Process CsvFile OutByte}

/-- A run ends at a null stream when the functions that have their streams are passed and a later one has a
branch. -/
theorem runOnModule_nullStream_iff (hlimit : cfg.maxOpen = some limit) (M : Module) :
    runOnModule cfg M = .error .nullStream ↔
      (∀ f ∈ M.take (limit / 2), ∀ b, Passes f.function b) ∧
        ∃ f ∈ M.drop (limit / 2), branchCount f ≠ 0 := by
  have hserved : served cfg M = M.take (limit / 2) := by rw [served, hlimit]
  have hunserved : unserved cfg M = M.drop (limit / 2) := by rw [unserved, hlimit]
  have hpasses : printedFault (functionsPrinted (served cfg M.zipIdx)) = none ↔ _ :=
    printedFault_functionsPrinted
  rw [forall_served_iff cfg M fun f => ∀ b, Passes f.function b, hserved] at hpasses
  rw [runOnModule_eq_error_iff, optOver_empty, runFault, ← hpasses, hunserved]
  cases hfault : printedFault (functionsPrinted (served cfg M.zipIdx)) with
  | some fault =>
      have hne := hfault ▸ printedFault_ne_nullStream (served cfg M.zipIdx)
      simpa using hne
  | none => simp

/-- Each function that returns leaves two more streams open, up to the limit. -/
theorem length_streams_runOnFunctions (hlimit : cfg.maxOpen = some limit)
    (functions : List (AnalysedFunction × Nat)) {p' : Process CsvFile OutByte}
    (hp : p.streams.length ≤ limit) (h : Tracked.runOnFunctions cfg functions p = .ok p') :
    p'.streams.length = min (p.streams.length + 2 * functions.length) limit := by
  induction functions generalizing p with
  | nil =>
      rw [← Except.ok.inj h]
      simpa using hp
  | cons f functions ih =>
      rw [Tracked.runOnFunctions, List.foldlM_cons] at h
      cases hf : Tracked.runOnFunction f.1.function f.1.analyses cfg f.2 p with
      | error stopped => simp [hf, bind, Except.bind] at h
      | ok q =>
          rw [hf] at h
          have hq := length_streams_runOnFunction hlimit hf
          rw [ih (by omega) h, List.length_cons]
          omega

/-- In a process that may hold `limit` streams, every row is printed to a stream exactly when a fault in
one of the first `limit / 2` functions ends the run, or none of the later functions has a branch. A call
leaves the open streams as they were exactly when there was none left to open, and a run over a module
leaves two for each function, up to the limit. -/
theorem rows_have_streams_iff (hlimit : cfg.maxOpen = some limit) (M : Module) :
    (runOnModule cfg M ≠ .error .nullStream ↔
        ((∀ f ∈ M.take (limit / 2), ∀ b, Passes f.function b) →
          ∀ f ∈ M.drop (limit / 2), branchCount f = 0)) ∧
      (∀ (f : AnalysedFunction) (index : Nat) (p p' : Process CsvFile OutByte),
        runOnFunction f.function f.analyses cfg index p = .ok p' →
          ((∀ s, p'.IsOpen s ↔ p.IsOpen s) ↔ limit ≤ p.streams.length)) ∧
      ∀ p, runOnModule cfg M = .ok p → p.streams.length = min (2 * M.length) limit := by
  refine ⟨?_, fun f index p p' h => ?_, fun p h => ?_⟩
  · rw [ne_eq, runOnModule_nullStream_iff hlimit M]
    push Not
    rfl
  · rw [isOpen_iff_iff, length_streams_runOnFunction hlimit (mapError_eq_ok_iff.1 h)]
    omega
  · have hlength := length_streams_runOnFunctions (p := Process.start) hlimit M.zipIdx
      (Nat.zero_le limit) (mapError_eq_ok_iff.1 h)
    simpa [Process.start] using hlength

end

/-! ### Functions with one branch each -/

/-- A process that may hold `limit` streams, with the usual buffers. -/
def descriptors (limit : Nat) : Config := ⟨4096, by decide, some limit⟩

theorem rows_have_streams_iff_chains :
    runOnModule (descriptors 1020) (List.replicate 510 (analysedChain 1)) ≠ .error .nullStream := by
  have hlimit : (descriptors 1020).maxOpen = some 1020 := rfl
  refine (rows_have_streams_iff hlimit (List.replicate 510 (analysedChain 1))).1.2 fun _ f hf => ?_
  rw [List.drop_of_length_le (List.length_replicate.trans_le (by norm_num))] at hf
  exact absurd hf List.not_mem_nil

/-- One function more, and its row is printed to a null stream. -/
theorem chains_out_of_streams : (chain 1).verified = true ∧
    runOnModule (descriptors 1020) (List.replicate 511 (analysedChain 1)) =
      .error .nullStream := by
  have hlimit : (descriptors 1020).maxOpen = some 1020 := rfl
  refine ⟨chain_verified 1, (runOnModule_nullStream_iff hlimit _).2 ⟨?_, ?_⟩⟩
  · intro f hf
    obtain rfl := List.eq_of_mem_replicate (List.mem_of_mem_take hf)
    exact passes_chain 1
  · refine ⟨analysedChain 1, ?_, by rw [branchCount_chain]; decide⟩
    rw [List.drop_replicate]
    exact List.mem_replicate.2 ⟨by decide, rfl⟩

end CalcHeuristics

import CalcHeuristics.Proof.Condition
import Mathlib.Data.List.Sigma

/-!
# What a function prints

Before any stream comes into it, a call of the pass amounts to the branches it passes, with both rows of
each, and to the branch on which the heuristics fault, if there is one, whose true probability is printed
by then. `functionPrinted` is the one account of this. The rows of a file, the records of a run that goes
through and the number of its lines are read off it.
-/

namespace CalcHeuristics

open Stdio

/-- The two rows of one branch. -/
structure RowRecord where
  branch : BranchId
  takenBrProb : BranchProbability
  heuristics : HeuristicRow

namespace RowRecord

def text (r : RowRecord) : CsvFile → List Char
  | .heuristics => r.heuristics.text
  | .trueProbability => trueProbText r.takenBrProb

def bytes (file : CsvFile) (r : RowRecord) : List OutByte := (r.text file).map (⟨·, r.branch⟩)

end RowRecord

/-- The branch on which the heuristics fault. -/
structure Stopped where
  fault : Fault
  branch : BranchId
  takenBrProb : BranchProbability

def Stopped.bytes (s : Stopped) : List OutByte := (trueProbText s.takenBrProb).map (⟨·, s.branch⟩)

/-- The branches passed, and the one that ends the run, if one does. -/
structure Printed where
  records : List RowRecord
  stopped : Option Stopped

namespace Printed

def fault (printed : Printed) : Option Fault := printed.stopped.map Stopped.fault

/-- The rows handed to the stream of a file. -/
def rows (printed : Printed) : CsvFile → List (List OutByte)
  | .heuristics => printed.records.map (RowRecord.bytes .heuristics)
  | .trueProbability =>
      printed.records.map (RowRecord.bytes .trueProbability) ++ printed.stopped.toList.map Stopped.bytes

/-- Nothing is printed after a fault. -/
def andThen (first second : Printed) : Printed :=
  match first.stopped with
  | some _ => first
  | none => ⟨first.records ++ second.records, second.stopped⟩

variable {first second : Printed}

theorem andThen_of_stopped {s : Stopped} (h : first.stopped = some s) :
    first.andThen second = first := by
  rw [andThen, h]

theorem andThen_of_passed (h : first.stopped = none) :
    first.andThen second = ⟨first.records ++ second.records, second.stopped⟩ := by
  rw [andThen, h]

theorem rows_andThen_of_passed (h : first.stopped = none) (file : CsvFile) :
    (first.andThen second).rows file = first.rows file ++ second.rows file := by
  rw [andThen_of_passed h]
  cases file <;> simp [rows, h]

theorem fault_eq_none_iff {printed : Printed} : printed.fault = none ↔ printed.stopped = none :=
  Option.map_eq_none_iff

end Printed

/-! ### Branches that are passed -/

section
variable {n : Nat}

/-- Nothing goes wrong on the branch of a block, if there is one. -/
def Passes (F : Function n) (b : Fin n) : Prop :=
  ∀ cond s s', F.branchInst b = some (.conditional cond s s') →
    ConditionWith (Returns getSExtValue) F cond

/-- The blocks that end in a branch, in layout order. -/
def branchBlocks (F : Function n) : List (Fin n) :=
  (List.finRange n).filter fun b => (F.branchInst b).isSome

theorem heuristicRow_ok_iff_passes {F : Function n} {A : Analyses n} {b : Fin n} {br : BranchInst n}
    (hb : F.branchInst b = some br) :
    (∃ row, heuristicRow F A b br.takenSuccessor br.notTakenSuccessor = .ok row) ↔ Passes F b := by
  rw [heuristicRow_ok_iff, hOpcode, hOpcodeWith_ok_iff getSExtValue hb, Passes, hb]
  simp only [Option.some.injEq]

/-- The two heuristics that may fault have values. -/
def passes (F : Function n) (b : Fin n) : Bool :=
  match F.branchInst b with
  | none => true
  | some _ => (conditionOperands F b).isOk && (hOpcode F b).isOk

theorem isOk_iff {α : Type} {x : Checked α} : x.isOk = true ↔ ∃ a, x = .ok a := by
  cases x <;> simp [Except.isOk, Except.toBool]

theorem passes_iff {F : Function n} {b : Fin n} : passes F b = true ↔ Passes F b := by
  rw [passes, Passes]
  cases hb : F.branchInst b with
  | none => simp
  | some br =>
      simp only [Bool.and_eq_true, isOk_iff, hOpcode, hOpcodeWith_ok_iff getSExtValue hb,
        Option.some.injEq]

instance (F : Function n) (b : Fin n) : Decidable (Passes F b) := decidable_of_iff _ passes_iff

theorem passes_of_none {F : Function n} {b : Fin n} (hb : F.branchInst b = none) : Passes F b :=
  fun _ _ _ hbr => by simp [hb] at hbr

section
variable (F : Function n) (A : Analyses n) (index : Nat)

/-- The true probability of a branch is printed before the heuristics are evaluated. -/
def blockPrinted (b : Fin n) : Printed :=
  match F.branchInst b with
  | none => ⟨[], none⟩
  | some br =>
    match heuristicRow F A b br.takenSuccessor br.notTakenSuccessor with
    | .ok row => ⟨[⟨⟨index, b⟩, A.getEdgeProbability b 0, row⟩], none⟩
    | .error fault => ⟨[], some ⟨fault, ⟨index, b⟩, A.getEdgeProbability b 0⟩⟩

def blocksPrinted : List (Fin n) → Printed
  | [] => ⟨[], none⟩
  | b :: blocks => (blockPrinted F A index b).andThen (blocksPrinted blocks)

def functionPrinted : Printed := blocksPrinted F A index (List.finRange n)

end

/-! ### A block -/

section
variable {F : Function n} {A : Analyses n} {index : Nat} {b : Fin n} {blocks : List (Fin n)}

theorem stopped_blockPrinted : (blockPrinted F A index b).stopped = none ↔ Passes F b := by
  rw [blockPrinted]
  cases hb : F.branchInst b with
  | none => exact iff_of_true rfl (passes_of_none hb)
  | some br =>
      rw [← heuristicRow_ok_iff_passes (A := A) hb]
      dsimp only
      cases heuristicRow F A b br.takenSuccessor br.notTakenSuccessor <;> simp

/-- Whether or not the heuristics fault, the row of the true probability is there for a branch. -/
theorem trueProb_blockPrinted : (blockPrinted F A index b).rows .trueProbability =
    if (F.branchInst b).isSome then
      [(trueProbText (A.getEdgeProbability b 0)).map (⟨·, ⟨index, b⟩⟩)] else [] := by
  rw [blockPrinted]
  cases F.branchInst b with
  | none => rfl
  | some br =>
      dsimp only
      cases heuristicRow F A b br.takenSuccessor br.notTakenSuccessor <;> rfl

/-- The branches of some blocks of the function at a position. -/
def branchIds (F : Function n) (index : Nat) (blocks : List (Fin n)) : List BranchId :=
  (blocks.filter fun b => (F.branchInst b).isSome).map fun b : Fin n => ⟨index, b.val⟩

theorem branch_blockPrinted (h : Passes F b) :
    (blockPrinted F A index b).records.map RowRecord.branch = branchIds F index [b] := by
  rw [blockPrinted]
  cases hb : F.branchInst b with
  | none => simp [branchIds, hb]
  | some br =>
      obtain ⟨row, hrow⟩ := (heuristicRow_ok_iff_passes (A := A) hb).2 h
      simp [branchIds, hb, hrow]

theorem length_blockPrinted_le (F : Function n) (A : Analyses n) (index : Nat) (b : Fin n)
    (file : CsvFile) : ((blockPrinted F A index b).rows file).length ≤
      if (F.branchInst b).isSome then 1 else 0 := by
  rw [blockPrinted]
  cases F.branchInst b with
  | none => cases file <;> exact Nat.le_refl 0
  | some br =>
      dsimp only
      cases heuristicRow F A b br.takenSuccessor br.notTakenSuccessor <;> cases file <;>
        simp [Printed.rows]

/-! ### The blocks of a function -/

theorem blocksPrinted_of_passes (h : ∀ b ∈ blocks, Passes F b) :
    blocksPrinted F A index blocks = ⟨blocks.flatMap fun b => (blockPrinted F A index b).records, none⟩ := by
  induction blocks with
  | nil => rfl
  | cons b blocks ih =>
      have hb : (blockPrinted F A index b).stopped = none :=
        stopped_blockPrinted.2 (h b List.mem_cons_self)
      rw [blocksPrinted, Printed.andThen_of_passed hb,
        ih fun c hc => h c (List.mem_cons_of_mem _ hc), List.flatMap_cons]

theorem blocksPrinted_cons_of_not_passes (h : ¬ Passes F b) (rest : List (Fin n)) :
    blocksPrinted F A index (b :: rest) = blockPrinted F A index b := by
  cases hb : (blockPrinted F A index b).stopped with
  | none => exact absurd (stopped_blockPrinted.1 hb) h
  | some s => exact Printed.andThen_of_stopped hb

theorem stopped_blocksPrinted :
    (blocksPrinted F A index blocks).stopped = none ↔ ∀ b ∈ blocks, Passes F b := by
  induction blocks with
  | nil => simp [blocksPrinted]
  | cons b blocks ih =>
      rw [List.forall_mem_cons, ← ih]
      by_cases hb : Passes F b
      · rw [blocksPrinted, Printed.andThen_of_passed (stopped_blockPrinted.2 hb)]
        exact (and_iff_right hb).symm
      · rw [blocksPrinted_cons_of_not_passes hb, stopped_blockPrinted]
        simp [hb]

theorem stopped_functionPrinted :
    (functionPrinted F A index).stopped = none ↔ ∀ b, Passes F b := by
  rw [functionPrinted, stopped_blocksPrinted]
  simp

theorem length_functionPrinted_le (F : Function n) (A : Analyses n) (index : Nat) (file : CsvFile) :
    ((functionPrinted F A index).rows file).length ≤
      (List.finRange n).countP fun b => (F.branchInst b).isSome := by
  rw [functionPrinted]
  induction List.finRange n with
  | nil => cases file <;> exact Nat.le_refl 0
  | cons b blocks ih =>
      have hblock := length_blockPrinted_le F A index b file
      rw [List.countP_cons]
      by_cases hb : Passes F b
      · rw [blocksPrinted, Printed.rows_andThen_of_passed (stopped_blockPrinted.2 hb),
          List.length_append]
        omega
      · rw [blocksPrinted_cons_of_not_passes hb]
        omega

/-- The true probabilities printed are those of the branches up to the first that is not passed. -/
theorem trueProb_blocksPrinted : (blocksPrinted F A index blocks).rows .trueProbability =
    ((blocks.filter fun b => (F.branchInst b).isSome).take
        (((blocks.filter fun b => (F.branchInst b).isSome).takeWhile (Passes F ·)).length + 1)).map
      fun b => (trueProbText (A.getEdgeProbability b 0)).map (⟨·, ⟨index, b⟩⟩) := by
  induction blocks with
  | nil => rfl
  | cons b blocks ih =>
      by_cases hpass : Passes F b
      · rw [blocksPrinted, Printed.rows_andThen_of_passed (stopped_blockPrinted.2 hpass), ih,
          trueProb_blockPrinted]
        by_cases hb : (F.branchInst b).isSome = true
        · rw [if_pos hb, List.filter_cons, if_pos hb,
            List.takeWhile_cons_of_pos (by simpa using hpass), List.length_cons, List.take_succ_cons, List.map_cons]
          rfl
        · rw [if_neg hb, List.filter_cons, if_neg hb, List.nil_append]
      · have hb : (F.branchInst b).isSome = true :=
          Option.isSome_iff_ne_none.2 fun hnone => hpass (passes_of_none hnone)
        rw [blocksPrinted_cons_of_not_passes hpass, trueProb_blockPrinted, if_pos hb,
          List.filter_cons, if_pos hb, List.takeWhile_cons_of_neg (by simpa using hpass)]
        rfl

theorem branch_functionPrinted (h : ∀ b, Passes F b) :
    (functionPrinted F A index).records.map RowRecord.branch =
      branchIds F index (List.finRange n) := by
  rw [functionPrinted, blocksPrinted_of_passes fun b _ => h b]
  induction List.finRange n with
  | nil => rfl
  | cons b blocks ih =>
      rw [List.flatMap_cons, List.map_append, ih, branch_blockPrinted (h b), branchIds, branchIds,
        branchIds, ← List.map_append, ← List.filter_append]
      rfl

end

end

/-! ### The functions of a module -/

def branchCount (f : AnalysedFunction) : Nat :=
  (List.finRange f.blocks).countP fun b => (f.function.branchInst b).isSome

/-- What the functions print, up to the one that faults. -/
def functionsPrinted : List (AnalysedFunction × Nat) → List Printed
  | [] => []
  | f :: functions =>
    let printed := functionPrinted f.1.function f.1.analyses f.2
    match printed.stopped with
    | some _ => [printed]
    | none => printed :: functionsPrinted functions

/-- The fault among what some functions print. -/
def printedFault (printed : List Printed) : Option Fault := printed.findSome? Printed.fault

/-- The records of the functions of a module, each with its position, if none faults. -/
def moduleRecords (M : Module) : Checked (List (List RowRecord)) :=
  match printedFault (functionsPrinted M.zipIdx) with
  | some fault => .error fault
  | none => .ok ((functionsPrinted M.zipIdx).map Printed.records)

section
variable {functions : List (AnalysedFunction × Nat)} {printed : Printed}

theorem mem_functionsPrinted (h : printed ∈ functionsPrinted functions) :
    ∃ f ∈ functions, printed = functionPrinted f.1.function f.1.analyses f.2 := by
  induction functions with
  | nil => simp [functionsPrinted] at h
  | cons f functions ih =>
      rw [functionsPrinted] at h
      split at h
      · exact ⟨f, List.mem_cons_self, List.mem_singleton.1 h⟩
      · obtain rfl | h := List.mem_cons.1 h
        · exact ⟨f, List.mem_cons_self, rfl⟩
        · obtain ⟨g, hg, hprinted⟩ := ih h
          exact ⟨g, List.mem_cons_of_mem _ hg, hprinted⟩

theorem functionsPrinted_of_passes (h : ∀ f ∈ functions, ∀ b, Passes f.1.function b) :
    functionsPrinted functions =
      functions.map fun f => functionPrinted f.1.function f.1.analyses f.2 := by
  induction functions with
  | nil => rfl
  | cons f functions ih =>
      have hf : (functionPrinted f.1.function f.1.analyses f.2).stopped = none :=
        stopped_functionPrinted.2 (h f List.mem_cons_self)
      rw [functionsPrinted, hf, List.map_cons, ih fun g hg => h g (List.mem_cons_of_mem _ hg)]

theorem printedFault_functionsPrinted : printedFault (functionsPrinted functions) = none ↔
    ∀ f ∈ functions, ∀ b, Passes f.1.function b := by
  induction functions with
  | nil => simp [functionsPrinted, printedFault]
  | cons f functions ih =>
      have hf : (functionPrinted f.1.function f.1.analyses f.2).stopped = none ↔ _ :=
        stopped_functionPrinted
      rw [List.forall_mem_cons, ← ih, ← hf, functionsPrinted]
      cases hf : (functionPrinted f.1.function f.1.analyses f.2).stopped with
      | some s => simp [printedFault, Printed.fault, hf]
      | none => simp [printedFault, Printed.fault, hf]

end

theorem forall_functions_iff {M : Module} (P : AnalysedFunction → Prop) :
    (∀ f ∈ M.zipIdx, P f.1) ↔ ∀ f ∈ M, P f := by
  conv_rhs => rw [← List.zipIdx_map_fst 0 M]
  exact List.forall_mem_map.symm

section
variable {M : Module} {records : List (List RowRecord)}

/-- A run has records when nothing goes wrong on its branches. -/
theorem moduleRecords_eq_ok_iff : moduleRecords M = .ok records ↔
    (∀ f ∈ M, ∀ b, Passes f.function b) ∧
      records = M.zipIdx.map fun f => (functionPrinted f.1.function f.1.analyses f.2).records := by
  have hpasses : printedFault (functionsPrinted M.zipIdx) = none ↔ _ := printedFault_functionsPrinted
  rw [forall_functions_iff fun f => ∀ b, Passes f.function b] at hpasses
  rw [moduleRecords, ← hpasses]
  cases hfault : printedFault (functionsPrinted M.zipIdx) with
  | some fault => simp
  | none =>
      rw [functionsPrinted_of_passes (printedFault_functionsPrinted.1 hfault)]
      simp [Function.comp_def, eq_comm]

theorem branch_moduleRecords (h : moduleRecords M = .ok records) :
    records.map (List.map RowRecord.branch) =
      M.zipIdx.map fun f => branchIds f.1.function f.2 (List.finRange f.1.blocks) := by
  obtain ⟨hpasses, rfl⟩ := moduleRecords_eq_ok_iff.1 h
  rw [List.map_map]
  exact List.map_congr_left fun f hf => branch_functionPrinted
    ((forall_functions_iff fun f => ∀ b, Passes f.function b).2 hpasses f hf)

theorem length_moduleRecords (h : moduleRecords M = .ok records) :
    records.map List.length = M.map branchCount := by
  have hbranches := congrArg (List.map List.length) (branch_moduleRecords h)
  simp only [List.map_map, Function.comp_def, List.length_map, branchIds,
    ← List.countP_eq_length_filter] at hbranches
  rw [hbranches, ← List.zipIdx_map_fst 0 M, List.map_map]
  simp [branchCount, Function.comp_def]

theorem nodup_moduleRecords (h : moduleRecords M = .ok records) :
    (records.flatten.map RowRecord.branch).Nodup := by
  rw [List.map_flatten, branch_moduleRecords h, ← List.flatMap, List.nodup_flatMap]
  constructor
  · intro f _
    refine List.Nodup.map (fun b c hbc => ?_) ((List.nodup_finRange _).filter _)
    exact Fin.ext (BranchId.mk.inj hbc).2
  · have hindex : M.zipIdx.Pairwise fun f g => f.2 ≠ g.2 :=
      List.pairwise_map.1 (List.nodup_zipIdx_map_snd M)
    refine hindex.imp fun hne => List.disjoint_left.2 fun id hf hg => ?_
    obtain ⟨b, _, rfl⟩ := List.mem_map.1 hf
    obtain ⟨c, _, hc⟩ := List.mem_map.1 hg
    exact hne (BranchId.mk.inj hc).1.symm

end

end CalcHeuristics

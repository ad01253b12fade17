import CalcHeuristics.Proof.Run
import Mathlib.Algebra.Order.Field.Basic
import Mathlib.Tactic.Positivity

/-!
# The two files

Rows of `heuristics.csv` are 32 bytes long and rows of `true_probability.csv` 18. Neither file closes its
streams, so whether the lines are whole rows, and whether line `k` of one file belongs to the branch of
line `k` of the other, is a question about where the early blocks end; the answers depend only on how
many branches each function has.
-/

namespace CalcHeuristics

open Stdio

def isNewlineChar (c : Char) : Bool := c = '\n'

def CsvFile.rowWidth : CsvFile → Nat
  | heuristics => 32
  | trueProbability => 18

/-! ### The shape of the rows -/

theorem isRow_csvLine {k : Nat} {fields : List (List Char)} (hne : fields ≠ [])
    (hlength : ∀ field ∈ fields, field.length = k) (hnewline : ∀ field ∈ fields, '\n' ∉ field) :
    IsRow isNewlineChar ((k + 1) * fields.length) (csvLine fields) := by
  have hbody : ([','].intercalate fields).length + 1 = (k + 1) * fields.length ∧
      '\n' ∉ [','].intercalate fields := by
    induction fields with
    | nil => exact absurd rfl hne
    | cons field rest ih =>
        have hfield := hlength field List.mem_cons_self
        have hclean := hnewline field List.mem_cons_self
        cases rest with
        | nil => simpa [hfield] using hclean
        | cons field' rest =>
            obtain ⟨ihlength, ihclean⟩ := ih (by simp)
              (fun f hf => hlength f (List.mem_cons_of_mem _ hf))
              (fun f hf => hnewline f (List.mem_cons_of_mem _ hf))
            rw [List.intercalate_cons_cons]
            constructor
            · rw [List.length_append, List.length_append, List.length_singleton, hfield,
                List.length_cons, Nat.mul_succ, ← ihlength]
              omega
            · simp only [List.mem_append, List.mem_singleton, not_or]
              exact ⟨⟨hclean, by decide⟩, ihclean⟩
  refine ⟨by rw [csvLine, List.length_append, List.length_singleton, hbody.1],
    [','].intercalate fields, '\n', rfl, rfl, fun c hc => ?_⟩
  exact decide_eq_false fun heq => hbody.2 (heq ▸ hc)

theorem Prediction.value_le_one (p : Prediction) : p.value ≤ 1 := by
  cases p <;> norm_num [value]

theorem BranchProbability.toRat_le_one (p : BranchProbability) : p.toRat ≤ 1 := by
  rw [toRat, denominator, div_le_one (by norm_num)]
  exact_mod_cast p.numerator_le

theorem BranchProbability.toRat_nonneg (p : BranchProbability) : 0 ≤ p.toRat := by
  rw [toRat]
  positivity

theorem HeuristicRow.isRow_text (row : HeuristicRow) : IsRow isNewlineChar 32 row.text := by
  have hfields : ∀ field ∈ row.columns.map fun p => printfFixed 1 p.value,
      field.length = 3 ∧ '\n' ∉ field := by
    intro field hfield
    obtain ⟨p, _, rfl⟩ := List.mem_map.1 hfield
    exact ⟨length_printfFixed 1 p.value_le_one, not_mem_printfFixed rfl (by decide) 1 p.value⟩
  exact isRow_csvLine (by simp [columns]) (fun f hf => (hfields f hf).1) fun f hf => (hfields f hf).2

theorem isRow_trueProbText (p : BranchProbability) : IsRow isNewlineChar 18 (trueProbText p) := by
  have hle := p.toRat_le_one
  have hle' : 1 - p.toRat ≤ 1 := sub_le_self 1 p.toRat_nonneg
  have hfields : ∀ field ∈ [printfFixed 6 p.toRat, printfFixed 6 (1 - p.toRat)],
      field.length = 8 ∧ '\n' ∉ field := by
    intro field hfield
    obtain rfl | rfl := List.mem_pair.1 hfield
    · exact ⟨length_printfFixed 6 hle, not_mem_printfFixed rfl (by decide) 6 _⟩
    · exact ⟨length_printfFixed 6 hle', not_mem_printfFixed rfl (by decide) 6 _⟩
  exact isRow_csvLine (by simp) (fun f hf => (hfields f hf).1) fun f hf => (hfields f hf).2

theorem RowRecord.isRow_text (r : RowRecord) (file : CsvFile) :
    IsRow isNewlineChar file.rowWidth (r.text file) := by
  cases file with
  | heuristics => exact r.heuristics.isRow_text
  | trueProbability => exact isRow_trueProbText r.takenBrProb

theorem RowRecord.ownedRow (file : CsvFile) :
    OwnedRow OutByte.isNewline OutByte.branch file.rowWidth RowRecord.branch
      (RowRecord.bytes file) where
  isRow r := (r.isRow_text file).map fun _ => rfl
  owned r byte hbyte := by
    obtain ⟨c, _, rfl⟩ := List.mem_map.1 hbyte
    rfl

/-- Where streams are not limited only a fault of the heuristics ends a run. -/
theorem goesThrough_stdio {C : Nat} {hC : 0 < C} {M : Module}
    (h : ∀ f ∈ M, ∀ b, Passes f.function b) : GoesThrough (stdio C hC) M :=
  ⟨h, fun _ hf => absurd hf List.not_mem_nil⟩

theorem entryFile_bytes_char (C : Nat) (file : CsvFile) (functions : List (List RowRecord)) :
    (entryFile C (RowRecord.bytes file) functions).map OutByte.char =
      entryFile C (RowRecord.text · file) functions := by
  rw [entryFile_map]
  simp [RowRecord.bytes, Function.comp_def]

/-! ### Whole lines -/

theorem lines_moduleRecords_perm_iff {M : Module} {records : List (List RowRecord)}
    (h : moduleRecords M = .ok records) (C : Nat) (file : CsvFile) :
    (lines isNewlineChar ((entryFile C (RowRecord.bytes file) records).map OutByte.char)).Perm
        (records.flatten.map (RowRecord.text · file)) ↔
      WholeRows C file.rowWidth (M.map branchCount) := by
  rw [entryFile_bytes_char, lines_entryFile_perm_iff fun r => r.isRow_text file,
    length_moduleRecords h]

/-- The lines of a file are a permutation of the rows printed to it exactly when every function whose
rows are followed by those of a later one ends its early blocks between two rows. -/
theorem output_lines_perm_iff {C : Nat} {hC : 0 < C} {M : Module} {files : CsvFile → List OutByte}
    (h : opt (stdio C hC) M = .ok files) (file : CsvFile) :
    ∃ records, moduleRecords M = .ok records ∧
      ((lines isNewlineChar ((files file).map OutByte.char)).Perm
          (records.flatten.map (RowRecord.text · file)) ↔
        (M.map branchCount).Pairwise fun n n' =>
          n' = 0 ∨ file.rowWidth ∣ flushed C (file.rowWidth * n)) := by
  obtain ⟨records, hrecords, rfl⟩ := exists_moduleRecords h
  exact ⟨records, hrecords, lines_moduleRecords_perm_iff hrecords C file⟩

/-! ### Alignment -/

theorem aligned_moduleRecords_iff {M : Module} {records : List (List RowRecord)}
    (h : moduleRecords M = .ok records) {C : Nat} (hC : 0 < C) :
    Aligned OutByte.isNewline OutByte.branch (entryFile C (RowRecord.bytes .heuristics) records)
        (entryFile C (RowRecord.bytes .trueProbability) records) ↔
      (M.map branchCount).Pairwise fun n n' =>
        n' = 0 ∨ n = 0 ∨ ∃ a < n, C ∣ 2 * a ∧ 32 * (n - a) ≤ C := by
  rw [aligned_entryFile_iff (RowRecord.ownedRow .heuristics) (RowRecord.ownedRow .trueProbability)
    (nodup_moduleRecords h), length_moduleRecords h]
  simp only [CsvFile.rowWidth, flushInStep_iff hC (by decide : 18 ≤ 32) (by decide)]
  rfl

/-- Lines at one position of the two files belong to one branch exactly when, for every function whose
rows are followed by those of a later one, the two streams have some number of rows in common at the end
of an early block and hold the rest. -/
theorem output_aligned_iff {C : Nat} {hC : 0 < C} {M : Module} {files : CsvFile → List OutByte}
    (h : opt (stdio C hC) M = .ok files) :
    Aligned OutByte.isNewline OutByte.branch (files .heuristics) (files .trueProbability) ↔
      (M.map branchCount).Pairwise fun n n' =>
        n' = 0 ∨ n = 0 ∨ ∃ a < n, C ∣ 2 * a ∧ 32 * (n - a) ≤ C := by
  obtain ⟨records, hrecords, rfl⟩ := exists_moduleRecords h
  exact aligned_moduleRecords_iff hrecords hC

/-! ### Two functions of one module -/

/-- A function of `k` blocks that each jump to the next one, and a return. -/
def chain (k : Nat) : Function (k + 1) where
  block b :=
    if h : b.val < k then
      { body := [], terminator := ⟨b, .void, .br (.unconditional ⟨b + 1, by omega⟩)⟩
        body_plain := by simp
        terminates := rfl }
    else
      { body := [], terminator := ⟨b, .void, .ret none⟩
        body_plain := by simp
        terminates := rfl }
  hasEntry := Nat.succ_pos k

theorem branchInst_chain {k : Nat} (b : Fin (k + 1)) :
    (chain k).branchInst b =
      if h : b.val < k then some (.unconditional ⟨b + 1, by omega⟩) else none := by
  rw [Function.branchInst, chain]
  dsimp only
  split <;> rfl

theorem body_chain {k : Nat} (b : Fin (k + 1)) : ((chain k).block b).body = [] := by
  rw [chain]
  dsimp only
  split <;> rfl

theorem terminator_chain {k : Nat} (b : Fin (k + 1)) :
    ((chain k).block b).terminator = ⟨b, .void, .ret none⟩ ∨
      ∃ s : Fin (k + 1), 0 < s.val ∧
        ((chain k).block b).terminator = ⟨b, .void, .br (.unconditional s)⟩ := by
  rw [chain]
  dsimp only
  split
  · exact Or.inr ⟨_, Nat.succ_pos b, rfl⟩
  · exact Or.inl rfl

theorem chain_verified (k : Nat) : (chain k).verified = true := by
  have hinstructions : (chain k).instructions =
      (List.finRange (k + 1)).map fun b => ((chain k).block b).terminator := by
    rw [Function.instructions, ← List.flatMap_pure_eq_map]
    apply List.flatMap_congr
    intro b _
    rw [BasicBlock.instructions, body_chain]
    rfl
  have hid : (Instruction.id ∘ fun b => ((chain k).block b).terminator) = Fin.val := by
    funext b
    rw [Function.comp_apply]
    rcases terminator_chain b with hb | ⟨s, _, hb⟩ <;> rw [hb]
  rw [Function.verified, Bool.and_eq_true, Bool.and_eq_true, decide_eq_true_iff, List.all_eq_true,
    List.all_eq_true, hinstructions, List.map_map]
  refine ⟨⟨?_, fun i hi => ?_⟩, fun b _ => ?_⟩
  · rw [hid]
    exact (List.nodup_finRange _).map Fin.val_injective
  · obtain ⟨b, _, rfl⟩ := List.mem_map.1 hi
    rcases terminator_chain b with hb | ⟨s, _, hb⟩ <;> rw [hb] <;> rfl
  · obtain hb | ⟨s, hs, hb⟩ := terminator_chain b
    · simp [Function.branchInst, Function.successors, BasicBlock.successors, hb,
        Operation.successors?, Instruction.dynCastBranchInst]
    · have hentry : (chain k).entry ≠ s := fun heq => by
        rw [← heq] at hs
        exact absurd hs (lt_irrefl 0)
      simp [Function.branchInst, Function.successors, BasicBlock.successors, hb,
        Operation.successors?, Instruction.dynCastBranchInst, BranchInst.successors, hentry]

def analysedChain (k : Nat) : AnalysedFunction :=
  ⟨k + 1, chain k, standardAnalyses (chain k) fun _ _ => certain⟩

theorem branchCount_chain (k : Nat) : branchCount (analysedChain k) = k := by
  have hcount : (List.finRange (k + 1)).countP (fun b => decide (b.val < k)) = k := by
    rw [List.finRange_succ_last, List.countP_append, List.countP_map]
    simp [Function.comp_def]
  rw [branchCount, analysedChain]
  refine Eq.trans (congrArg (List.countP · _) (funext fun b => ?_)) hcount
  dsimp only
  rw [branchInst_chain]
  split <;> simp_all

theorem passes_chain (k : Nat) (b : Fin (k + 1)) : Passes (chain k) b := by
  intro cond s s' hb
  rw [branchInst_chain] at hb
  split at hb <;> simp at hb

/-! Modules of such functions are given by the lengths. -/

theorem map_branchCount_chain (lengths : List Nat) :
    (lengths.map analysedChain).map branchCount = lengths := by
  rw [List.map_map]
  exact List.map_id'' branchCount_chain lengths

theorem goesThrough_chain {C : Nat} {hC : 0 < C} (lengths : List Nat) :
    GoesThrough (stdio C hC) (lengths.map analysedChain) := by
  refine goesThrough_stdio fun f hf => ?_
  obtain ⟨k, _, rfl⟩ := List.mem_map.1 hf
  exact passes_chain k

/-- A long function, and a short one after it. -/
def chains : Module := [analysedChain 228, analysedChain 1]

theorem goesThrough_chains : GoesThrough (stdio 4096 (by decide)) chains := goesThrough_chain [228, 1]

theorem counts_chains : chains.map branchCount = [228, 1] := map_branchCount_chain [228, 1]

theorem opt_chains : ∃ files, opt (stdio 4096 (by decide)) chains = .ok files := by
  obtain ⟨records, _, hrun⟩ := goesThrough_chains.optOver_eq
  exact ⟨_, (opt_eq_ok_iff _ chains _).2 hrun⟩

theorem output_lines_perm_iff_chains : ∃ files records,
    opt (stdio 4096 (by decide)) chains = .ok files ∧ moduleRecords chains = .ok records ∧
      ((lines isNewlineChar ((files .trueProbability).map OutByte.char)).Perm
          (records.flatten.map (RowRecord.text · .trueProbability)) ↔
        (chains.map branchCount).Pairwise fun n n' => n' = 0 ∨ 18 ∣ flushed 4096 (18 * n)) := by
  obtain ⟨files, hfiles⟩ := opt_chains
  obtain ⟨records, hrecords, hiff⟩ := output_lines_perm_iff hfiles .trueProbability
  exact ⟨files, records, hfiles, hrecords, hiff⟩

/-- With the usual buffer a row of the true probabilities is cut in two. -/
theorem chains_row_cut : (chain 228).verified = true ∧ (chain 1).verified = true ∧ ∃ files records,
    opt (stdio 4096 (by decide)) chains = .ok files ∧ moduleRecords chains = .ok records ∧
      ¬ (lines isNewlineChar ((files .trueProbability).map OutByte.char)).Perm
        (records.flatten.map (RowRecord.text · .trueProbability)) := by
  refine ⟨chain_verified 228, chain_verified 1, ?_⟩
  obtain ⟨files, hfiles⟩ := opt_chains
  obtain ⟨records, hrecords, rfl⟩ := exists_moduleRecords hfiles
  refine ⟨_, records, hfiles, hrecords, ?_⟩
  rw [lines_moduleRecords_perm_iff hrecords, counts_chains, WholeRows]
  decide

theorem output_aligned_iff_chains : ∃ files,
    opt (stdio 4096 (by decide)) chains = .ok files ∧
      (Aligned OutByte.isNewline OutByte.branch (files .heuristics) (files .trueProbability) ↔
        (chains.map branchCount).Pairwise fun n n' =>
          n' = 0 ∨ n = 0 ∨ ∃ a < n, 4096 ∣ 2 * a ∧ 32 * (n - a) ≤ 4096) := by
  obtain ⟨files, hfiles⟩ := opt_chains
  exact ⟨files, hfiles, output_aligned_iff hfiles⟩

/-- With the usual buffer the lines of the two files come apart. -/
theorem chains_not_aligned : (chain 228).verified = true ∧ (chain 1).verified = true ∧ ∃ files,
    opt (stdio 4096 (by decide)) chains = .ok files ∧
      ¬ Aligned OutByte.isNewline OutByte.branch (files .heuristics) (files .trueProbability) := by
  refine ⟨chain_verified 228, chain_verified 1, ?_⟩
  obtain ⟨files, hfiles⟩ := opt_chains
  obtain ⟨records, hrecords, rfl⟩ := exists_moduleRecords hfiles
  refine ⟨_, hfiles, ?_⟩
  rw [aligned_moduleRecords_iff hrecords (by decide), counts_chains]
  intro hpairwise
  have hpair := (List.pairwise_cons.1 hpairwise).1 1 (List.mem_singleton.2 rfl)
  obtain ⟨a, hlt, hdvd, hfits⟩ : ∃ a < 228, 4096 ∣ 2 * a ∧ 32 * (228 - a) ≤ 4096 :=
    (hpair.resolve_left one_ne_zero).resolve_left (by decide)
  omega

end CalcHeuristics

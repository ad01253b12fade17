import CalcHeuristics.Proof.Output
import CalcHeuristics.Stdio.RowBuffer
import Mathlib.Data.List.TakeWhile

/-!
# The ground truth and the profile

The rows of `true_probability.csv` are meant to record a profile. Where the profile has nothing to say,
on a block that was never executed, the branch probability is a static estimate that may look at the
instructions. What a run leaves in the file for one function is the text of the probabilities of its
branches, cut off where the heuristics fault: the rows printed by then are lost with the buffer, but for
whole blocks of it. Two functions with one flow graph and one profile therefore leave the same file exactly
when it is cut off at the same place and what is left of the estimates is the same.
-/

namespace CalcHeuristics

open Stdio

variable {n : Nat}

/-! ### Probabilities from a profile -/

section
variable (normalise : List Nat → Nat → BranchProbability)
  (estimate : Function n → Fin n → Nat → BranchProbability)

/-- The profiled counts of the edges out of a block. -/
def edgeCounts (F : Function n) (count : Fin n → Nat → Nat) (b : Fin n) : List Nat :=
  (List.range (F.successors b).length).map (count b)

/-- The profile decides the probabilities of the blocks that were executed. -/
def profiledProbability (F : Function n) (count : Fin n → Nat → Nat) (b : Fin n) (index : Nat) :
    BranchProbability :=
  if (edgeCounts F count b).sum = 0 then estimate F b index
  else normalise (edgeCounts F count b) index

def Analyses.withProfile (A : Analyses n) (F : Function n) (count : Fin n → Nat → Nat) :
    Analyses n :=
  { A with getEdgeProbability := profiledProbability normalise estimate F count }

end

/-- The two functions have the same flow graph. -/
structure SameCfg (F F' : Function n) : Prop where
  successors : ∀ b, F'.successors b = F.successors b

theorem SameCfg.edgeCounts_eq {F F' : Function n} (h : SameCfg F F') (count : Fin n → Nat → Nat)
    (b : Fin n) : edgeCounts F' count b = edgeCounts F count b := by
  rw [edgeCounts, edgeCounts, h.successors b]

/-! ### The file of one function -/

/-- What a run over a module of one function leaves in `true_probability.csv`. -/
def trueProbFile (C : Nat) (hC : 0 < C) (F : Function n) (A : Analyses n) : List Char :=
  ((optOver (stdio C hC) [⟨n, F, A⟩] fun _ => []).1 .trueProbability).map OutByte.char

/-- How many bytes that is: all rows, or the blocks of the buffer that are flushed by the row of the first
branch on which the heuristics fault. -/
def bytesWritten (C : Nat) (F : Function n) : Nat :=
  if ∀ b, Passes F b then 18 * (branchBlocks F).length
  else flushed C (18 * (((branchBlocks F).takeWhile (Passes F ·)).length + 1))

section
variable {F : Function n} {A : Analyses n} {C : Nat}

/-- The row of the branch at which a function stops is there. -/
theorem length_takeWhile_lt (h : ¬ ∀ b, Passes F b) :
    ((branchBlocks F).takeWhile (Passes F ·)).length < (branchBlocks F).length := by
  refine (List.takeWhile_prefix _).length_le.lt_of_ne fun hlength => h fun b => ?_
  have hall : (branchBlocks F).takeWhile (Passes F ·) = branchBlocks F :=
    (List.takeWhile_prefix _).eq_of_length hlength
  cases hb : F.branchInst b with
  | none => exact passes_of_none hb
  | some br =>
      have hmem : b ∈ branchBlocks F := List.mem_filter.2 ⟨List.mem_finRange b, by simp [hb]⟩
      simpa using List.takeWhile_eq_self_iff.1 hall b hmem

theorem bytesWritten_le (C : Nat) (F : Function n) :
    bytesWritten C F ≤ 18 * (branchBlocks F).length := by
  rw [bytesWritten]
  split
  · exact le_rfl
  · rename_i hstop
    have hreached := length_takeWhile_lt hstop
    have hle := flushed_le C (18 * (((branchBlocks F).takeWhile (Passes F ·)).length + 1))
    omega

theorem functionsPrinted_singleton (f : AnalysedFunction) :
    functionsPrinted [(f, 0)] = [functionPrinted f.function f.analyses 0] := by
  rw [functionsPrinted]
  dsimp only
  split <;> rfl

theorem optOver_singleton (hC : 0 < C) (F : Function n) (A : Analyses n) (file : CsvFile) :
    (optOver (stdio C hC) [⟨n, F, A⟩] fun _ => []).1 file =
      if ∀ b, Passes F b then ((functionPrinted F A 0).rows file).flatten
      else early C ((functionPrinted F A 0).rows file).flatten := by
  have hthrough : runFault (stdio C hC) [⟨n, F, A⟩] = none ↔ ∀ b, Passes F b := by
    rw [runFault_eq_none_iff]
    exact ⟨fun h => h.1 _ List.mem_cons_self, fun h => goesThrough_stdio fun f hf => by
      obtain rfl := List.mem_singleton.1 hf
      exact h⟩
  have hprinted : functionsPrinted (served (stdio C hC) [(⟨n, F, A⟩ : AnalysedFunction)].zipIdx) =
      [functionPrinted F A 0] := functionsPrinted_singleton ⟨n, F, A⟩
  rw [optOver_empty, hprinted]
  simp only [hthrough]
  split
  · simp [rowFile, finalContents, early_append_pending]
  · simp [stdio]

/-- The characters of texts that were written for branches. -/
theorem map_char_bytes {β : Type} (text : β → List Char) (branch : β → BranchId) (l : List β) :
    (l.map fun b => (text b).map (⟨·, branch b⟩ : Char → OutByte)).map (List.map OutByte.char) =
      l.map text := by
  rw [List.map_map]
  refine List.map_congr_left fun b _ => ?_
  rw [Function.comp_apply, List.map_map]
  exact List.map_id _

/-- The text of the true probabilities, cut off where the run stops. -/
theorem trueProbFile_eq (hC : 0 < C) (F : Function n) (A : Analyses n) :
    trueProbFile C hC F A =
      ((branchBlocks F).map fun b => trueProbText (A.getEdgeProbability b 0)).flatten.take
        (bytesWritten C F) := by
  have hrows : ((functionPrinted F A 0).rows .trueProbability).map (List.map OutByte.char) =
      ((branchBlocks F).take (((branchBlocks F).takeWhile (Passes F ·)).length + 1)).map
        fun b => trueProbText (A.getEdgeProbability b 0) := by
    rw [functionPrinted, trueProb_blocksPrinted]
    exact map_char_bytes _ _ _
  have hlength : ∀ row ∈ (branchBlocks F).map fun b => trueProbText (A.getEdgeProbability b 0),
      row.length = 18 := by
    intro row hrow
    obtain ⟨b, _, rfl⟩ := List.mem_map.1 hrow
    exact (isRow_trueProbText _).length_eq
  rw [trueProbFile, optOver_singleton, bytesWritten]
  split
  · rename_i hpass
    have hall : (branchBlocks F).takeWhile (Passes F ·) = branchBlocks F :=
      List.takeWhile_eq_self_iff.2 fun b _ => by simpa using hpass b
    rw [List.map_flatten, hrows, hall, List.take_of_length_le (Nat.le_succ _)]
    refine (List.take_of_length_le ?_).symm
    rw [length_flatten_of_width hlength, List.length_map]
  · rename_i hstop
    have hreached : ((branchBlocks F).takeWhile (Passes F ·)).length + 1 ≤ (branchBlocks F).length :=
      length_takeWhile_lt hstop
    generalize ((branchBlocks F).takeWhile (Passes F ·)).length + 1 = k at hrows hreached ⊢
    have hprinted : (((branchBlocks F).take k).map
        fun b => trueProbText (A.getEdgeProbability b 0)).flatten.length = 18 * k := by
      rw [length_flatten_of_width fun row hrow => hlength row (by
          obtain ⟨b, hb, rfl⟩ := List.mem_map.1 hrow
          exact List.mem_map_of_mem (List.mem_of_mem_take hb)),
        List.length_map, List.length_take, Nat.min_eq_left hreached]
    have htext := congrArg List.length (congrArg List.flatten hrows)
    rw [← List.map_flatten, List.length_map, hprinted] at htext
    rw [early, htext, List.map_take, List.map_flatten, hrows]
    conv_rhs => rw [← List.take_append_drop k (branchBlocks F), List.map_append, List.flatten_append]
    exact (List.take_append_of_le_length (by rw [hprinted]; exact flushed_le _ _)).symm

/-! ### Two functions -/

/-- The row of a block that ends in a branch. -/
def profiledText (normalise : List Nat → Nat → BranchProbability)
    (estimate : Function n → Fin n → Nat → BranchProbability) (F : Function n)
    (count : Fin n → Nat → Nat) (b : Fin n) : List Char :=
  trueProbText (profiledProbability normalise estimate F count b 0)

theorem SameCfg.profiledText_eq {F' : Function n} (h : SameCfg F F')
    (normalise : List Nat → Nat → BranchProbability)
    (estimate : Function n → Fin n → Nat → BranchProbability) {count : Fin n → Nat → Nat} {b : Fin n}
    (hb : (edgeCounts F count b).sum ≠ 0) :
    profiledText normalise estimate F' count b = profiledText normalise estimate F count b := by
  rw [profiledText, profiledText, profiledProbability, profiledProbability, h.edgeCounts_eq,
    if_neg hb, if_neg hb]

/-- With one flow graph and one profile, the files of the true probabilities are the same exactly when they
are cut off at the same place and the branches at each position, where they are different blocks or a block
that was never executed, have rows that agree up to there. Where the same blocks end in a branch, that is
the static estimates of those never executed. -/
theorem trueProbFile_eq_iff {F F' : Function n} (normalise : List Nat → Nat → BranchProbability)
    (estimate : Function n → Fin n → Nat → BranchProbability) (count : Fin n → Nat → Nat)
    (A A' : Analyses n) (hC : 0 < C) (h : SameCfg F F') :
    (trueProbFile C hC F' (A'.withProfile normalise estimate F' count) =
          trueProbFile C hC F (A.withProfile normalise estimate F count) ↔
        bytesWritten C F' = bytesWritten C F ∧
          ∀ (i : Nat) (b b' : Fin n), (branchBlocks F)[i]? = some b → (branchBlocks F')[i]? = some b' →
            (b' = b → (edgeCounts F count b).sum = 0) →
              (profiledText normalise estimate F' count b').take (bytesWritten C F - 18 * i) =
                (profiledText normalise estimate F count b).take (bytesWritten C F - 18 * i)) ∧
      ((∀ b, (F'.branchInst b).isSome = (F.branchInst b).isSome) →
        (trueProbFile C hC F' (A'.withProfile normalise estimate F' count) =
            trueProbFile C hC F (A.withProfile normalise estimate F count) ↔
          bytesWritten C F' = bytesWritten C F ∧
            ∀ (i : Nat) (b : Fin n), (branchBlocks F)[i]? = some b → (edgeCounts F count b).sum = 0 →
              (trueProbText (estimate F' b 0)).take (bytesWritten C F - 18 * i) =
                (trueProbText (estimate F b 0)).take (bytesWritten C F - 18 * i))) := by
  have hlength : ∀ (G : Function n), ∀ row ∈ (branchBlocks G).map
      (profiledText normalise estimate G count), row.length = 18 := by
    intro G row hrow
    obtain ⟨b, _, rfl⟩ := List.mem_map.1 hrow
    exact (isRow_trueProbText _).length_eq
  have hgeneral : trueProbFile C hC F' (A'.withProfile normalise estimate F' count) =
        trueProbFile C hC F (A.withProfile normalise estimate F count) ↔
      bytesWritten C F' = bytesWritten C F ∧
        ∀ (i : Nat) (b b' : Fin n), (branchBlocks F)[i]? = some b → (branchBlocks F')[i]? = some b' →
          (b' = b → (edgeCounts F count b).sum = 0) →
            (profiledText normalise estimate F' count b').take (bytesWritten C F - 18 * i) =
              (profiledText normalise estimate F count b).take (bytesWritten C F - 18 * i) := by
    rw [trueProbFile_eq, trueProbFile_eq]
    refine (take_flatten_eq_iff (hlength F') (hlength F) (by simpa using bytesWritten_le C F')
      (by simpa using bytesWritten_le C F)).trans ?_
    refine and_congr_right fun hbytes => ?_
    simp only [List.getElem?_map, Option.map_eq_some_iff, hbytes]
    refine ⟨fun hrows i b b' hb hb' _ => hrows i _ _ ⟨b', hb', rfl⟩ ⟨b, hb, rfl⟩, ?_⟩
    intro hrows i row row' hrow hrow'
    obtain ⟨b', hb', rfl⟩ := hrow
    obtain ⟨b, hb, rfl⟩ := hrow'
    by_cases hsame : b' = b ∧ (edgeCounts F count b).sum ≠ 0
    · rw [hsame.1, h.profiledText_eq normalise estimate hsame.2]
    · exact hrows i b b' hb hb' fun heq => not_not.1 fun hne => hsame ⟨heq, hne⟩
  refine ⟨hgeneral, fun hbranches => hgeneral.trans (and_congr_right fun _ => ?_)⟩
  have hblocks : branchBlocks F' = branchBlocks F := by simp only [branchBlocks, hbranches]
  have hestimate : ∀ (G : Function n) {b : Fin n}, (edgeCounts G count b).sum = 0 →
      profiledText normalise estimate G count b = trueProbText (estimate G b 0) := by
    intro G b hzero
    rw [profiledText, profiledProbability, if_pos hzero]
  rw [hblocks]
  refine forall_congr' fun i => ⟨fun hrows b hb hzero => ?_, fun hrows b b' hb hb' hzero => ?_⟩
  · rw [← hestimate F hzero, ← hestimate F' (by rwa [h.edgeCounts_eq])]
    exact hrows b b hb hb fun _ => hzero
  · obtain rfl : b = b' := Option.some.inj (hb.symm.trans hb')
    rw [hestimate F (hzero rfl), hestimate F' (by rw [h.edgeCounts_eq]; exact hzero rfl)]
    exact hrows b hb (hzero rfl)

end

/-! ### A branch that was never executed -/

theorem equalArguments_sameCfg (ty ty' : Ty) : SameCfg (equalArguments ty) (equalArguments ty') where
  successors b := by
    match b with
    | 0 => rfl
    | 1 => rfl
    | 2 => rfl

/-- `w / 32` -/
def weight (w : Fin 33) : BranchProbability := ⟨w * 2 ^ 26, by omega⟩

/-- The share of one edge in the counts of all of them. -/
def shareOfCounts (counts : List Nat) (index : Nat) : BranchProbability :=
  ⟨min (counts.getD index 0 * 2 ^ 31 / counts.sum) (2 ^ 31), min_le_right _ _⟩

/-- A static estimate that holds two pointers for different, with 20 in 32. -/
def pointerEstimate (F : Function n) (b : Fin n) (index : Nat) : BranchProbability :=
  match conditionOperands F b with
  | .ok (some (⟨_, _, .cmp .eq lhs _⟩, _, _)) =>
    if lhs.getType.isPointerTy then weight (if index = 0 then 12 else 20) else weight 16
  | .ok (some (⟨_, _, .cmp .ne lhs _⟩, _, _)) =>
    if lhs.getType.isPointerTy then weight (if index = 0 then 20 else 12) else weight 16
  | _ => weight 16

/-- The analyses of `equalArguments` when it was never executed. -/
def neverExecuted (ty : Ty) : Analyses 3 :=
  (standardAnalyses (equalArguments ty) fun _ _ => certain).withProfile shareOfCounts
    pointerEstimate (equalArguments ty) fun _ _ => 0

theorem trueProbFile_pointer (hC : 0 < 4096) :
    trueProbFile 4096 hC (equalArguments .pointer) (neverExecuted .pointer) =
      "0.375000,0.625000\n".toList := by
  rw [trueProbFile_eq]
  decide +kernel

theorem trueProbFile_integer (hC : 0 < 4096) :
    trueProbFile 4096 hC (equalArguments (.integer 32)) (neverExecuted (.integer 32)) =
      "0.500000,0.500000\n".toList := by
  rw [trueProbFile_eq]
  decide +kernel

theorem trueProbFile_eq_iff_equalArguments :
    trueProbFile 4096 (by decide) (equalArguments (.integer 32)) (neverExecuted (.integer 32)) ≠
      trueProbFile 4096 (by decide) (equalArguments .pointer) (neverExecuted .pointer) := by
  have hiff := (trueProbFile_eq_iff shareOfCounts pointerEstimate (fun _ _ => 0)
    (standardAnalyses (equalArguments .pointer) fun _ _ => certain)
    (standardAnalyses (equalArguments (.integer 32)) fun _ _ => certain) (by decide : 0 < 4096)
    (equalArguments_sameCfg .pointer (.integer 32))).2 (by decide)
  refine fun heq => absurd ((hiff.1 heq).2 0 0 (by decide +kernel) (by decide)) ?_
  decide +kernel

/-- The type of the operands shows in the ground truth of a branch that was never executed. -/
theorem equalArguments_files_differ :
    SameCfg (equalArguments .pointer) (equalArguments (.integer 32)) ∧
      (equalArguments .pointer).verified = true ∧
      (equalArguments (.integer 32)).verified = true ∧
      trueProbFile 4096 (by decide) (equalArguments .pointer) (neverExecuted .pointer) ≠
        trueProbFile 4096 (by decide) (equalArguments (.integer 32)) (neverExecuted (.integer 32)) := by
  refine ⟨equalArguments_sameCfg _ _, by decide, by decide, ?_⟩
  rw [trueProbFile_pointer, trueProbFile_integer]
  decide

end CalcHeuristics

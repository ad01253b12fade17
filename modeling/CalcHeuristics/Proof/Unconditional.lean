import CalcHeuristics.Proof.LoopColumns

/-!
# Branches with one successor

The edge of an unconditional branch is certain, and the tests that ask for post-dominance cannot pass on
it: the only successor of a block post-dominates it. The heuristics of the condition have nothing to
look at. What is left is the loop heuristic, which can only predict "taken", and the return heuristic,
whose rule does not mention post-dominance.
-/

namespace CalcHeuristics

section
variable {n : Nat} {F : Function n} {A : Analyses n} {b s : Fin n}

theorem postDominates_unconditional (hA : A.PostDominanceStandard F)
    (hb : F.branchInst b = some (.unconditional s)) : A.postDominates s b = true := by
  have hsucc : ∀ c, F.flowGraph.edge b c ↔ c = s := by
    intro c
    show c ∈ F.successors b ↔ c = s
    rw [F.successors_eq hb]
    exact List.mem_singleton
  exact (hA s b).2 (.of_unique_succ ((hsucc s).2 rfl) fun c hc => (hsucc c).1 hc)

/-- The row of an unconditional branch, where every block reaches an exit: no heuristic applies but the
loop heuristic, which can only predict "taken", and the return heuristic, which does not ask for
post-dominance. -/
theorem unconditional_row (hexit : F.ReachesExit) (hA : A.PostDominanceOfExits F)
    (hb : F.branchInst b = some (.unconditional s)) :
    ∃ row, heuristicRow F A b s none = .ok row ∧
      (row.loop = .taken ∨ row.loop = .notApplicable) ∧ row.pointer = .notApplicable ∧
      row.opcode = .notApplicable ∧ row.guard = .notApplicable ∧
      row.loopHeader = .notApplicable ∧ row.call = .notApplicable ∧
      row.store = .notApplicable ∧
      row.ret = if (F.block s).terminator.isRet then .notTaken else .notApplicable := by
  have hgate : ∀ test : Bool, (!A.postDominates s b && test) = false := by
    simp [postDominates_unconditional (hA hexit) hb]
  have hheader : hLoopheader A b s none = .notApplicable := by
    rw [hLoopheader, successorHeuristic_none (hgate _)]
  have hcall : hCall F A b s none = .notApplicable := by
    rw [hCall, successorHeuristic_none (hgate _)]
  have hstore : hStore F A b s none = .notApplicable := by
    rw [hStore, successorHeuristic_none (hgate _)]
  have hreturn : hReturn F s none =
      if (F.block s).terminator.isRet then .notTaken else .notApplicable := by
    rw [← containsReturn_eq]
    rfl
  have hrow : heuristicRow F A b s none = .ok ⟨hLoop F A b s, .notApplicable, .notApplicable,
      .notApplicable, hLoopheader A b s none, hCall F A b s none, hStore F A b s none,
      hReturn F s none⟩ := by
    rw [heuristicRow, hPointer_eq, hOpcode_eq, hGuard_eq, conditionOperands_unconditional hb]
    rfl
  exact ⟨_, hrow, hLoop_cases F A b s, rfl, rfl, rfl, hheader, hcall, hstore, hreturn⟩

end

/-- A function that jumps to its return. -/
def jumpToReturn : Function 2 where
  block := ![
    { body := [], terminator := ⟨0, .void, .br (.unconditional 1)⟩ },
    { body := [], terminator := ⟨1, .void, .ret none⟩ }]

theorem jumpToReturn_reachesExit : jumpToReturn.ReachesExit := by
  have hexit : jumpToReturn.flowGraph.IsExit 1 := by decide
  have hedge : jumpToReturn.flowGraph.edge 0 1 := by decide
  intro b
  refine Fin.cases ?_ (fun b => ?_) b
  · exact ⟨1, _, hexit, .cons hedge (.single 1)⟩
  · obtain rfl := Subsingleton.elim b 0
    exact ⟨1, _, hexit, .single 1⟩

theorem unconditional_row_jumpToReturn :
    ∃ row, heuristicRow jumpToReturn (standardAnalyses jumpToReturn fun _ _ => certain) 0 1 none =
        .ok row ∧
      (row.loop = .taken ∨ row.loop = .notApplicable) ∧ row.pointer = .notApplicable ∧
      row.opcode = .notApplicable ∧ row.guard = .notApplicable ∧
      row.loopHeader = .notApplicable ∧ row.call = .notApplicable ∧
      row.store = .notApplicable ∧ row.ret = .notTaken :=
  unconditional_row jumpToReturn_reachesExit
    (fun _ => standardAnalyses_postDominance jumpToReturn fun _ _ => certain)
    (show jumpToReturn.branchInst 0 = some (.unconditional 1) by decide)

/-- The return column bets against the only edge of the branch. -/
theorem jumpToReturn_return_column :
    jumpToReturn.verified = true ∧ jumpToReturn.ReachesExit ∧
      jumpToReturn.branchInst 0 = some (.unconditional 1) ∧
      (heuristicRow jumpToReturn (standardAnalyses jumpToReturn fun _ _ => certain) 0 1 none).map
        HeuristicRow.ret = .ok .notTaken :=
  ⟨by decide, jumpToReturn_reachesExit, by decide, by decide⟩

end CalcHeuristics

import CalcHeuristics.Proof.Successor
import CalcHeuristics.Flow.Iso
import CalcHeuristics.Renaming

/-!
# The heuristics do not see the layout

Where the blocks of a function stand and what its instructions are called makes no difference to any of
the heuristics: they compare pointers, and read off the flow graph what the analyses say of it. A fault
is the same fault.
-/

namespace CalcHeuristics

section
variable {n : Nat} (F : Function n) (r : Renaming n)

/-! ### The condition -/

theorem conditionOperands_rename (hF : F.verified = true) (b : Fin n) :
    conditionOperands (F.rename r) (r.block b) = (conditionOperands F b).map (Option.map fun c =>
      (c.1.rename r, c.2.1.rename r, c.2.2.rename r)) := by
  cases hb : F.branchInst b with
  | none =>
      rw [conditionOperands, conditionOperands, F.branchInst_rename, hb]
      rfl
  | some br =>
      have hb' := F.branchInst_rename r b
      rw [hb, Option.map_some] at hb'
      cases br with
      | unconditional s =>
          rw [conditionOperands_unconditional hb, conditionOperands_unconditional hb']
          rfl
      | conditional cond s s' =>
          rw [conditionOperands_conditional hb, conditionOperands_conditional hb',
            F.dynCastInstruction_rename r hF]
          cases F.dynCastInstruction cond with
          | none => rfl
          | some i =>
              rw [Option.map_some]
              dsimp only
              rw [i.operands_rename]
              obtain _ | ⟨opr0, _ | ⟨opr1, rest⟩⟩ := i.operands <;> rfl

variable {F r} {b t : Fin n} {f : Option (Fin n)} {A A' : Analyses n}

theorem hPointer_rename (hF : F.verified = true) :
    hPointer (F.rename r) (r.block b) = hPointer F b := by
  rw [hPointer_eq, hPointer_eq, conditionOperands_rename F r hF]
  obtain _ | _ | ⟨i, opr0, opr1⟩ := conditionOperands F b
  · rfl
  · rfl
  · simp [Except.map]

theorem loneConstant_rename (v w : Value) :
    loneConstant (v.rename r) (w.rename r) = (loneConstant v w).map fun c =>
      (c.1.rename r, c.2) := by
  simp only [loneConstant, Value.getType_rename, Value.isConstant_rename]
  split_ifs <;> rfl

theorem opcodePrediction_rename (sext : (width : Nat) × BitVec width → Checked Int) (pred : Predicate)
    (c : Option (Value × Predicate × Predicate)) :
    opcodePrediction sext pred (c.map fun c => (c.1.rename r, c.2)) =
      opcodePrediction sext pred c := by
  obtain _ | ⟨v, strict, weak⟩ := c
  · rfl
  · cases v <;> rfl

theorem hOpcode_rename (hF : F.verified = true) :
    hOpcode (F.rename r) (r.block b) = hOpcode F b := by
  rw [hOpcode_eq, hOpcode_eq, conditionOperands_rename F r hF]
  obtain _ | _ | ⟨⟨id, ty, op⟩, opr0, opr1⟩ := conditionOperands F b
  · rfl
  · rfl
  · cases op
    case cmp pred lhs rhs =>
      show opcodePrediction getSExtValue pred (loneConstant (opr0.rename r) (opr1.rename r)) =
        opcodePrediction getSExtValue pred (loneConstant opr0 opr1)
      rw [loneConstant_rename, opcodePrediction_rename]
    all_goals rfl

/-! ### The guards -/

theorem checkLoad_rename (inst : Option (Instruction n)) :
    checkLoad (inst.map (Instruction.rename r)) = (checkLoad inst).map (Value.rename r) := by
  obtain _ | ⟨id, ty, op⟩ := inst
  · rfl
  · cases op <;> rfl

theorem checkStore_rename (inst : Option (Instruction n)) :
    checkStore (inst.map (Instruction.rename r)) = (checkStore inst).map (Value.rename r) := by
  obtain _ | ⟨id, ty, op⟩ := inst
  · rfl
  · cases op <;> rfl

theorem trackOperand_rename (tracked : Bool) (opr : Option Value) (defBeforeUse : Bool)
    (i : Instruction n) :
    trackOperand tracked (opr.map (Value.rename r)) defBeforeUse (i.rename r) =
      trackOperand tracked opr defBeforeUse i := by
  have hinj := Option.map_injective (Value.rename_injective r)
  have hload : checkLoad (some (i.rename r)) = opr.map (Value.rename r) ↔ checkLoad (some i) = opr := by
    rw [show some (i.rename r) = (some i).map (Instruction.rename r) from rfl, checkLoad_rename,
      hinj.eq_iff]
  have hstore : checkStore (some (i.rename r)) = opr.map (Value.rename r) ↔
      checkStore (some i) = opr := by
    rw [show some (i.rename r) = (some i).map (Instruction.rename r) from rfl, checkStore_rename,
      hinj.eq_iff]
  simp only [trackOperand, hload, hstore]

theorem guardScan_rename (tracked1 tracked2 : Bool) (opr1 opr2 : Option Value) (d1 d2 : Bool)
    (l : List (Instruction n)) :
    guardScan tracked1 tracked2 (opr1.map (Value.rename r)) (opr2.map (Value.rename r)) d1 d2
        (l.map (Instruction.rename r)) =
      guardScan tracked1 tracked2 opr1 opr2 d1 d2 l := by
  induction l generalizing d1 d2 with
  | nil => rfl
  | cons i rest ih => simp only [List.map_cons, guardScan, trackOperand_rename, ih]

theorem takenGuardScan_rename (opr1 opr2 : Option Value) (s : Fin n) :
    takenGuardScan (opr1.map (Value.rename r)) (opr2.map (Value.rename r))
        ((F.rename r).block (r.block s)).instructions =
      takenGuardScan opr1 opr2 (F.block s).instructions := by
  rw [F.block_rename, BasicBlock.instructions_rename, takenGuardScan, guardScan_rename,
    Option.isSome_map, Option.isSome_map, takenGuardScan]

theorem notTakenGuardScan_rename (opr1 opr2 : Option Value) (s : Fin n) :
    notTakenGuardScan (opr1.map (Value.rename r)) (opr2.map (Value.rename r))
        ((F.rename r).block (r.block s)).instructions =
      notTakenGuardScan opr1 opr2 (F.block s).instructions := by
  rw [F.block_rename, BasicBlock.instructions_rename, notTakenGuardScan, guardScan_rename,
    Option.isSome_map, notTakenGuardScan]

theorem hGuard_rename (hF : F.verified = true)
    (hpost : ∀ s, A'.postDominates (r.block s) (r.block b) = A.postDominates s b) :
    hGuard (F.rename r) A' (r.block b) (r.block t) (f.map r.block) = hGuard F A b t f := by
  have hscans : ∀ opr1 opr2, guardPrediction (F.rename r) A' (r.block b) (r.block t) (f.map r.block)
        (opr1.map (Value.rename r)) (opr2.map (Value.rename r)) =
      guardPrediction F A b t f opr1 opr2 := by
    intro opr1 opr2
    unfold guardPrediction
    rw [takenGuardScan_rename, hpost]
    cases f with
    | none => rfl
    | some s =>
        rw [Option.map_some]
        dsimp only
        rw [notTakenGuardScan_rename, hpost]
  rw [hGuard_eq, hGuard_eq, conditionOperands_rename F r hF]
  obtain _ | _ | ⟨i, v0, v1⟩ := conditionOperands F b
  · rfl
  · rfl
  · refine congrArg Except.ok ?_
    show guardPrediction _ _ _ _ _ (checkLoad ((F.rename r).dynCastInstruction (v0.rename r)))
      (checkLoad ((F.rename r).dynCastInstruction (v1.rename r))) = _
    rw [F.dynCastInstruction_rename r hF, F.dynCastInstruction_rename r hF, checkLoad_rename,
      checkLoad_rename, hscans]

/-! ### The analyses -/

/-- The layout is an isomorphism of the flow graphs. -/
def layoutIso (F : Function n) (r : Renaming n) : F.flowGraph.Iso (F.rename r).flowGraph where
  toEquiv := r.block
  map_rel_iff' := F.mem_successors_rename r _
  map_entry := (F.entry_rename r).symm

theorem reachesExit_rename (hexit : F.ReachesExit) : (F.rename r).ReachesExit := by
  rw [Function.ReachesExit, r.block.surjective.forall]
  intro b
  obtain ⟨e, p, he, hp⟩ := hexit b
  exact ⟨r.block e, _, (layoutIso F r).isExit_iff.2 he, hp.map (layoutIso F r).toRelIso⟩

theorem postDominates_rename (hA : A.PostDominanceStandard F)
    (hA' : A'.PostDominanceStandard (F.rename r)) (s b : Fin n) :
    A'.postDominates (r.block s) (r.block b) = A.postDominates s b := by
  rw [Bool.eq_iff_iff, hA', hA]
  exact (layoutIso F r).postDominates_iff

theorem isLoopHeader_rename (hli : A.loopInfo.Standard F)
    (hli' : A'.loopInfo.Standard (F.rename r)) (s : Fin n) :
    A'.loopInfo.isLoopHeader (r.block s) = A.loopInfo.isLoopHeader s := by
  rw [Bool.eq_iff_iff, hli'.isLoopHeader_iff, hli.isLoopHeader_iff]
  exact (layoutIso F r).isHeader_iff

/-- The loops around corresponding blocks correspond. -/
theorem getLoopFor_rename (hli : A.loopInfo.Standard F) (hli' : A'.loopInfo.Standard (F.rename r))
    (b : Fin n) :
    (A.loopInfo.getLoopFor b = none ∧ A'.loopInfo.getLoopFor (r.block b) = none) ∨
      ∃ L L', A.loopInfo.getLoopFor b = some L ∧ A'.loopInfo.getLoopFor (r.block b) = some L' ∧
        L'.header = r.block L.header ∧ ∀ x, r.block x ∈ L'.blocks ↔ x ∈ L.blocks := by
  cases hL : A.loopInfo.getLoopFor b with
  | none =>
      refine Or.inl ⟨rfl, (hli'.none_iff _).2 ?_⟩
      rw [r.block.surjective.forall]
      exact fun h => mt (layoutIso F r).inLoop_iff.1 ((hli.none_iff b).1 hL h)
  | some L =>
      obtain ⟨L', hL', hheader⟩ :=
        hli'.header_eq ((layoutIso F r).innermost_iff.2 (hli.innermost b L hL))
      refine Or.inr ⟨L, L', rfl, hL', hheader, fun x => ?_⟩
      rw [hli'.mem_blocks _ L' hL', hli.mem_blocks b L hL, hheader]
      exact (layoutIso F r).inLoop_iff

theorem predecessors_rename (h : Fin n) :
    ((F.rename r).predecessors (r.block h)).Perm ((F.predecessors h).map r.block) := by
  rw [Function.predecessors, Function.predecessors]
  refine ((Equiv.Perm.map_finRange_perm r.block).symm.filter _).trans ?_
  rw [List.filter_map]
  simp only [Function.comp_def, F.mem_successors_rename r]
  exact .refl _

theorem getLoopPreheader_rename {L L' : Loop n} (hheader : L'.header = r.block L.header)
    (hblocks : ∀ x, r.block x ∈ L'.blocks ↔ x ∈ L.blocks) :
    L'.getLoopPreheader (F.rename r) = (L.getLoopPreheader F).map r.block := by
  have hpredecessor : L'.getLoopPredecessor (F.rename r) =
      (L.getLoopPredecessor F).map r.block := by
    have hperm := (predecessors_rename (F := F) (r := r) L.header).filter (!L'.contains ·)
    have hcontains : ((!L'.contains ·) ∘ r.block) = (!L.contains ·) := by
      funext x
      simp [Loop.contains, hblocks]
    rw [List.filter_map, hcontains] at hperm
    rw [Loop.getLoopPredecessor, Loop.getLoopPredecessor, hheader]
    generalize ((F.rename r).predecessors (r.block L.header)).filter (!L'.contains ·) = l' at hperm ⊢
    generalize (F.predecessors L.header).filter (!L.contains ·) = l at hperm ⊢
    obtain _ | ⟨x, _ | ⟨y, rest⟩⟩ := l
    · rw [List.perm_nil.1 hperm]
      rfl
    · rw [List.perm_singleton.1 hperm]
      rfl
    · have hlength := hperm.length_eq
      obtain _ | ⟨x', _ | ⟨y', rest'⟩⟩ := l'
      · exact absurd hlength (by simp)
      · exact absurd hlength (by simp)
      · rfl
  rw [Loop.getLoopPreheader, Loop.getLoopPreheader, hpredecessor]
  cases L.getLoopPredecessor F with
  | none => rfl
  | some out =>
      rw [Option.map_some]
      dsimp only
      rw [F.block_rename, BasicBlock.isLegalToHoistInto_rename, F.successors_rename, List.length_map]
      split_ifs <;> rfl

theorem hLoop_rename (hli : A.loopInfo.Standard F) (hli' : A'.loopInfo.Standard (F.rename r))
    (b t : Fin n) : hLoop (F.rename r) A' (r.block b) (r.block t) = hLoop F A b t := by
  rw [hLoop, hLoop]
  obtain ⟨hnone, hnone'⟩ | ⟨L, L', hL, hL', hheader, hblocks⟩ := getLoopFor_rename hli hli' b
  · rw [hnone, hnone']
  · have hpreheader : L'.getLoopPreheader (F.rename r) = some (r.block t) ↔
        L.getLoopPreheader F = some t := by
      rw [getLoopPreheader_rename hheader hblocks, ← Option.map_some,
        (Option.map_injective r.block.injective).eq_iff]
    simp only [hL, hL', hheader, hpreheader, r.block.injective.eq_iff]

theorem successorHeuristic_rename {applies applies' : Fin n → Bool}
    (h : ∀ s, applies' (r.block s) = applies s) (ofTaken ofNotTaken : Prediction) :
    successorHeuristic applies' ofTaken ofNotTaken (r.block t) (f.map r.block) =
      successorHeuristic applies ofTaken ofNotTaken t f := by
  cases f with
  | none => simp only [successorHeuristic, Option.map_none, h]
  | some s => simp only [successorHeuristic, Option.map_some, h]

theorem any_instructions_rename {test : Instruction n → Bool} (htest : ∀ i, test (i.rename r) = test i)
    (s : Fin n) : ((F.rename r).block (r.block s)).instructions.any test =
      (F.block s).instructions.any test := by
  rw [F.block_rename, BasicBlock.instructions_rename, List.any_map]
  congr 1
  exact funext htest

/-- The row of a branch is the row of the branch it has become, and a fault is the same fault. -/
theorem heuristicRow_rename (hF : F.verified = true) (hli : A.loopInfo.Standard F)
    (hA : A.PostDominanceStandard F) (hli' : A'.loopInfo.Standard (F.rename r))
    (hA' : A'.PostDominanceStandard (F.rename r)) (b t : Fin n) (f : Option (Fin n)) :
    heuristicRow (F.rename r) A' (r.block b) (r.block t) (f.map r.block) =
      heuristicRow F A b t f := by
  have hpost := fun s => postDominates_rename hA hA' s b
  have hheader : hLoopheader A' (r.block b) (r.block t) (f.map r.block) = hLoopheader A b t f :=
    successorHeuristic_rename (fun s => by
      rw [entersLoop, entersLoop, hpost, isLoopHeader_rename hli hli']) _ _
  have hcall : hCall (F.rename r) A' (r.block b) (r.block t) (f.map r.block) = hCall F A b t f :=
    successorHeuristic_rename (fun s => by
      rw [containsCall, containsCall, hpost,
        any_instructions_rename (Instruction.isCallInst_rename r)]) _ _
  have hstore : hStore (F.rename r) A' (r.block b) (r.block t) (f.map r.block) = hStore F A b t f :=
    successorHeuristic_rename (fun s => by
      rw [containsStore, containsStore, hpost,
        any_instructions_rename (Instruction.isStore_rename r)]) _ _
  have hret : hReturn (F.rename r) (r.block t) (f.map r.block) = hReturn F t f :=
    successorHeuristic_rename (fun s => any_instructions_rename (Instruction.isRet_rename r) s) _ _
  rw [heuristicRow, heuristicRow, hPointer_rename hF, hOpcode_rename hF, hGuard_rename hF hpost,
    hLoop_rename hli hli', hheader, hcall, hstore, hret]

theorem BranchInst.heuristicRow_rename (br : BranchInst n) (hF : F.verified = true)
    (hli : A.loopInfo.Standard F) (hA : A.PostDominanceStandard F)
    (hli' : A'.loopInfo.Standard (F.rename r)) (hA' : A'.PostDominanceStandard (F.rename r))
    (b : Fin n) :
    heuristicRow (F.rename r) A' (r.block b) (br.rename r).takenSuccessor
        (br.rename r).notTakenSuccessor =
      heuristicRow F A b br.takenSuccessor br.notTakenSuccessor := by
  rw [← CalcHeuristics.heuristicRow_rename hF hli hA hli' hA']
  cases br <;> rfl

end

end CalcHeuristics

import CalcHeuristics.Proof.Guard
import CalcHeuristics.Proof.LoopColumns

/-!
# Two heuristics on any function

Without the canonical form of loops the loop heuristic still predicts only back edges, but not all of
them: from inside a loop it knows no way to go on with an outer one, unless the outer header happens to be
the preheader of the inner loop. The guard heuristic says "not taken" for two reasons, one of which has
nothing to do with guards.
-/

namespace CalcHeuristics

variable {n : Nat} {F : Function n} {A : Analyses n} {b s t : Fin n}

/-! ### The loop heuristic -/

theorem mem_entering_iff (F : Function n) (loop : Loop n) (q : Fin n) :
    q ∈ (F.predecessors loop.header).filter (!loop.contains ·) ↔
      F.flowGraph.edge q loop.header ∧ q ∉ loop.blocks := by
  have hedge : F.flowGraph.edge q loop.header ↔ loop.header ∈ F.successors q := Iff.rfl
  simp [Function.predecessors, Loop.contains, hedge, and_comm]

/-- LLVM takes a block for a preheader that names its only successor once, and that instructions may be
hoisted into. -/
def TakenForPreheader (F : Function n) (s h : Fin n) : Prop :=
  F.flowGraph.IsPreheader s h ∧ (F.successors s).length = 1 ∧
    (F.block s).isLegalToHoistInto = true

instance (F : Function n) (s h : Fin n) : Decidable (TakenForPreheader F s h) :=
  inferInstanceAs (Decidable (F.flowGraph.IsPreheader s h ∧ (F.successors s).length = 1 ∧
    (F.block s).isLegalToHoistInto = true))

theorem getLoopPreheader_eq_some_iff {loop : Loop n}
    (hblocks : ∀ x, x ∈ loop.blocks ↔ F.flowGraph.InLoop loop.header x) :
    loop.getLoopPreheader F = some s ↔ TakenForPreheader F s loop.header := by
  have hpredecessor : loop.getLoopPredecessor F = some s ↔
      (F.predecessors loop.header).filter (!loop.contains ·) = [s] := by
    rw [Loop.getLoopPredecessor]
    split
    · rename_i out hout
      rw [hout, Option.some.injEq, List.cons.injEq, and_iff_left rfl]
    · rename_i hnot
      simpa using hnot s
  have hpreheader : loop.getLoopPreheader F = some s ↔
      loop.getLoopPredecessor F = some s ∧ (F.successors s).length = 1 ∧
        (F.block s).isLegalToHoistInto = true := by
    rw [Loop.getLoopPreheader]
    cases loop.getLoopPredecessor F with
    | none => simp
    | some out =>
        dsimp only
        rw [Option.some.injEq]
        split_ifs with hillegal hone
        · simp only [false_iff, not_and]
          rintro rfl _ hlegal
          simp [hlegal] at hillegal
        · rw [Option.some.injEq]
          exact ⟨fun h => ⟨h, h ▸ hone, by simpa [h] using hillegal⟩, fun h => h.1⟩
        · simp only [false_iff, not_and]
          rintro rfl hone'
          exact absurd hone' hone
  have hnodup : ((F.predecessors loop.header).filter (!loop.contains ·)).Nodup :=
    ((List.nodup_finRange n).filter _).filter _
  rw [hpreheader, hpredecessor, TakenForPreheader]
  refine and_congr_left fun hlegal => ⟨fun hsingle => ?_, fun hpre => ?_⟩
  · have hmem := fun q => mem_entering_iff F loop q
    simp only [hsingle, List.mem_singleton, hblocks] at hmem
    obtain ⟨hedge, hout⟩ := (hmem s).1 rfl
    refine ⟨hedge, hout, fun q hq hqout => (hmem q).2 ⟨hq, hqout⟩, fun x hx => ?_⟩
    obtain ⟨y, hy⟩ := List.length_eq_one_iff.1 hlegal.1
    have hboth : ∀ z, F.flowGraph.edge s z → z = y := fun z hz => by
      have hz' : z ∈ F.successors s := hz
      rwa [hy, List.mem_singleton] at hz'
    rw [hboth x hx, hboth _ hedge]
  · obtain ⟨hedge, hout, honly, _⟩ := hpre
    refine List.perm_singleton.1 ((List.perm_ext_iff_of_nodup hnodup (List.nodup_singleton s)).2 ?_)
    intro q
    rw [mem_entering_iff, hblocks, List.mem_singleton]
    exact ⟨fun h => honly q h.1 h.2, fun h => h ▸ ⟨hedge, hout⟩⟩

/-- Whatever the loops look like, the loop heuristic predicts "taken" exactly on the back edges to the
header of the innermost loop or to its preheader, which is then the header of an outer one. -/
theorem hLoop_taken_iff_backEdge {br : BranchInst n} (hF : F.verified = true)
    (hli : A.loopInfo.Standard F) (hbr : F.branchInst b = some br)
    (hreach : F.flowGraph.Reachable b) :
    hLoop F A b br.takenSuccessor = .taken ↔
      F.flowGraph.BackEdge b br.takenSuccessor ∧ ∃ h, F.flowGraph.Innermost h b ∧
        (br.takenSuccessor = h ∨ TakenForPreheader F br.takenSuccessor h) := by
  have hedge : F.flowGraph.edge b br.takenSuccessor :=
    (F.successors_eq hbr ▸ br.takenSuccessor_mem : br.takenSuccessor ∈ F.successors b)
  have htarget : IsLoopTarget F A b br.takenSuccessor ↔ ∃ h, F.flowGraph.Innermost h b ∧
      (br.takenSuccessor = h ∨ TakenForPreheader F br.takenSuccessor h) := by
    constructor
    · rintro ⟨L, hL, hstart⟩
      rw [getLoopPreheader_eq_some_iff (hli.mem_blocks b L hL), eq_comm] at hstart
      exact ⟨L.header, hli.innermost b L hL, hstart⟩
    · rintro ⟨h, hinner, hstart⟩
      obtain ⟨L, hL, rfl⟩ := hli.header_eq hinner
      refine ⟨L, hL, ?_⟩
      rwa [getLoopPreheader_eq_some_iff (hli.mem_blocks b L hL), eq_comm]
  rw [hLoop_eq_taken_iff]
  refine ⟨fun h => ⟨⟨hedge, hreach, ?_⟩, htarget.1 h⟩, fun h => htarget.2 h.2⟩
  exact h.dominates hli (F.entry_not_mem_of_verified hF)

/-- From inside the inner loop the outer header is known as a preheader. -/
theorem hLoop_taken_iff_backEdge_loopInLoop :
    TakenForPreheader loopInLoop 1 2 ∧ loopInLoop.flowGraph.Innermost 2 2 ∧
      hLoop loopInLoop (standardAnalyses loopInLoop fun _ _ => certain) 2 1 = .taken := by
  have hpreheader : TakenForPreheader loopInLoop 1 2 := by decide +kernel
  have hinner : loopInLoop.flowGraph.Innermost 2 2 := by decide +kernel
  refine ⟨hpreheader, hinner, ?_⟩
  exact (hLoop_taken_iff_backEdge (by decide +kernel) (naturalLoops_standard loopInLoop)
    (show loopInLoop.branchInst 2 = some (.conditional (.instruction 2 (.integer 1)) 1 3) by decide)
    (by decide +kernel)).2 ⟨by decide +kernel, 2, hinner, Or.inr hpreheader⟩

/-! ### The guard heuristic -/

section
variable {cond : Value} {i : Instruction n} {v0 v1 : Value} {s' s'' : Fin n} {rest : List Value}

/-- A pointer that an operand of the condition was loaded from is used in a block before it is defined
there. -/
def Guarded (F : Function n) (v0 v1 : Value) (s : Fin n) : Prop :=
  ∃ p, (LoadedFrom F v0 p ∨ LoadedFrom F v1 p) ∧ UsedBeforeDefined p (F.block s).instructions

theorem takenGuardScan_iff_guarded : takenGuardScan (checkLoad (F.dynCastInstruction v0))
    (checkLoad (F.dynCastInstruction v1)) (F.block s).instructions = true ↔ Guarded F v0 v1 s := by
  rw [takenGuardScan_iff]
  simp only [← loadedFrom_iff, Guarded, or_and_right, exists_or]

theorem guardPrediction_eq_notTaken_iff {opr1 opr2 : Option Value} :
    guardPrediction F A b t (some s) opr1 opr2 = .notTaken ↔
      ¬ (A.postDominates t b = false ∧ takenGuardScan opr1 opr2 (F.block t).instructions = true) ∧
        A.postDominates s b = false ∧
        notTakenGuardScan opr1 opr2 (F.block s).instructions = true := by
  unfold guardPrediction
  split
  · simp_all
  · dsimp only
    split <;> simp_all

theorem checkLoad_head?_eq_none_iff {l : List (Instruction n)} :
    checkLoad l.head? = none ↔ ∀ j, l.head? = some j → ∀ p, j.op ≠ .load p := by
  cases l.head? with
  | none => simp [checkLoad]
  | some j =>
      simp only [Option.some.injEq, forall_eq', ne_eq, ← checkLoad_eq_some_iff]
      exact Option.eq_none_iff_forall_not_mem

/-- The heuristic predicts "not taken" exactly when the taken successor is not found to be guarded and the
other one does not post-dominate and is guarded, or just does not begin with a load while the first
operand is no load either. -/
theorem hGuard_eq_notTaken_iff (hb : F.branchInst b = some (.conditional cond s' s''))
    (hi : F.dynCastInstruction cond = some i) (hops : i.operands = v0 :: v1 :: rest) (t s : Fin n) :
    hGuard F A b t (some s) = .ok .notTaken ↔
      ¬ (A.postDominates t b = false ∧ Guarded F v0 v1 t) ∧ A.postDominates s b = false ∧
        (Guarded F v0 v1 s ∨ (∀ p, ¬ LoadedFrom F v0 p) ∧
          ∀ j, (F.block s).instructions.head? = some j → ∀ p, j.op ≠ .load p) := by
  have hcond : conditionOperands F b = .ok (some (i, v0, v1)) :=
    conditionOperands_eq_some_iff.2 ⟨cond, s', s'', rest, hb, hi, hops⟩
  rw [hGuard_of_operands hcond, Except.ok.injEq, guardPrediction_eq_notTaken_iff,
    notTakenGuardScan_iff (instructions_ne_nil _), takenGuardScan_iff_guarded,
    takenGuardScan_iff_guarded, checkLoad_head?_eq_none_iff, Option.eq_none_iff_forall_not_mem]
  simp only [Option.mem_def, ← loadedFrom_iff]

end

theorem hGuard_eq_notTaken_iff_compareArguments :
    hGuard compareArguments (standardAnalyses compareArguments fun _ _ => certain) 0 1 (some 2) =
        .ok .notTaken ↔
      ¬ ((standardAnalyses compareArguments fun _ _ => certain).postDominates 1 0 = false ∧
          Guarded compareArguments (.argument 0 (.integer 32)) (.argument 1 (.integer 32)) 1) ∧
        (standardAnalyses compareArguments fun _ _ => certain).postDominates 2 0 = false ∧
        (Guarded compareArguments (.argument 0 (.integer 32)) (.argument 1 (.integer 32)) 2 ∨
          (∀ p, ¬ LoadedFrom compareArguments (.argument 0 (.integer 32)) p) ∧
            ∀ j, (compareArguments.block 2).instructions.head? = some j → ∀ p, j.op ≠ .load p) :=
  hGuard_eq_notTaken_iff (show compareArguments.branchInst 0 =
    some (.conditional (.instruction 0 (.integer 1)) 1 2) by decide) rfl rfl 1 2

end CalcHeuristics

import CalcHeuristics.Proof.Guard
import CalcHeuristics.Proof.Successor

/-!
# Debug calls

Compiling with debug information adds calls to debug intrinsics to the blocks of a function and changes
nothing else. The heuristics see them in two places. `hCall` counts them as calls, and `hGuard` takes a
debug call at the start of the not-taken successor for a use of a first operand that is no load. The scans
are otherwise indifferent: a debug call neither loads nor stores.
-/

namespace CalcHeuristics

variable {n : Nat}

/-! ### Adding debug calls -/

/-- `l'` is `l` with debug calls added anywhere. -/
inductive DebugCallsAdded : List (Instruction n) → List (Instruction n) → Prop
  | nil : DebugCallsAdded [] []
  | keep (i : Instruction n) {l l' : List (Instruction n)} (h : DebugCallsAdded l l') :
      DebugCallsAdded (i :: l) (i :: l')
  | add (i : Instruction n) (hi : i.isDebugCall = true) {l l' : List (Instruction n)}
      (h : DebugCallsAdded l l') : DebugCallsAdded l (i :: l')

/-- `F'` is `F` with debug calls added to its blocks. -/
structure WithDebugCalls (F F' : Function n) : Prop where
  body : ∀ b, DebugCallsAdded (F.block b).body (F'.block b).body
  terminator : ∀ b, (F'.block b).terminator = (F.block b).terminator

namespace Instruction

variable {i : Instruction n}

theorem isDebugCall_iff : i.isDebugCall = true ↔
    ∃ args kind, i.op = .call args (.constant (.debugIntrinsic kind)) := by
  rw [isDebugCall]
  split <;> simp_all

theorem isCallInst_of_isDebugCall (h : i.isDebugCall = true) : i.isCallInst = true := by
  obtain ⟨args, kind, hop⟩ := isDebugCall_iff.1 h
  rw [isCallInst, hop]

theorem isStore_of_isDebugCall (h : i.isDebugCall = true) : i.isStore = false := by
  obtain ⟨args, kind, hop⟩ := isDebugCall_iff.1 h
  rw [isStore, hop]

theorem checkLoad_of_isDebugCall (h : i.isDebugCall = true) : checkLoad (some i) = none := by
  obtain ⟨args, kind, hop⟩ := isDebugCall_iff.1 h
  obtain ⟨id, ty, op⟩ := i
  obtain rfl := hop
  rfl

theorem checkStore_of_isDebugCall (h : i.isDebugCall = true) : checkStore (some i) = none := by
  obtain ⟨args, kind, hop⟩ := isDebugCall_iff.1 h
  obtain ⟨id, ty, op⟩ := i
  obtain rfl := hop
  rfl

end Instruction

namespace DebugCallsAdded

variable {l l' : List (Instruction n)}

theorem concat (h : DebugCallsAdded l l') (i : Instruction n) :
    DebugCallsAdded (l ++ [i]) (l' ++ [i]) := by
  induction h with
  | nil => exact .keep i .nil
  | keep j _ ih => exact .keep j ih
  | add j hj _ ih => exact .add j hj ih

theorem sublist (h : DebugCallsAdded l l') : l.Sublist l' := by
  induction h with
  | nil => exact .slnil
  | keep i _ ih => exact ih.cons_cons i
  | add i _ _ ih => exact ih.cons i

/-- A test that debug calls fail has the answer it had. -/
theorem any_eq (h : DebugCallsAdded l l') {test : Instruction n → Bool}
    (htest : ∀ i, i.isDebugCall = true → test i = false) : l'.any test = l.any test := by
  induction h with
  | nil => rfl
  | keep i _ ih => rw [List.any_cons, List.any_cons, ih]
  | add i hi _ ih => rw [List.any_cons, htest i hi, Bool.false_or, ih]

theorem any_isCallInst (h : DebugCallsAdded l l') :
    l'.any Instruction.isCallInst = true ↔ l.any Instruction.isCallInst = true ∨ l' ≠ l := by
  induction h with
  | nil => simp
  | keep i _ ih =>
      rw [List.any_cons, List.any_cons, Bool.or_eq_true, Bool.or_eq_true, ih, ne_eq, ne_eq,
        List.cons_inj_right, or_assoc]
  | @add i hi l l' h _ =>
      have hne : i :: l' ≠ l := fun heq => by
        have hle := h.sublist.length_le
        rw [← heq, List.length_cons] at hle
        omega
      simp [Instruction.isCallInst_of_isDebugCall hi, hne]

theorem usedBeforeDefined_iff (h : DebugCallsAdded l l') (p : Value) :
    UsedBeforeDefined p l' ↔ UsedBeforeDefined p l := by
  induction h with
  | nil => exact Iff.rfl
  | keep i _ ih =>
      rw [UsedBeforeDefined, UsedBeforeDefined, usedFirst_cons, usedFirst_cons]
      exact or_congr_right (and_congr_right fun _ => ih)
  | add i hi _ ih =>
      rw [← ih]
      apply Scan.until_cons_of_skip
      · simp [Instruction.checkStore_of_isDebugCall hi]
      · simp [Instruction.checkLoad_of_isDebugCall hi]

theorem takenGuardScan_eq (h : DebugCallsAdded l l') (opr1 opr2 : Option Value) :
    takenGuardScan opr1 opr2 l' = takenGuardScan opr1 opr2 l := by
  rw [Bool.eq_iff_iff, takenGuardScan_iff, takenGuardScan_iff]
  simp only [h.usedBeforeDefined_iff]

theorem checkLoad_head? (h : DebugCallsAdded l l') (hl : checkLoad l.head? = none) :
    checkLoad l'.head? = none := by
  cases h with
  | nil => exact hl
  | keep i _ => exact hl
  | add i hi _ => exact Instruction.checkLoad_of_isDebugCall hi

end DebugCallsAdded

/-! ### The condition and the analyses do not change -/

namespace WithDebugCalls

variable {F F' : Function n} {A : Analyses n} {b s t : Fin n} {f : Option (Fin n)}

theorem instructions (h : WithDebugCalls F F') (b : Fin n) :
    DebugCallsAdded (F.block b).instructions (F'.block b).instructions := by
  rw [BasicBlock.instructions, BasicBlock.instructions, h.terminator b]
  exact (h.body b).concat _

theorem branchInst_eq (h : WithDebugCalls F F') (b : Fin n) : F'.branchInst b = F.branchInst b := by
  rw [Function.branchInst, Function.branchInst, h.terminator b]

theorem successors_eq (h : WithDebugCalls F F') (b : Fin n) : F'.successors b = F.successors b := by
  rw [Function.successors, Function.successors, BasicBlock.successors, BasicBlock.successors,
    h.terminator b]

/-- A value of the old function names the instruction it named. -/
theorem dynCastInstruction_eq (h : WithDebugCalls F F') (hF' : F'.verified = true) {v : Value}
    (hv : F.resolves v = true) : F'.dynCastInstruction v = F.dynCastInstruction v := by
  cases v with
  | instruction id ty =>
      cases hi : F.dynCastInstruction (.instruction id ty) with
      | none =>
          rw [Function.resolves, List.any_eq_true] at hv
          rw [Function.dynCastInstruction, List.find?_eq_none] at hi
          obtain ⟨j, hj, hid⟩ := hv
          exact absurd (by simpa using hid) fun hboth => hi j hj (by simpa using hboth.1)
      | some i =>
          obtain ⟨c, hc⟩ := Function.mem_instructions.1 (Function.mem_of_dynCastInstruction hi)
          exact (Function.dynCastInstruction_eq_some_iff hF').2
            ⟨Function.mem_instructions.2 ⟨c, (h.instructions c).sublist.subset hc⟩,
              by simpa using List.find?_some hi⟩
  | _ => rfl

theorem conditionOperands_eq (h : WithDebugCalls F F') (hF : F.verified = true)
    (hF' : F'.verified = true) (b : Fin n) : conditionOperands F' b = conditionOperands F b := by
  cases hb : F.branchInst b with
  | none => rw [conditionOperands, conditionOperands, h.branchInst_eq, hb]; rfl
  | some br =>
      cases br with
      | unconditional s =>
          rw [conditionOperands_unconditional hb,
            conditionOperands_unconditional ((h.branchInst_eq b).trans hb)]
      | conditional cond s s' =>
          have hcond : cond ∈ (F.block b).terminator.operands := by
            rw [Function.branchInst, Instruction.dynCastBranchInst] at hb
            split at hb
            · rename_i inst hop
              rw [Instruction.operands, hop, Operation.operands, Option.some.inj hb]
              exact List.mem_cons_self
            · exact absurd hb (by simp)
          rw [conditionOperands_conditional hb,
            conditionOperands_conditional ((h.branchInst_eq b).trans hb),
            h.dynCastInstruction_eq hF'
              (Function.resolves_of_verified hF (F.terminator_mem b) cond hcond)]

/-- The loads behind the operands of the condition are those of the old function. -/
theorem dynCastInstruction_operands_eq (h : WithDebugCalls F F') (hF : F.verified = true)
    (hF' : F'.verified = true) {i : Instruction n} {v0 v1 : Value}
    (hops : conditionOperands F b = .ok (some (i, v0, v1))) :
    F'.dynCastInstruction v0 = F.dynCastInstruction v0 ∧
      F'.dynCastInstruction v1 = F.dynCastInstruction v1 := by
  obtain ⟨cond, _, _, rest, _, hi, hoperands⟩ := conditionOperands_eq_some_iff.1 hops
  have hresolves := Function.resolves_of_verified hF (Function.mem_of_dynCastInstruction hi)
  rw [hoperands] at hresolves
  exact ⟨h.dynCastInstruction_eq hF' (hresolves v0 (by simp)),
    h.dynCastInstruction_eq hF' (hresolves v1 (by simp))⟩

theorem hLoop_eq (h : WithDebugCalls F F') : hLoop F' A b t = hLoop F A b t := by
  have hpreheader : ∀ L : Loop n, L.getLoopPreheader F' = L.getLoopPreheader F :=
    Loop.getLoopPreheader_congr (fun c => .of_eq (h.successors_eq c)) fun c => by
      rw [BasicBlock.isLegalToHoistInto, BasicBlock.isLegalToHoistInto, h.terminator c]
  simp only [hLoop, hpreheader]

theorem hPointer_eq (h : WithDebugCalls F F') (hF : F.verified = true) (hF' : F'.verified = true) :
    hPointer F' b = hPointer F b := by
  rw [CalcHeuristics.hPointer_eq, CalcHeuristics.hPointer_eq, h.conditionOperands_eq hF hF']

theorem hOpcode_eq (h : WithDebugCalls F F') (hF : F.verified = true) (hF' : F'.verified = true) :
    hOpcode F' b = hOpcode F b := by
  rw [CalcHeuristics.hOpcode_eq, CalcHeuristics.hOpcode_eq, h.conditionOperands_eq hF hF']

theorem hStore_eq (h : WithDebugCalls F F') : hStore F' A b t f = hStore F A b t f := by
  have hcontains : containsStore F' A b = containsStore F A b := by
    funext s
    rw [containsStore, containsStore,
      (h.instructions s).any_eq fun _ => Instruction.isStore_of_isDebugCall]
  rw [hStore, hStore, hcontains]

theorem hReturn_eq (h : WithDebugCalls F F') : hReturn F' t f = hReturn F t f := by
  have hcontains : containsReturn F' = containsReturn F := by
    funext s
    rw [containsReturn_eq, containsReturn_eq, h.terminator s]
  rw [hReturn, hReturn, hcontains]

end WithDebugCalls

/-! ### The calls and the guards that appear -/

section
variable (F F' : Function n) (A : Analyses n) (b t s : Fin n)

/-- A successor that does not post-dominate has its first call from debug information. -/
structure CallInvented : Prop where
  declinable : A.postDominates s b = false
  noCall : ∀ i ∈ (F.block s).instructions, i.isCallInst = false
  added : (F'.block s).body ≠ (F.block s).body

/-- The first operand of the condition is no load, and a debug call takes the place of the load at the
start of the not-taken successor `s`, while no operand is used before it is defined in either
successor. -/
structure GuardInvented : Prop where
  operands : ∃ i v0 v1, conditionOperands F b = .ok (some (i, v0, v1)) ∧
    checkLoad (F.dynCastInstruction v0) = none ∧
    ∀ p, checkLoad (F.dynCastInstruction v1) = some p →
      ¬ UsedBeforeDefined p (F.block s).instructions ∧
        (A.postDominates t b = false → ¬ UsedBeforeDefined p (F.block t).instructions)
  declinable : A.postDominates s b = false
  load : checkLoad (F.block s).instructions.head? ≠ none
  noLoad : checkLoad (F'.block s).instructions.head? = none

end

namespace WithDebugCalls

variable {F F' : Function n} {A : Analyses n} {b s t : Fin n} {f : Option (Fin n)}

theorem containsCall_iff (h : WithDebugCalls F F') :
    containsCall F' A b s = true ↔ containsCall F A b s = true ∨ CallInvented F F' A b s := by
  have hbody : (F'.block s).instructions ≠ (F.block s).instructions ↔
      (F'.block s).body ≠ (F.block s).body := by
    rw [BasicBlock.instructions, BasicBlock.instructions, h.terminator s, ne_eq,
      List.append_left_inj]
  rw [containsCall, containsCall, Bool.and_eq_true, Bool.and_eq_true,
    (h.instructions s).any_isCallInst, hbody]
  refine ⟨fun hcalls => ?_, fun hcalls => ?_⟩
  · obtain ⟨hpost, hcall | hadded⟩ := hcalls
    · exact Or.inl ⟨hpost, hcall⟩
    · by_cases hcall : (F.block s).instructions.any Instruction.isCallInst = true
      · exact Or.inl ⟨hpost, hcall⟩
      · exact Or.inr ⟨by simpa using hpost, by simpa using hcall, hadded⟩
  · obtain ⟨hpost, hcall⟩ | hinvented := hcalls
    · exact ⟨hpost, Or.inl hcall⟩
    · exact ⟨by simpa using hinvented.declinable, Or.inr hinvented.added⟩

theorem not_callInvented (hcall : containsCall F A b s = true) : ¬ CallInvented F F' A b s := by
  intro hinvented
  rw [containsCall, Bool.and_eq_true, List.any_eq_true] at hcall
  obtain ⟨_, i, hi, hisCall⟩ := hcall
  rw [hinvented.noCall i hi] at hisCall
  exact absurd hisCall (by simp)

theorem containsCall_eq_iff (h : WithDebugCalls F F') :
    containsCall F' A b s = containsCall F A b s ↔ ¬ CallInvented F F' A b s := by
  rw [Bool.eq_iff_iff, h.containsCall_iff]
  refine ⟨fun hsame hinvented => ?_, fun hnone => ?_⟩
  · exact not_callInvented (hsame.1 (Or.inr hinvented)) hinvented
  · exact or_iff_left hnone

/-- `hCall` keeps its value unless a call is invented in the successor that decides it. -/
theorem hCall_eq_iff (h : WithDebugCalls F F') :
    hCall F' A b t f = hCall F A b t f ↔ ¬ CallInvented F F' A b t ∧
      (containsCall F A b t = true ∨ ∀ s, f = some s → ¬ CallInvented F F' A b s) := by
  rw [hCall, hCall, successorHeuristic_eq_iff (by decide) (by decide) (by decide)]
  simp only [h.containsCall_eq_iff]

theorem guardPrediction_eq (h : WithDebugCalls F F') (opr1 opr2 : Option Value) :
    guardPrediction F' A b t f opr1 opr2 = guardPrediction F A b t f opr1 opr2 ↔
      ∀ s, f = some s → A.postDominates s b = false →
        ¬ (A.postDominates t b = false ∧ takenGuardScan opr1 opr2 (F.block t).instructions = true) →
        notTakenGuardScan opr1 opr2 (F'.block s).instructions =
          notTakenGuardScan opr1 opr2 (F.block s).instructions := by
  simp only [guardPrediction, (h.instructions t).takenGuardScan_eq]
  by_cases htaken : A.postDominates t b = false ∧
      takenGuardScan opr1 opr2 (F.block t).instructions = true
  · simp [htaken]
  · have hneg : ¬ (!A.postDominates t b && takenGuardScan opr1 opr2 (F.block t).instructions) =
        true := by
      simpa using htaken
    rw [if_neg hneg, if_neg hneg]
    cases f with
    | none => simp
    | some s =>
        simp only [Option.some.injEq, forall_eq', htaken, not_false_eq_true, forall_const]
        cases A.postDominates s b <;>
          cases notTakenGuardScan opr1 opr2 (F'.block s).instructions <;>
          cases notTakenGuardScan opr1 opr2 (F.block s).instructions <;> simp

/-- The scan of the not-taken successor only notices that a debug call has become the first instruction
instead of a load. -/
theorem notTakenGuardScan_eq_iff (h : WithDebugCalls F F') (opr1 opr2 : Option Value) :
    notTakenGuardScan opr1 opr2 (F'.block s).instructions =
        notTakenGuardScan opr1 opr2 (F.block s).instructions ↔
      ¬ (opr1 = none ∧ checkLoad (F.block s).instructions.head? ≠ none ∧
        checkLoad (F'.block s).instructions.head? = none ∧
        ∀ p, opr2 = some p → ¬ UsedBeforeDefined p (F.block s).instructions) := by
  have hhead := (h.instructions s).checkLoad_head?
  rw [Bool.eq_iff_iff, notTakenGuardScan_iff (instructions_ne_nil _),
    notTakenGuardScan_iff (instructions_ne_nil _), (h.instructions s).takenGuardScan_eq,
    takenGuardScan_iff]
  cases opr1 with
  | some p => simp
  | none =>
      by_cases huse : ∃ p, opr2 = some p ∧ UsedBeforeDefined p (F.block s).instructions
      · obtain ⟨p, rfl, hp⟩ := huse
        simp [hp]
      · have hnone : ∀ p, opr2 = some p → ¬ UsedBeforeDefined p (F.block s).instructions :=
          fun p hp hused => huse ⟨p, hp, hused⟩
        simp only [reduceCtorEq, false_and, exists_false, huse, false_or, true_and]
        refine ⟨fun hsame hlost => ?_, fun hkept => ?_⟩
        · obtain ⟨hload, hnoLoad, _⟩ := hlost
          exact hload (hsame.1 hnoLoad)
        · refine ⟨fun hnoLoad => ?_, hhead⟩
          by_contra hload
          exact hkept ⟨hload, hnoLoad, hnone⟩

theorem not_guardInvented (h : ∀ i v0 v1, conditionOperands F b ≠ .ok (some (i, v0, v1))) :
    ¬ GuardInvented F F' A b t s := by
  intro hinvented
  obtain ⟨i, v0, v1, hops, _⟩ := hinvented.operands
  exact h i v0 v1 hops

/-- `hGuard` keeps its value unless a guard is invented in the not-taken successor. -/
theorem hGuard_eq_iff (h : WithDebugCalls F F') (hF : F.verified = true) (hF' : F'.verified = true) :
    hGuard F' A b t f = hGuard F A b t f ↔
      ∀ s, f = some s → ¬ GuardInvented F F' A b t s := by
  cases hops : conditionOperands F b with
  | error fault =>
      rw [hGuard_eq, hGuard_eq, h.conditionOperands_eq hF hF', hops]
      simp only [Except.map, true_iff]
      exact fun s _ => not_guardInvented (by simp [hops])
  | ok operands =>
      obtain _ | ⟨i, v0, v1⟩ := operands
      · rw [hGuard_eq, hGuard_eq, h.conditionOperands_eq hF hF', hops]
        simp only [Except.map, true_iff]
        exact fun s _ => not_guardInvented (by simp [hops])
      · obtain ⟨h0, h1⟩ := h.dynCastInstruction_operands_eq hF hF' hops
        rw [hGuard_of_operands ((h.conditionOperands_eq hF hF' b).trans hops),
          hGuard_of_operands hops, h0, h1, Except.ok.injEq, h.guardPrediction_eq]
        refine forall_congr' fun s => imp_congr_right fun _ => ?_
        rw [h.notTakenGuardScan_eq_iff, takenGuardScan_iff]
        refine ⟨fun hkept hinvented => ?_, fun hkept hpost hno hlost => ?_⟩
        · obtain ⟨⟨j, w0, w1, hsome, hnone, hunused⟩, hpost, hload, hnoLoad⟩ := hinvented
          rw [hops] at hsome
          obtain ⟨rfl, rfl, rfl⟩ : i = j ∧ v0 = w0 ∧ v1 = w1 := by simpa using hsome
          refine hkept hpost ?_ ⟨hnone, hload, hnoLoad, fun p hp => (hunused p hp).1⟩
          intro htaken
          obtain ⟨hpostt, ⟨p, hp, _⟩ | ⟨p, hp, hused⟩⟩ := htaken
          · simp [hnone] at hp
          · exact (hunused p hp).2 hpostt hused
        · obtain ⟨hnone, hload, hnoLoad, hunused⟩ := hlost
          refine hkept ⟨⟨i, v0, v1, hops, hnone, fun p hp => ⟨hunused p hp, fun hpostt hused => ?_⟩⟩,
            hpost, hload, hnoLoad⟩
          exact hno ⟨hpostt, Or.inr ⟨p, hp, hused⟩⟩

end WithDebugCalls

/-! ### The eight values -/

/-- What the eight heuristics return for a branch. -/
def heuristicValues (F : Function n) (A : Analyses n) (b t : Fin n) (f : Option (Fin n)) :
    List (Checked Prediction) :=
  [.ok (hLoop F A b t), hPointer F b, hOpcode F b, hGuard F A b t f, .ok (hLoopheader A b t f),
    .ok (hCall F A b t f), .ok (hStore F A b t f), .ok (hReturn F t f)]

/-- Adding debug calls keeps all eight values exactly when no call is invented in the successor that
decides `hCall` and no guard in the not-taken one. The flow graph, and so the analyses, are the same. -/
theorem heuristicValues_debugCalls_iff {F F' : Function n} (A : Analyses n) (b t : Fin n)
    (f : Option (Fin n)) (h : WithDebugCalls F F') (hF : F.verified = true)
    (hF' : F'.verified = true) :
    heuristicValues F' A b t f = heuristicValues F A b t f ↔
      (¬ CallInvented F F' A b t ∧
          (containsCall F A b t = true ∨ ∀ s, f = some s → ¬ CallInvented F F' A b s)) ∧
        ∀ s, f = some s → ¬ GuardInvented F F' A b t s := by
  rw [heuristicValues, heuristicValues, h.hLoop_eq, h.hPointer_eq hF hF', h.hOpcode_eq hF hF',
    h.hStore_eq, h.hReturn_eq, ← h.hCall_eq_iff, ← h.hGuard_eq_iff hF hF']
  simp [and_comm]

/-- `llvm.dbg.value` of the first argument -/
def debugValueCall : Instruction 3 :=
  ⟨4, .void, .call [.metadata 0, .metadata 1, .metadata 2] (.constant (.debugIntrinsic .value))⟩

theorem compareThen_withDebugCalls :
    WithDebugCalls (compareThen []) (compareThen [debugValueCall]) where
  body b := by
    match b with
    | 0 => exact .keep _ .nil
    | 1 => exact .add debugValueCall rfl .nil
    | 2 => exact .nil
  terminator := by decide

theorem heuristicValues_debugCalls_iff_compareThen :
    heuristicValues (compareThen [debugValueCall])
          (standardAnalyses (compareThen []) fun _ _ => certain) 0 1 (some 2) =
        heuristicValues (compareThen []) (standardAnalyses (compareThen []) fun _ _ => certain) 0 1
          (some 2) ↔
      (¬ CallInvented (compareThen []) (compareThen [debugValueCall])
            (standardAnalyses (compareThen []) fun _ _ => certain) 0 1 ∧
          (containsCall (compareThen []) (standardAnalyses (compareThen []) fun _ _ => certain) 0 1 =
              true ∨
            ∀ s, some (2 : Fin 3) = some s → ¬ CallInvented (compareThen [])
              (compareThen [debugValueCall])
              (standardAnalyses (compareThen []) fun _ _ => certain) 0 s)) ∧
        ∀ s, some (2 : Fin 3) = some s → ¬ GuardInvented (compareThen [])
          (compareThen [debugValueCall])
          (standardAnalyses (compareThen []) fun _ _ => certain) 0 1 s :=
  heuristicValues_debugCalls_iff (standardAnalyses (compareThen []) fun _ _ => certain) 0 1 (some 2)
    compareThen_withDebugCalls (by decide) (by decide)

/-- The debug call turns the call column from "not applicable" to "not taken". -/
theorem compareThen_hCall_differs :
    WithDebugCalls (compareThen []) (compareThen [debugValueCall]) ∧
      (compareThen []).verified = true ∧ (compareThen [debugValueCall]).verified = true ∧
      (compareThen []).branchInst 0 =
        some (.conditional (.instruction 0 (.integer 1)) 1 2) ∧
      hCall (compareThen []) (standardAnalyses (compareThen []) fun _ _ => certain) 0 1 (some 2) =
        .notApplicable ∧
      hCall (compareThen [debugValueCall]) (standardAnalyses (compareThen []) fun _ _ => certain) 0 1
        (some 2) = .notTaken :=
  ⟨compareThen_withDebugCalls, by decide⟩

end CalcHeuristics

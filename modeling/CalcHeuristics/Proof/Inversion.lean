import CalcHeuristics.Proof.LoopColumns

/-!
# Inverting a branch

A comparison can be written either way round: with the inverse predicate and the successors exchanged
the program behaves the same. Three columns do not follow the inversion, since they only ever predict
one way. `hLoop` looks at the taken successor alone, `hPointer` at the operands whatever the
predicate, and `hOpcode` at predicates whose inverse it does not predict.
-/

namespace CalcHeuristics

def Predicate.inverse : Predicate → Predicate
  | eq => ne
  | ne => eq
  | ugt => ule
  | uge => ult
  | ult => uge
  | ule => ugt
  | sgt => sle
  | sge => slt
  | slt => sge
  | sle => sgt
  | fcmp code => fcmp (15 - code)

variable {n : Nat}

/-- In `F'` the branch of block `b` is the inverted one of `F`: it compares the same operands by the
inverse predicate and has the successors exchanged. The other blocks end as they did. -/
structure Inverted (F F' : Function n) (b : Fin n) (pred : Predicate) (lhs rhs : Value)
    (t f : Fin n) : Prop where
  compares : ∃ cond i, F.branchInst b = some (.conditional cond t f) ∧
    F.dynCastInstruction cond = some i ∧ i.op = .cmp pred lhs rhs
  comparesInverse : ∃ cond i, F'.branchInst b = some (.conditional cond f t) ∧
    F'.dynCastInstruction cond = some i ∧ i.op = .cmp pred.inverse lhs rhs
  terminators : ∀ c, c ≠ b → (F'.block c).terminator = (F.block c).terminator

/-- Equality with an integer constant, or a signed order of the other operand below a constant whose
lower 32 bits are zero. -/
def OpcodePredicts (pred : Predicate) (lhs rhs : Value) : Prop :=
  lhs.getType.isIntegerTy = true ∧ rhs.getType.isIntegerTy = true ∧ ∃ width value,
    (lhs = .constant (.int width value) ∧ rhs.isConstant = false ∧
        (2 ^ 32 ∣ value.toInt ∧ (pred = .sgt ∨ pred = .sge) ∨ pred = .eq)) ∨
      (rhs = .constant (.int width value) ∧ lhs.isConstant = false ∧
        (2 ^ 32 ∣ value.toInt ∧ (pred = .slt ∨ pred = .sle) ∨ pred = .eq))

/-! ### Values that lean one way -/

namespace Prediction

/-- The value is `p` where the rule holds, and no prediction elsewhere. -/
def Leans (v p : Prediction) (rule : Prop) : Prop :=
  (v = p ↔ rule) ∧ (v = .notApplicable ↔ ¬ rule)

section
variable {v v' p : Prediction} {rule rule' : Prop}

theorem leans_of_cases (hp : p ≠ .notApplicable) (hv : v = p ∨ v = .notApplicable)
    (h : v = p ↔ rule) : v.Leans p rule := by
  refine ⟨h, ?_⟩
  rw [← h]
  obtain rfl | rfl := hv
  · simp [hp]
  · simp [hp.symm]

theorem leans_ite [Decidable rule] (hp : p ≠ .notApplicable) :
    (if rule then p else .notApplicable : Prediction).Leans p rule := by
  apply leans_of_cases hp
  · exact (ite_eq_or_eq rule p _)
  · split <;> simp_all [Ne.symm hp]

/-- Values that lean the same way mirror each other when neither leans. -/
theorem Leans.mirror_iff (h : v.Leans p rule) (hp : p ≠ .notApplicable) (h' : v'.Leans p rule') :
    v'.value = 1 - v.value ↔ ¬ rule ∧ ¬ rule' := by
  rw [value_eq_one_sub_iff, ← h.1, ← h'.1]
  have hv : v = p ∨ v = .notApplicable := (em rule).imp h.1.2 h.2.2
  have hv' : v' = p ∨ v' = .notApplicable := (em rule').imp h'.1.2 h'.2.2
  cases p <;> cases v <;> cases v' <;> simp_all [mirror]

end

end Prediction

variable {F F' : Function n} {A : Analyses n} {b t f : Fin n} {pred : Predicate} {lhs rhs : Value}

/-! ### The loop column -/

theorem Inverted.successors (h : Inverted F F' b pred lhs rhs t f) (c : Fin n) :
    (F'.successors c).Perm (F.successors c) := by
  by_cases hc : c = b
  · obtain ⟨_, _, hb, _⟩ := h.compares
    obtain ⟨_, _, hb', _⟩ := h.comparesInverse
    rw [hc, F.successors_eq hb, F'.successors_eq hb']
    exact List.Perm.swap t f []
  · rw [Function.successors, BasicBlock.successors, h.terminators c hc]
    exact .refl _

theorem Inverted.isLegalToHoistInto_eq (h : Inverted F F' b pred lhs rhs t f) (c : Fin n) :
    (F'.block c).isLegalToHoistInto = (F.block c).isLegalToHoistInto := by
  by_cases hc : c = b
  · obtain ⟨_, _, hb, _⟩ := h.compares
    obtain ⟨_, _, hb', _⟩ := h.comparesInverse
    rw [hc, F.isLegalToHoistInto_of_branch hb, F'.isLegalToHoistInto_of_branch hb']
  · rw [BasicBlock.isLegalToHoistInto, h.terminators c hc, BasicBlock.isLegalToHoistInto]

theorem Inverted.isLoopTarget_iff (h : Inverted F F' b pred lhs rhs t f) (s : Fin n) :
    IsLoopTarget F' A b s ↔ IsLoopTarget F A b s := by
  simp only [IsLoopTarget, Loop.getLoopPreheader_congr h.successors h.isLegalToHoistInto_eq]

/-- The inversion leaves the flow graph alone, so the analyses of one function are those of the other. -/
theorem Inverted.flowGraph_eq (h : Inverted F F' b pred lhs rhs t f) :
    F'.flowGraph = F.flowGraph := by
  refine Flow.FlowGraph.ext ?_ rfl
  funext c s
  exact propext (h.successors c).mem_iff

/-! ### The columns of the condition -/

theorem conditionOperands_cmp {s s' : Fin n}
    (h : ∃ cond i, F.branchInst b = some (.conditional cond s s') ∧
      F.dynCastInstruction cond = some i ∧ i.op = .cmp pred lhs rhs) :
    ∃ i, i.op = .cmp pred lhs rhs ∧ conditionOperands F b = .ok (some (i, lhs, rhs)) := by
  obtain ⟨cond, i, hb, hi, hop⟩ := h
  refine ⟨i, hop, conditionOperands_eq_some_iff.2 ⟨cond, s, s', [], hb, hi, ?_⟩⟩
  rw [Instruction.operands, hop, Operation.operands]

theorem hPointer_cmp {s s' : Fin n}
    (h : ∃ cond i, F.branchInst b = some (.conditional cond s s') ∧
      F.dynCastInstruction cond = some i ∧ i.op = .cmp pred lhs rhs) :
    hPointer F b = .ok (if lhs.getType.isPointerTy && rhs.getType.isPointerTy then .notTaken
      else .notApplicable) := by
  obtain ⟨i, _, hops⟩ := conditionOperands_cmp h
  rw [hPointer_eq, hops]
  rfl

theorem hOpcode_cmp {s s' : Fin n}
    (h : ∃ cond i, F.branchInst b = some (.conditional cond s s') ∧
      F.dynCastInstruction cond = some i ∧ i.op = .cmp pred lhs rhs) :
    hOpcode F b = opcodePrediction getSExtValue pred (loneConstant lhs rhs) := by
  obtain ⟨i, hop, hops⟩ := conditionOperands_cmp h
  rw [hOpcode_eq, hops]
  simp only [Except.bind, hop]

theorem opcodeFires_inverse {constantLeft : Bool} {constVal : Int}
    (hfires : opcodeFires pred (countingOrders constantLeft).1 (countingOrders constantLeft).2
      constVal = true) :
    opcodeFires pred.inverse (countingOrders constantLeft).1 (countingOrders constantLeft).2
      constVal = false := by
  cases constantLeft <;> cases pred <;> simp_all [opcodeFires, countingOrders, Predicate.inverse]

theorem opcodePredicts_iff : OpcodePredicts pred lhs rhs ↔ ∃ width value strict weak,
    loneConstant lhs rhs = some (.constant (.int width value), strict, weak) ∧
      opcodeFires pred strict weak (toInt32 value.toInt) = true := by
  simp only [loneConstant_eq_some_iff, opcodeFires_toInt32_iff]
  refine ⟨fun h => ?_, fun h => ?_⟩
  · obtain ⟨hl, hr, width, value, ⟨rfl, hrhs, hfires⟩ | ⟨rfl, hlhs, hfires⟩⟩ := h
    · exact ⟨width, value, .sgt, .sge, ⟨hl, rfl, true, rhs, hr, hrhs, rfl, rfl⟩, hfires⟩
    · exact ⟨width, value, .slt, .sle, ⟨hr, rfl, false, lhs, hl, hlhs, rfl, rfl⟩, hfires⟩
  · obtain ⟨width, value, _, _, ⟨hc, _, constantLeft, x, hx, hxconst, hsides, horders⟩, hfires⟩ := h
    obtain ⟨rfl, rfl⟩ := Prod.mk.inj horders
    cases constantLeft with
    | true =>
        obtain ⟨rfl, rfl⟩ := Prod.mk.inj hsides
        exact ⟨hc, hx, width, value, Or.inl ⟨rfl, hxconst, hfires⟩⟩
    | false =>
        obtain ⟨rfl, rfl⟩ := Prod.mk.inj hsides
        exact ⟨hx, hc, width, value, Or.inr ⟨rfl, hxconst, hfires⟩⟩

theorem opcodePredicts_iff_of_lone {c : Value} {strict weak : Predicate}
    (hlone : loneConstant lhs rhs = some (c, strict, weak)) :
    OpcodePredicts pred lhs rhs ↔ ∃ width value, c = .constant (.int width value) ∧
      opcodeFires pred strict weak (toInt32 value.toInt) = true :=
  opcodePredicts_iff.trans (exists_loneConstant_iff hlone)

/-- A value comes only from an integer constant that fits. -/
theorem opcodePrediction_some {c : Value} {strict weak : Predicate} {v : Prediction}
    (h : opcodePrediction getSExtValue pred (some (c, strict, weak)) = .ok v) :
    ∃ width value, c = .constant (.int width value) ∧
      v = if opcodeFires pred strict weak (toInt32 value.toInt) then .notTaken
        else .notApplicable := by
  obtain ⟨width, value, _, rfl, _⟩ := opcodePrediction_ok_iff.1 ⟨v, h⟩ c _ rfl
  rw [opcodePrediction_int] at h
  split at h
  · exact ⟨width, value, rfl, (Except.ok.inj h).symm⟩
  · simp at h

/-- When `hOpcode` returns a value for a comparison, it is "not taken" for those it predicts. -/
theorem opcodePrediction_leans {v : Prediction}
    (h : opcodePrediction getSExtValue pred (loneConstant lhs rhs) = .ok v) :
    v.Leans .notTaken (OpcodePredicts pred lhs rhs) := by
  cases hlone : loneConstant lhs rhs with
  | none =>
      rw [hlone] at h
      obtain rfl := Except.ok.inj h
      simp [Prediction.Leans, opcodePredicts_iff, hlone]
  | some lone =>
      obtain ⟨c, strict, weak⟩ := lone
      rw [hlone] at h
      obtain ⟨width, value, rfl, rfl⟩ := opcodePrediction_some h
      rw [opcodePredicts_iff_of_lone hlone, exists_constant_int]
      exact Prediction.leans_ite (by decide)

/-- A comparison and its inverse go through or fail together. -/
theorem opcodePrediction_error_or (pred pred' : Predicate)
    (lone : Option (Value × Predicate × Predicate)) :
    (∃ fault, opcodePrediction getSExtValue pred lone = .error fault ∧
        opcodePrediction getSExtValue pred' lone = .error fault) ∨
      ∃ v v', opcodePrediction getSExtValue pred lone = .ok v ∧
        opcodePrediction getSExtValue pred' lone = .ok v' := by
  obtain _ | ⟨c, strict, weak⟩ := lone
  · exact Or.inr ⟨_, _, rfl, rfl⟩
  · simp only [opcodePrediction, bind, Except.bind]
    cases deref c.dynCastConstantInt with
    | error fault => exact Or.inl ⟨fault, rfl, rfl⟩
    | ok constant =>
        dsimp only
        cases getSExtValue constant with
        | error fault => exact Or.inl ⟨fault, rfl, rfl⟩
        | ok constVal => exact Or.inr ⟨_, _, rfl, rfl⟩

/-- No predicate is predicted together with its inverse. -/
theorem OpcodePredicts.not_inverse (h : OpcodePredicts pred lhs rhs) :
    ¬ OpcodePredicts pred.inverse lhs rhs := by
  obtain ⟨width, value, strict, weak, hlone, hfires⟩ := opcodePredicts_iff.1 h
  obtain ⟨_, _, constantLeft, _, _, _, _, horders⟩ := loneConstant_eq_some_iff.1 hlone
  obtain rfl : strict = (countingOrders constantLeft).1 := congrArg Prod.fst horders
  obtain rfl : weak = (countingOrders constantLeft).2 := congrArg Prod.snd horders
  rw [opcodePredicts_iff_of_lone hlone, exists_constant_int, opcodeFires_inverse hfires]
  exact Bool.false_ne_true

/-! ### The three columns -/

theorem Inverted.hLoop_leans (h : Inverted F F' b pred lhs rhs t f) :
    (hLoop F A b t).Leans .taken (IsLoopTarget F A b t) ∧
      (hLoop F' A b f).Leans .taken (IsLoopTarget F A b f) := by
  have hleans : ∀ (G : Function n) (s : Fin n), (hLoop G A b s).Leans .taken (IsLoopTarget G A b s) :=
    fun G s => Prediction.leans_of_cases (by decide) (hLoop_cases G A b s) hLoop_eq_taken_iff
  rw [← h.isLoopTarget_iff f]
  exact ⟨hleans F t, hleans F' f⟩

theorem Inverted.hPointer_leans (h : Inverted F F' b pred lhs rhs t f) :
    ∃ v, hPointer F b = .ok v ∧ hPointer F' b = .ok v ∧
      v.Leans .notTaken (lhs.getType.isPointerTy = true ∧ rhs.getType.isPointerTy = true) := by
  refine ⟨_, hPointer_cmp h.compares, hPointer_cmp h.comparesInverse, ?_⟩
  rw [← Bool.and_eq_true]
  exact Prediction.leans_ite (by decide)

theorem Inverted.hOpcode_leans (h : Inverted F F' b pred lhs rhs t f) :
    (∃ fault, hOpcode F b = .error fault ∧ hOpcode F' b = .error fault) ∨
      ∃ v v', hOpcode F b = .ok v ∧ hOpcode F' b = .ok v' ∧
        v.Leans .notTaken (OpcodePredicts pred lhs rhs) ∧
        v'.Leans .notTaken (OpcodePredicts pred.inverse lhs rhs) := by
  rw [hOpcode_cmp h.compares, hOpcode_cmp h.comparesInverse]
  rcases opcodePrediction_error_or pred pred.inverse (loneConstant lhs rhs) with
    hfault | ⟨v, v', hv, hv'⟩
  · exact Or.inl hfault
  · exact Or.inr ⟨v, v', hv, hv', opcodePrediction_leans hv, opcodePrediction_leans hv'⟩

/-- The three columns of a branch and of its inversion. Each leans one way only, where its rule holds, and
is `v` and then `1 - v` exactly when its rule holds neither way round. -/
theorem inverted_columns (h : Inverted F F' b pred lhs rhs t f) :
    ((hLoop F A b t).Leans .taken (IsLoopTarget F A b t) ∧
        (hLoop F' A b f).Leans .taken (IsLoopTarget F A b f) ∧
        ((hLoop F' A b f).value = 1 - (hLoop F A b t).value ↔
          ¬ IsLoopTarget F A b t ∧ ¬ IsLoopTarget F A b f)) ∧
      (∃ v, hPointer F b = .ok v ∧ hPointer F' b = .ok v ∧
        v.Leans .notTaken (lhs.getType.isPointerTy = true ∧ rhs.getType.isPointerTy = true) ∧
        (v.value = 1 - v.value ↔
          ¬ (lhs.getType.isPointerTy = true ∧ rhs.getType.isPointerTy = true))) ∧
      ((∃ fault, hOpcode F b = .error fault ∧ hOpcode F' b = .error fault) ∨
        ∃ v v', hOpcode F b = .ok v ∧ hOpcode F' b = .ok v' ∧
          v.Leans .notTaken (OpcodePredicts pred lhs rhs) ∧
          v'.Leans .notTaken (OpcodePredicts pred.inverse lhs rhs) ∧
          ¬ (OpcodePredicts pred lhs rhs ∧ OpcodePredicts pred.inverse lhs rhs) ∧
          (v'.value = 1 - v.value ↔
            ¬ OpcodePredicts pred lhs rhs ∧ ¬ OpcodePredicts pred.inverse lhs rhs)) := by
  obtain ⟨hloop, hloop'⟩ := h.hLoop_leans (A := A)
  obtain ⟨v, hv, hv', hpointer⟩ := h.hPointer_leans
  refine ⟨⟨hloop, hloop', hloop.mirror_iff (by decide) hloop'⟩, ⟨v, hv, hv', hpointer, ?_⟩, ?_⟩
  · exact (hpointer.mirror_iff (by decide) hpointer).trans and_self_iff
  · rcases h.hOpcode_leans with hfault | ⟨w, w', hw, hw', hopcode, hopcode'⟩
    · exact Or.inl hfault
    · exact Or.inr ⟨w, w', hw, hw', hopcode, hopcode', fun hboth => hboth.1.not_inverse hboth.2,
        hopcode.mirror_iff (by decide) hopcode'⟩

/-! ### Inverted branches -/

theorem loopOnConstant_inverted : Inverted (loopOnConstant .eq 1 3) (loopOnConstant .ne 3 1) 2 .eq
    (.argument 0 (.integer 32)) (.constant (.int 32 5)) 1 3 where
  compares := ⟨_, _, rfl, rfl, rfl⟩
  comparesInverse := ⟨_, _, rfl, rfl, rfl⟩
  terminators := by decide

/-- The loop and the opcode column make a prediction for one way round only, and the pointer column for
none. -/
theorem inverted_columns_loopOnConstant :
    (hLoop (loopOnConstant .eq 1 3) loopOnConstantAnalyses 2 1 = .taken ∧
        hLoop (loopOnConstant .ne 3 1) loopOnConstantAnalyses 2 3 = .notApplicable ∧
        (hLoop (loopOnConstant .ne 3 1) loopOnConstantAnalyses 2 3).value ≠
          1 - (hLoop (loopOnConstant .eq 1 3) loopOnConstantAnalyses 2 1).value) ∧
      (∃ v, hPointer (loopOnConstant .eq 1 3) 2 = .ok v ∧ hPointer (loopOnConstant .ne 3 1) 2 = .ok v ∧
        v = .notApplicable ∧ v.value = 1 - v.value) ∧
      ∃ v v', hOpcode (loopOnConstant .eq 1 3) 2 = .ok v ∧ hOpcode (loopOnConstant .ne 3 1) 2 = .ok v' ∧
        v = .notTaken ∧ v' = .notApplicable ∧ v'.value ≠ 1 - v.value := by
  have htarget : IsLoopTarget (loopOnConstant .eq 1 3) loopOnConstantAnalyses 2 1 :=
    hLoop_eq_taken_iff.1 (by decide +kernel)
  have hexit : ¬ IsLoopTarget (loopOnConstant .eq 1 3) loopOnConstantAnalyses 2 3 := fun h =>
    absurd (hLoop_eq_taken_iff.2 h) (by decide +kernel)
  have hequality : OpcodePredicts .eq (.argument 0 (.integer 32)) (.constant (.int 32 5)) :=
    ⟨rfl, rfl, 32, 5, Or.inr ⟨rfl, rfl, Or.inr rfl⟩⟩
  obtain ⟨⟨hloop, hloop', hmirror⟩, ⟨v, hv, hv', hpointer, hpointers⟩, hopcode⟩ :=
    inverted_columns (A := loopOnConstantAnalyses) loopOnConstant_inverted
  refine ⟨⟨hloop.1.2 htarget, hloop'.2.2 hexit, fun h => (hmirror.1 h).1 htarget⟩,
    ⟨v, hv, hv', hpointer.2.2 (by decide), hpointers.2 (by decide)⟩, ?_⟩
  obtain ⟨fault, hfault, _⟩ | ⟨w, w', hw, hw', hleans, hleans', hone, hmirror⟩ := hopcode
  · have hok : hOpcode (loopOnConstant .eq 1 3) 2 = .ok .notTaken := by decide
    simp [hok] at hfault
  · exact ⟨w, w', hw, hw', hleans.1.2 hequality, hleans'.2.2 fun h => hone ⟨hequality, h⟩,
      fun h => (hmirror.1 h).1 hequality⟩

theorem nullTest_inverted :
    Inverted (nullTest .eq 1 2) (nullTest .ne 2 1) 0 .eq (.argument 0 .pointer)
      (.constant .nullPointer) 1 2 where
  compares := ⟨_, _, rfl, rfl, rfl⟩
  comparesInverse := ⟨_, _, rfl, rfl, rfl⟩
  terminators := by decide

/-- Both ways round the branch on a null test is predicted "not taken". -/
theorem nullTest_not_mirrored :
    (nullTest .eq 1 2).verified = true ∧ (nullTest .ne 2 1).verified = true ∧
      Inverted (nullTest .eq 1 2) (nullTest .ne 2 1) 0 .eq (.argument 0 .pointer)
        (.constant .nullPointer) 1 2 ∧
      hPointer (nullTest .eq 1 2) 0 = .ok .notTaken ∧
      hPointer (nullTest .ne 2 1) 0 = .ok .notTaken ∧
      Prediction.notTaken.value ≠ 1 - Prediction.notTaken.value :=
  ⟨by decide, by decide, nullTest_inverted, by decide, by decide, by norm_num [Prediction.value]⟩

end CalcHeuristics

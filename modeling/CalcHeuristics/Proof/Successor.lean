import CalcHeuristics.Proof.Condition

/-!
# Heuristics that look at both successors

Four heuristics test each successor and predict from the first one that passes. Everything here follows
from the cases of `successorHeuristic`: exchanging the successors mirrors the prediction unless both
pass, since then the one in the first slot decides both times.
-/

namespace CalcHeuristics

section
variable {n : Nat} {applies : Fin n → Bool} {ofTaken ofNotTaken : Prediction} {t f : Fin n}

theorem successorHeuristic_of_applies (ht : applies t = true) (f : Option (Fin n)) :
    successorHeuristic applies ofTaken ofNotTaken t f = ofTaken := by
  simp [successorHeuristic, ht]

theorem successorHeuristic_some (ht : applies t = false) (f : Fin n) :
    successorHeuristic applies ofTaken ofNotTaken t (some f) =
      if applies f then ofNotTaken else .notApplicable := by
  simp [successorHeuristic, ht]

theorem successorHeuristic_none (ht : applies t = false) :
    successorHeuristic applies ofTaken ofNotTaken t none = .notApplicable := by
  simp [successorHeuristic, ht]

theorem applies_of_eq_ofTaken {f : Option (Fin n)} (hne : ofTaken ≠ ofNotTaken)
    (hpredicts : ofTaken ≠ .notApplicable)
    (h : successorHeuristic applies ofTaken ofNotTaken t f = ofTaken) : applies t = true := by
  by_contra ht
  rw [Bool.not_eq_true] at ht
  cases f with
  | none => exact hpredicts (h.symm.trans (successorHeuristic_none ht))
  | some f =>
      rw [successorHeuristic_some ht] at h
      split at h
      · exact hne h.symm
      · exact hpredicts h.symm

theorem applies_of_eq_ofNotTaken {f : Option (Fin n)} (hne : ofTaken ≠ ofNotTaken)
    (hpredicts : ofNotTaken ≠ .notApplicable)
    (h : successorHeuristic applies ofTaken ofNotTaken t f = ofNotTaken) :
    ∃ s, f = some s ∧ applies s = true := by
  cases ht : applies t with
  | true => exact absurd ((successorHeuristic_of_applies ht f).symm.trans h) hne
  | false =>
      cases f with
      | none => exact absurd ((successorHeuristic_none ht).symm.trans h).symm hpredicts
      | some f =>
          rw [successorHeuristic_some ht] at h
          split at h
          · rename_i hf
            exact ⟨f, rfl, hf⟩
          · exact absurd h.symm hpredicts

/-- Two tests lead to one prediction exactly when they agree on the successor that decides. -/
theorem successorHeuristic_eq_iff {applies' : Fin n → Bool} {f : Option (Fin n)}
    (hne : ofTaken ≠ ofNotTaken) (hofTaken : ofTaken ≠ .notApplicable)
    (hofNotTaken : ofNotTaken ≠ .notApplicable) :
    successorHeuristic applies' ofTaken ofNotTaken t f =
        successorHeuristic applies ofTaken ofNotTaken t f ↔
      applies' t = applies t ∧
        (applies t = true ∨ ∀ s, f = some s → applies' s = applies s) := by
  cases ht : applies t with
  | true =>
      rw [successorHeuristic_of_applies ht]
      refine ⟨fun h => ?_, fun h => ?_⟩
      · exact ⟨applies_of_eq_ofTaken hne hofTaken h, Or.inl rfl⟩
      · exact successorHeuristic_of_applies h.1 f
  | false =>
      cases ht' : applies' t with
      | true =>
          rw [successorHeuristic_of_applies ht']
          have hdiffer : ofTaken ≠ successorHeuristic applies ofTaken ofNotTaken t f := fun h =>
            absurd (applies_of_eq_ofTaken hne hofTaken h.symm) (by simp [ht])
          simp [hdiffer]
      | false =>
          cases f with
          | none => simp [successorHeuristic_none ht, successorHeuristic_none ht']
          | some s =>
              rw [successorHeuristic_some ht, successorHeuristic_some ht']
              cases hs : applies s <;> cases hs' : applies' s <;>
                simp [hs, hs', hofNotTaken, hofNotTaken.symm]

/-- Exchanging the successors mirrors the prediction exactly when the test does not hold of both. -/
theorem successorHeuristic_mirror_iff (hmirror : ofNotTaken = ofTaken.mirror)
    (hpredicts : ofTaken ≠ .notApplicable) (t f : Fin n) :
    (successorHeuristic applies ofTaken ofNotTaken f (some t)).value =
        1 - (successorHeuristic applies ofTaken ofNotTaken t (some f)).value ↔
      ¬ (applies t = true ∧ applies f = true) := by
  rw [Prediction.value_eq_one_sub_iff]
  cases ht : applies t <;> cases hf : applies f
  · simp [successorHeuristic_some ht, successorHeuristic_some hf, ht, hf, Prediction.mirror]
  · rw [successorHeuristic_of_applies hf, successorHeuristic_some ht, hf, if_pos rfl, hmirror]
    cases ofTaken <;> simp [Prediction.mirror]
  · rw [successorHeuristic_of_applies ht, successorHeuristic_some hf, ht, if_pos rfl, hmirror]
    simp
  · rw [successorHeuristic_of_applies ht, successorHeuristic_of_applies hf]
    cases ofTaken <;> simp_all [Prediction.mirror]

end

/-- A return can only be the terminator. -/
theorem containsReturn_eq {n : Nat} (F : Function n) (s : Fin n) :
    containsReturn F s = (F.block s).terminator.isRet := by
  have hbody : (F.block s).body.any Instruction.isRet = false := by
    rw [List.any_eq_false]
    intro i hi hret
    have hplain := (F.block s).body_plain i hi
    rw [Instruction.isRet] at hret
    split at hret
    · rename_i value hop
      simp [Instruction.isTerminator, hop, Operation.successors?] at hplain
    · simp at hret
  rw [containsReturn, BasicBlock.instructions, List.any_append, hbody]
  simp

/-- The heuristics of both successors are mirrored by exchanging the successors exactly when their test
does not hold of both. -/
theorem successor_heuristics_mirror_iff {n : Nat} (F : Function n) (A : Analyses n)
    (b t f : Fin n) :
    ((hLoopheader A b f (some t)).value = 1 - (hLoopheader A b t (some f)).value ↔
      ¬ (entersLoop A b t = true ∧ entersLoop A b f = true)) ∧
    ((hCall F A b f (some t)).value = 1 - (hCall F A b t (some f)).value ↔
      ¬ (containsCall F A b t = true ∧ containsCall F A b f = true)) ∧
    ((hStore F A b f (some t)).value = 1 - (hStore F A b t (some f)).value ↔
      ¬ (containsStore F A b t = true ∧ containsStore F A b f = true)) ∧
    ((hReturn F f (some t)).value = 1 - (hReturn F t (some f)).value ↔
      ¬ (containsReturn F t = true ∧ containsReturn F f = true)) := by
  exact ⟨successorHeuristic_mirror_iff rfl (by decide) t f,
    successorHeuristic_mirror_iff rfl (by decide) t f,
    successorHeuristic_mirror_iff rfl (by decide) t f,
    successorHeuristic_mirror_iff rfl (by decide) t f⟩

theorem callOnBothSides_not_mirrored :
    callOnBothSides.verified = true ∧
      callOnBothSides.branchInst 0 =
        some (.conditional (.instruction 0 (.integer 1)) 1 2) ∧
      ¬ (hCall callOnBothSides (standardAnalyses callOnBothSides fun _ _ => certain) 0 2
          (some 1)).value =
        1 - (hCall callOnBothSides (standardAnalyses callOnBothSides fun _ _ => certain) 0 1
          (some 2)).value := by
  refine ⟨by decide, by decide, ?_⟩
  rw [Prediction.value_eq_one_sub_iff]
  decide

end CalcHeuristics

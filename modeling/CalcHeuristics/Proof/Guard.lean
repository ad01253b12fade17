import CalcHeuristics.Proof.Condition
import CalcHeuristics.Scan.Until

/-!
# What the guard scans find

A scan follows two operands at once, with a flag each and one early exit. `guardScan_iff` takes them
apart: the scan succeeds exactly when one of the operands it tracks is used before it is defined, since
a flag only ever stops its own operand and the early exit only skips instructions nobody looks at any
more. The scan of the not-taken successor also tracks a first operand that is no load, for which
"a load of nothing" is any instruction that is not a load.
-/

namespace CalcHeuristics

variable {n : Nat} {opr opr1 opr2 : Option Value} {i : Instruction n} {l : List (Instruction n)}

/-! ### Use before definition -/

/-- The first instruction that loads `opr` or stores to it loads it. -/
def UsedFirst (opr : Option Value) (l : List (Instruction n)) : Prop :=
  ∃ pre i post, l = pre ++ i :: post ∧ checkLoad (some i) = opr ∧
    ∀ j ∈ pre, checkStore (some j) ≠ opr

/-- A load from `pointer` comes before every store to it. -/
def UsedBeforeDefined (pointer : Value) (l : List (Instruction n)) : Prop :=
  UsedFirst (some pointer) l

theorem usedFirst_iff_until : UsedFirst opr l ↔
    Scan.Until (fun j => checkStore (some j) ≠ opr) (fun i => checkLoad (some i) = opr) l := Iff.rfl

theorem usedFirst_cons :
    UsedFirst opr (i :: l) ↔
      checkLoad (some i) = opr ∨ checkStore (some i) ≠ opr ∧ UsedFirst opr l := Scan.until_cons

theorem checkStore_of_checkLoad (h : checkLoad (some i) ≠ none) : checkStore (some i) = none := by
  obtain ⟨id, ty, op⟩ := i
  cases op with
  | store value pointer => exact absurd rfl h
  | _ => rfl

/-- Nothing is used first when the list begins with an instruction that is not a load. -/
theorem usedFirst_none (hne : l ≠ []) :
    UsedFirst (none : Option Value) l ↔ checkLoad l.head? = none := by
  obtain ⟨i, l, rfl⟩ := List.exists_cons_of_ne_nil hne
  rw [usedFirst_cons, List.head?_cons]
  constructor
  · intro h
    obtain hload | ⟨hstore, _⟩ := h
    · exact hload
    · by_contra hload
      exact hstore (checkStore_of_checkLoad hload)
  · exact Or.inl

/-! ### The scans -/

theorem trackOperand_eq_none_iff {tracked d : Bool} :
    trackOperand tracked opr d i = none ↔
      (tracked = true ∧ d = false) ∧ checkLoad (some i) = opr := by
  cases tracked <;> cases d <;> simp [trackOperand]

/-- After a step that goes on, an operand is still followed exactly when it is and the instruction does
not define it. -/
theorem trackOperand_some {tracked d d' : Bool} (h : trackOperand tracked opr d i = some d') :
    ((tracked = true ∧ d = false) ∧ UsedFirst opr (i :: l)) ↔
      ((tracked = true ∧ d' = false) ∧ UsedFirst opr l) := by
  rw [usedFirst_cons]
  by_cases hfollowed : tracked = true ∧ d = false
  · obtain ⟨rfl, rfl⟩ := hfollowed
    have hload : checkLoad (some i) ≠ opr := fun hload => by
      rw [trackOperand_eq_none_iff.2 ⟨⟨rfl, rfl⟩, hload⟩] at h
      simp at h
    simp only [trackOperand, Bool.not_false, Bool.and_self, if_true, if_neg hload,
      Option.some.injEq] at h
    rw [← h]
    simp [hload]
  · rw [trackOperand, if_neg (by simpa [and_comm] using hfollowed)] at h
    rw [← Option.some.inj h]
    simp [hfollowed]

theorem guardScan_iff (tracked1 tracked2 : Bool) (opr1 opr2 : Option Value) (d1 d2 : Bool)
    (l : List (Instruction n)) :
    guardScan tracked1 tracked2 opr1 opr2 d1 d2 l = true ↔
      ((tracked1 = true ∧ d1 = false) ∧ UsedFirst opr1 l) ∨
        ((tracked2 = true ∧ d2 = false) ∧ UsedFirst opr2 l) := by
  induction l generalizing d1 d2 with
  | nil => simp [guardScan, UsedFirst]
  | cons i rest ih =>
      rw [guardScan]
      cases h1 : trackOperand tracked1 opr1 d1 i with
      | none =>
          obtain ⟨hfollowed, hload⟩ := trackOperand_eq_none_iff.1 h1
          simpa using Or.inl ⟨hfollowed, usedFirst_cons.2 (Or.inl hload)⟩
      | some def1 =>
          rw [trackOperand_some h1]
          cases h2 : trackOperand tracked2 opr2 d2 i with
          | none =>
              obtain ⟨hfollowed, hload⟩ := trackOperand_eq_none_iff.1 h2
              simpa using Or.inr ⟨hfollowed, usedFirst_cons.2 (Or.inl hload)⟩
          | some def2 =>
              rw [trackOperand_some h2]
              dsimp only
              split
              · rename_i hboth
                obtain ⟨rfl, rfl⟩ := Bool.and_eq_true_iff.1 hboth
                simp
              · exact ih def1 def2

theorem takenGuardScan_iff :
    takenGuardScan opr1 opr2 l = true ↔
      (∃ p, opr1 = some p ∧ UsedBeforeDefined p l) ∨
        ∃ p, opr2 = some p ∧ UsedBeforeDefined p l := by
  rw [takenGuardScan, guardScan_iff]
  cases opr1 <;> cases opr2 <;> simp [UsedBeforeDefined]

/-- The other scan also succeeds when there is no first operand and the block begins with something
other than a load. -/
theorem notTakenGuardScan_iff (hne : l ≠ []) :
    notTakenGuardScan opr1 opr2 l = true ↔
      takenGuardScan opr1 opr2 l = true ∨ opr1 = none ∧ checkLoad l.head? = none := by
  rw [notTakenGuardScan, takenGuardScan_iff, guardScan_iff]
  cases opr1 with
  | none =>
      rw [usedFirst_none hne, or_comm]
      cases opr2 <;> simp [UsedBeforeDefined]
  | some p => cases opr2 <;> simp [UsedBeforeDefined]

/-! ### What the heuristic finds -/

theorem checkLoad_eq_some_iff {p : Value} : checkLoad (some i) = some p ↔ i.op = .load p := by
  obtain ⟨id, ty, op⟩ := i
  cases op <;> simp [checkLoad]

theorem checkStore_eq_some_iff {p : Value} :
    checkStore (some i) = some p ↔ ∃ v, i.op = .store v p := by
  obtain ⟨id, ty, op⟩ := i
  cases op <;> simp [checkStore]

/-- The value is the result of a load from `p`. -/
def LoadedFrom (F : Function n) (v p : Value) : Prop :=
  ∃ j, F.dynCastInstruction v = some j ∧ j.op = .load p

theorem loadedFrom_iff {F : Function n} {v p : Value} :
    LoadedFrom F v p ↔ checkLoad (F.dynCastInstruction v) = some p := by
  rw [LoadedFrom]
  cases F.dynCastInstruction v with
  | none => simp [checkLoad]
  | some j => simp [checkLoad_eq_some_iff]

/-- At some position `p` is loaded, and at no earlier one stored to. -/
theorem usedBeforeDefined_iff_getElem? {p : Value} :
    UsedBeforeDefined p l ↔ ∃ (k : Nat) (j : Instruction n), l[k]? = some j ∧ j.op = .load p ∧
      ∀ k' < k, ∀ j', l[k']? = some j' → ∀ v, j'.op ≠ .store v p := by
  rw [UsedBeforeDefined, usedFirst_iff_until, Scan.until_iff_getElem?]
  simp only [checkLoad_eq_some_iff, ne_eq, checkStore_eq_some_iff, not_exists]

section
variable {F : Function n} {A : Analyses n} {b s t : Fin n} {i : Instruction n} {v0 v1 : Value}

theorem hGuard_of_operands (hops : conditionOperands F b = .ok (some (i, v0, v1)))
    (f : Option (Fin n)) :
    hGuard F A b t f = .ok (guardPrediction F A b t f (checkLoad (F.dynCastInstruction v0))
      (checkLoad (F.dynCastInstruction v1))) := by
  rw [hGuard_eq, hops]
  rfl

theorem guardPrediction_eq_taken_iff {f : Option (Fin n)} :
    guardPrediction F A b t f opr1 opr2 = .taken ↔
      A.postDominates t b = false ∧ takenGuardScan opr1 opr2 (F.block t).instructions = true := by
  unfold guardPrediction
  split
  · simp_all
  · cases f with
    | none => simp_all
    | some s =>
        dsimp only
        split <;> simp_all

/-- The heuristic predicts "taken" exactly when the taken successor does not post-dominate and loads, at
some position before every store to it, a pointer that an operand of the condition was loaded from. -/
theorem hGuard_eq_taken_iff {cond : Value} {s' s'' : Fin n} {rest : List Value}
    (hb : F.branchInst b = some (.conditional cond s' s''))
    (hi : F.dynCastInstruction cond = some i) (hops : i.operands = v0 :: v1 :: rest)
    (t : Fin n) (f : Option (Fin n)) :
    hGuard F A b t f = .ok .taken ↔
      A.postDominates t b = false ∧ ∃ p, (LoadedFrom F v0 p ∨ LoadedFrom F v1 p) ∧
        ∃ (k : Nat) (j : Instruction n), (F.block t).instructions[k]? = some j ∧ j.op = .load p ∧
          ∀ k' < k, ∀ j', (F.block t).instructions[k']? = some j' → ∀ v, j'.op ≠ .store v p := by
  have hcond : conditionOperands F b = .ok (some (i, v0, v1)) :=
    conditionOperands_eq_some_iff.2 ⟨cond, s', s'', rest, hb, hi, hops⟩
  rw [hGuard_of_operands hcond, Except.ok.injEq, guardPrediction_eq_taken_iff, takenGuardScan_iff]
  simp only [← loadedFrom_iff, usedBeforeDefined_iff_getElem?, or_and_right, exists_or]

end

theorem hGuard_eq_taken_iff_reloads :
    hGuard reloads (standardAnalyses reloads fun _ _ => certain) 0 1 (some 2) = .ok .taken ∧
      ∃ p, (LoadedFrom reloads (.instruction 0 (.integer 32)) p ∨
          LoadedFrom reloads (.argument 1 (.integer 32)) p) ∧
        ∃ (k : Nat) (j : Instruction 3), (reloads.block 1).instructions[k]? = some j ∧
          j.op = .load p ∧ ∀ k' < k, ∀ j', (reloads.block 1).instructions[k']? = some j' →
            ∀ v, j'.op ≠ .store v p := by
  have htaken : hGuard reloads (standardAnalyses reloads fun _ _ => certain) 0 1 (some 2) =
      .ok .taken := by decide
  exact ⟨htaken, ((hGuard_eq_taken_iff (show reloads.branchInst 0 =
    some (.conditional (.instruction 1 (.integer 1)) 1 2) by decide) rfl rfl 1 (some 2)).1 htaken).2⟩

/-! ### The two copies of the scan -/

section
variable {F : Function n} {A : Analyses n} {b s t : Fin n} {i : Instruction n} {v0 v1 : Value}

theorem instructions_ne_nil (bb : BasicBlock n) : bb.instructions ≠ [] := by
  simp [BasicBlock.instructions]

/-- Where the scan of the taken successor finds nothing, the other copy reports a guard on a block
exactly when the first copy would, unless there is no load behind the first operand, none at the start
of the block, and no use of the second operand either. -/
theorem guard_scans_agree_iff {cond : Value} {s' s'' : Fin n} {rest : List Value}
    (hb : F.branchInst b = some (.conditional cond s' s''))
    (hi : F.dynCastInstruction cond = some i) (hops : i.operands = v0 :: v1 :: rest)
    (hs : A.postDominates s b = false) (ht : hGuard F A b t none = .ok .notApplicable) :
    (hGuard F A b t (some s) = .ok .notTaken ↔ hGuard F A b s none = .ok .taken) ↔
      (∃ p, checkLoad (F.dynCastInstruction v0) = some p) ∨
        (∃ p, checkLoad (F.block s).instructions.head? = some p) ∨
          ∃ p, checkLoad (F.dynCastInstruction v1) = some p ∧
            UsedBeforeDefined p (F.block s).instructions := by
  have hcond : conditionOperands F b = .ok (some (i, v0, v1)) :=
    conditionOperands_eq_some_iff.2 ⟨cond, s', s'', rest, hb, hi, hops⟩
  rw [hGuard_of_operands hcond, Except.ok.injEq] at ht
  rw [hGuard_of_operands hcond, hGuard_of_operands hcond, Except.ok.injEq, Except.ok.injEq,
    guardPrediction_eq_taken_iff]
  have hnone : ¬ (!A.postDominates t b && takenGuardScan (checkLoad (F.dynCastInstruction v0))
      (checkLoad (F.dynCastInstruction v1)) (F.block t).instructions) = true := by
    intro hscan
    rw [guardPrediction, if_pos hscan] at ht
    simp at ht
  have hother : guardPrediction F A b t (some s) (checkLoad (F.dynCastInstruction v0))
      (checkLoad (F.dynCastInstruction v1)) = .notTaken ↔
        notTakenGuardScan (checkLoad (F.dynCastInstruction v0))
          (checkLoad (F.dynCastInstruction v1)) (F.block s).instructions = true := by
    rw [guardPrediction, if_neg hnone]
    split <;> simp_all
  rw [hother, notTakenGuardScan_iff (instructions_ne_nil _), takenGuardScan_iff]
  cases checkLoad (F.dynCastInstruction v0) with
  | some p => simp [hs]
  | none =>
      cases checkLoad (F.block s).instructions.head? with
      | some p => simp [hs]
      | none => simp [hs]

end

theorem guard_scans_agree_iff_compareArguments :
    (hGuard compareArguments (standardAnalyses compareArguments fun _ _ => certain) 0 1 (some 2) =
          .ok .notTaken ↔
        hGuard compareArguments (standardAnalyses compareArguments fun _ _ => certain) 0 2 none =
          .ok .taken) ↔
      (∃ p, checkLoad (compareArguments.dynCastInstruction (.argument 0 (.integer 32))) = some p) ∨
        (∃ p, checkLoad (compareArguments.block 2).instructions.head? = some p) ∨
          ∃ p, checkLoad (compareArguments.dynCastInstruction (.argument 1 (.integer 32))) = some p ∧
            UsedBeforeDefined p (compareArguments.block 2).instructions :=
  guard_scans_agree_iff (show compareArguments.branchInst 0 =
    some (.conditional (.instruction 0 (.integer 1)) 1 2) by decide) rfl rfl (by decide) (by decide)

/-- No operand is a load, and still the second successor is taken for guarded. -/
theorem compareArguments_scans_differ :
    compareArguments.verified = true ∧
      compareArguments.branchInst 0 = some (.conditional (.instruction 0 (.integer 1)) 1 2) ∧
      (standardAnalyses compareArguments fun _ _ => certain).postDominates 2 0 = false ∧
      hGuard compareArguments (standardAnalyses compareArguments fun _ _ => certain) 0 1 none =
        .ok .notApplicable ∧
      hGuard compareArguments (standardAnalyses compareArguments fun _ _ => certain) 0 1 (some 2) =
        .ok .notTaken ∧
      hGuard compareArguments (standardAnalyses compareArguments fun _ _ => certain) 0 2 none =
        .ok .notApplicable := by
  decide

end CalcHeuristics

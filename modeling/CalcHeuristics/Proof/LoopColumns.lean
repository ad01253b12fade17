import CalcHeuristics.Proof.Successor

/-!
# The two loop columns

`hLoop` asks whether the taken successor is where the innermost loop around the branch starts, and
`hLoopheader` whether a successor that does not post-dominate is a loop header. On a function whose
loops are all canonical the first question is whether the branch closes a loop by being taken: the
header and the preheader of a loop both dominate it. The second one singles out back edges too: the
preheader of a loop can only go to its header, which therefore post-dominates it, and no other edge
enters the loop. So that column predicts that the loop goes on, and never that it is entered, although
the rule it is written for speaks of preheaders.
-/

namespace CalcHeuristics

variable {n : Nat} {F : Function n} {A : Analyses n} {b s : Fin n}

/-! ### Small loops -/

/-- A loop of a header and a latch that can leave it. -/
def doWhile : Function 4 where
  block := ![
    { body := [], terminator := ⟨0, .void, .br (.unconditional 1)⟩ },
    { body := [], terminator := ⟨1, .void, .br (.unconditional 2)⟩ },
    { body := [⟨2, .integer 1, .cmp .slt (.argument 0 (.integer 32)) (.argument 1 (.integer 32))⟩]
      terminator := ⟨3, .void, .br (.conditional (.instruction 2 (.integer 1)) 1 3)⟩ },
    { body := [], terminator := ⟨4, .void, .ret none⟩ }]

/-- The same loop, left when the comparison holds. -/
def doUntil : Function 4 where
  block := ![
    { body := [], terminator := ⟨0, .void, .br (.unconditional 1)⟩ },
    { body := [], terminator := ⟨1, .void, .br (.unconditional 2)⟩ },
    { body := [⟨2, .integer 1, .cmp .slt (.argument 0 (.integer 32)) (.argument 1 (.integer 32))⟩]
      terminator := ⟨3, .void, .br (.conditional (.instruction 2 (.integer 1)) 3 1)⟩ },
    { body := [], terminator := ⟨4, .void, .ret none⟩ }]

/-- A loop that is left, or gone on with, when an argument has a certain value. -/
def loopOnConstant (pred : Predicate) (t f : Fin 4) : Function 4 where
  block := ![
    { body := [], terminator := ⟨0, .void, .br (.unconditional 1)⟩ },
    { body := [], terminator := ⟨1, .void, .br (.unconditional 2)⟩ },
    { body := [⟨2, .integer 1, .cmp pred (.argument 0 (.integer 32)) (.constant (.int 32 5))⟩]
      terminator := ⟨3, .void, .br (.conditional (.instruction 2 (.integer 1)) t f)⟩
      body_plain := by simp [Instruction.isTerminator, Operation.successors?]
      terminates := rfl },
    { body := [], terminator := ⟨4, .void, .ret none⟩ }]

def loopOnConstantAnalyses : Analyses 4 :=
  standardAnalyses (loopOnConstant .eq 1 3) fun _ _ => certain

/-- A loop of one block behind a test whether to enter it, with a preheader and an exit of its own. -/
def guardedLoop : Function 5 where
  block := ![
    { body := [⟨0, .integer 1, .cmp .slt (.argument 0 (.integer 32)) (.argument 1 (.integer 32))⟩]
      terminator := ⟨1, .void, .br (.conditional (.instruction 0 (.integer 1)) 1 4)⟩ },
    { body := [], terminator := ⟨2, .void, .br (.unconditional 2)⟩ },
    { body := [⟨3, .integer 1, .cmp .slt (.argument 0 (.integer 32)) (.argument 1 (.integer 32))⟩]
      terminator := ⟨4, .void, .br (.conditional (.instruction 3 (.integer 1)) 2 3)⟩ },
    { body := [], terminator := ⟨5, .void, .br (.unconditional 4)⟩ },
    { body := [], terminator := ⟨6, .void, .ret none⟩ }]

/-- A loop whose header jumps to the header of a loop inside it, which is left to return or to start the
outer loop again. -/
def loopInLoop : Function 5 where
  block := ![
    { body := [], terminator := ⟨0, .void, .br (.unconditional 1)⟩ },
    { body := [], terminator := ⟨1, .void, .br (.unconditional 2)⟩ },
    { body := [⟨2, .integer 1, .cmp .slt (.argument 0 (.integer 32)) (.argument 1 (.integer 32))⟩]
      terminator := ⟨3, .void, .br (.conditional (.instruction 2 (.integer 1)) 1 3)⟩ },
    { body := [⟨4, .integer 1, .cmp .eq (.argument 0 (.integer 32)) (.argument 1 (.integer 32))⟩]
      terminator := ⟨5, .void, .br (.conditional (.instruction 4 (.integer 1)) 2 4)⟩ },
    { body := [], terminator := ⟨6, .void, .ret none⟩ }]

/-! ### The loop heuristic -/

/-- `s` is where the innermost loop around `b` starts: its header or preheader. -/
def IsLoopTarget (F : Function n) (A : Analyses n) (b s : Fin n) : Prop :=
  ∃ L, A.loopInfo.getLoopFor b = some L ∧ (L.header = s ∨ L.getLoopPreheader F = some s)

theorem hLoop_eq_taken_iff : hLoop F A b s = .taken ↔ IsLoopTarget F A b s := by
  rw [hLoop, IsLoopTarget]
  cases A.loopInfo.getLoopFor b with
  | none => simp
  | some L =>
      simp only [Option.some.injEq, exists_eq_left']
      split <;> simp_all

theorem hLoop_cases (F : Function n) (A : Analyses n) (b s : Fin n) :
    hLoop F A b s = .taken ∨ hLoop F A b s = .notApplicable := by
  rw [hLoop]
  split
  · split <;> simp
  · simp

theorem entersLoop_iff (hli : A.loopInfo.Standard F) (hA : A.PostDominanceStandard F) :
    entersLoop A b s = true ↔ F.flowGraph.IsHeader s ∧ ¬ F.flowGraph.PostDominates s b := by
  rw [entersLoop, Bool.and_eq_true, Bool.not_eq_true', ← Bool.not_eq_true, hA s b,
    hli.isLoopHeader_iff, and_comm]

/-- A back edge of canonical loops is recognised by the loop heuristic. -/
theorem hLoop_of_backEdge (hli : A.loopInfo.Standard F)
    (hall : ∀ h, F.flowGraph.IsHeader h → F.flowGraph.Simplified h)
    (hb : F.flowGraph.BackEdge b s) : hLoop F A b s = .taken := by
  obtain ⟨L, hL, hheader⟩ := hli.header_eq (hb.innermost hall)
  exact hLoop_eq_taken_iff.2 ⟨L, hL, Or.inl hheader⟩

/-- Where the innermost loop around a block starts dominates the block. -/
theorem IsLoopTarget.dominates (hli : A.loopInfo.Standard F)
    (hentry : ∀ u, ¬ F.flowGraph.edge u F.flowGraph.entry) (h : IsLoopTarget F A b s) :
    F.flowGraph.Dominates s b := by
  obtain ⟨L, hL, htarget⟩ := h
  have hb : F.flowGraph.InLoop L.header b := (hli.innermost b L hL).1
  obtain rfl | hpreheader := htarget
  · exact hb.dominates
  · apply hb.dominates_of_only_entering hentry
    intro q hedge hout
    rw [← hli.mem_blocks b L hL] at hout
    exact L.eq_of_getLoopPredecessor (Loop.getLoopPredecessor_of_preheader hpreheader) hedge hout

/-- On canonical loops the loop heuristic predicts "taken" exactly along back edges: the first successor
of a reachable branch dominates it. -/
theorem hLoop_backEdge {br : BranchInst n} (hF : F.verified = true) (hli : A.loopInfo.Standard F)
    (hall : ∀ h, F.flowGraph.IsHeader h → F.flowGraph.Simplified h)
    (hbr : F.branchInst b = some br) (hreach : F.flowGraph.Reachable b) :
    (F.flowGraph.Dominates br.takenSuccessor b → hLoop F A b br.takenSuccessor = .taken) ∧
      (¬ F.flowGraph.Dominates br.takenSuccessor b →
        hLoop F A b br.takenSuccessor = .notApplicable) := by
  have hedge : F.flowGraph.edge b br.takenSuccessor :=
    (F.successors_eq hbr ▸ br.takenSuccessor_mem : br.takenSuccessor ∈ F.successors b)
  refine ⟨fun hdom => ?_, fun hnot => ?_⟩
  · exact hLoop_of_backEdge hli hall ⟨hedge, hreach, hdom⟩
  · refine (hLoop_cases F A b br.takenSuccessor).resolve_left fun htaken => hnot ?_
    exact (hLoop_eq_taken_iff.1 htaken).dominates hli (F.entry_not_mem_of_verified hF)

theorem isLatch_of_entersLoop (hli : A.loopInfo.Standard F) (hA : A.PostDominanceStandard F)
    (hall : ∀ h, F.flowGraph.IsHeader h → F.flowGraph.Simplified h)
    (hedge : F.flowGraph.edge b s) (henters : entersLoop A b s = true) :
    F.flowGraph.IsLatch b s := by
  obtain ⟨hheader, hnot⟩ := (entersLoop_iff hli hA).1 henters
  have hb := (hall s hheader).backEdge hedge hnot
  exact ⟨hb, fun l hl => (hall s hheader).latch_eq hl hb⟩

/-- On canonical loops the loop-header heuristic predicts a successor only along a back edge, from the
latch of a loop to its header; the loop heuristic then agrees if that successor is the taken one. -/
theorem hLoopheader_isLatch {br : BranchInst n} (hli : A.loopInfo.Standard F)
    (hA : A.PostDominanceStandard F)
    (hall : ∀ h, F.flowGraph.IsHeader h → F.flowGraph.Simplified h)
    (hbr : F.branchInst b = some br) :
    (hLoopheader A b br.takenSuccessor br.notTakenSuccessor = .taken →
        F.flowGraph.IsLatch b br.takenSuccessor ∧ F.flowGraph.InLoop br.takenSuccessor b ∧
          hLoop F A b br.takenSuccessor = .taken) ∧
      (hLoopheader A b br.takenSuccessor br.notTakenSuccessor = .notTaken →
        ∃ s, br.notTakenSuccessor = some s ∧ F.flowGraph.IsLatch b s ∧
          F.flowGraph.InLoop s b) := by
  have hedge : ∀ s ∈ br.successors, F.flowGraph.edge b s := fun s hs =>
    (F.successors_eq hbr ▸ hs : s ∈ F.successors b)
  refine ⟨fun htaken => ?_, fun hnotTaken => ?_⟩
  · have hlatch : F.flowGraph.IsLatch b br.takenSuccessor :=
      isLatch_of_entersLoop hli hA hall (hedge _ br.takenSuccessor_mem)
        (applies_of_eq_ofTaken (by decide) (by decide) htaken)
    exact ⟨hlatch, hlatch.backEdge.inLoop, hLoop_of_backEdge hli hall hlatch.backEdge⟩
  · obtain ⟨s, hs, henters⟩ := applies_of_eq_ofNotTaken (by decide) (by decide) hnotTaken
    have hlatch : F.flowGraph.IsLatch b s :=
      isLatch_of_entersLoop hli hA hall (hedge _ (br.notTakenSuccessor_mem hs)) henters
    exact ⟨s, hs, hlatch, hlatch.backEdge.inLoop⟩

theorem hLoop_backEdge_doWhile :
    hLoop doWhile (standardAnalyses doWhile fun _ _ => certain) 2 1 = .taken :=
  (hLoop_backEdge (by decide +kernel) (naturalLoops_standard doWhile) (by decide +kernel)
    (show doWhile.branchInst 2 = some (.conditional (.instruction 2 (.integer 1)) 1 3) by decide)
    (by decide +kernel)).1 (by decide +kernel)

/-- The latch goes on with its loop by either successor. -/
theorem hLoopheader_isLatch_doWhile :
    (hLoopheader (standardAnalyses doWhile fun _ _ => certain) 2 1 (some 3) = .taken ∧
        doWhile.flowGraph.IsLatch 2 1 ∧ doWhile.flowGraph.InLoop 1 2 ∧
        hLoop doWhile (standardAnalyses doWhile fun _ _ => certain) 2 1 = .taken) ∧
      hLoopheader (standardAnalyses doUntil fun _ _ => certain) 2 3 (some 1) = .notTaken ∧
        ∃ s, some 1 = some s ∧ doUntil.flowGraph.IsLatch 2 s ∧ doUntil.flowGraph.InLoop s 2 := by
  have htaken : hLoopheader (standardAnalyses doWhile fun _ _ => certain) 2 1 (some 3) = .taken := by
    decide +kernel
  have hnotTaken :
      hLoopheader (standardAnalyses doUntil fun _ _ => certain) 2 3 (some 1) = .notTaken := by
    decide +kernel
  refine ⟨⟨htaken, ?_⟩, hnotTaken, ?_⟩
  · exact (hLoopheader_isLatch (naturalLoops_standard doWhile)
      (standardAnalyses_postDominance doWhile fun _ _ => certain) (by decide +kernel)
      (show doWhile.branchInst 2 = some (.conditional (.instruction 2 (.integer 1)) 1 3) by
        decide)).1 htaken
  · exact (hLoopheader_isLatch (naturalLoops_standard doUntil)
      (standardAnalyses_postDominance doUntil fun _ _ => certain) (by decide +kernel)
      (show doUntil.branchInst 2 = some (.conditional (.instruction 2 (.integer 1)) 3 1) by
        decide)).2 hnotTaken

/-! ### The documented rule -/

/-- What the rule asks of a successor: it is the header or the preheader of some loop and does not
post-dominate, as the analysis has it. -/
def LeadsIntoLoop (F : Function n) (A : Analyses n) (b s : Fin n) : Prop :=
  (F.flowGraph.IsHeader s ∨ ∃ h, F.flowGraph.IsHeader h ∧ F.flowGraph.IsPreheader s h) ∧
    A.postDominates s b = false

instance (F : Function n) (A : Analyses n) (b s : Fin n) : Decidable (LeadsIntoLoop F A b s) :=
  inferInstanceAs (Decidable ((F.flowGraph.IsHeader s ∨
    ∃ h, F.flowGraph.IsHeader h ∧ F.flowGraph.IsPreheader s h) ∧ A.postDominates s b = false))

theorem entersLoop_iff_leadsIntoLoop (hli : A.loopInfo.Standard F) :
    entersLoop A b s = true ↔ LeadsIntoLoop F A b s ∧ F.flowGraph.IsHeader s := by
  rw [entersLoop, Bool.and_eq_true, Bool.not_eq_true', hli.isLoopHeader_iff, LeadsIntoLoop]
  refine ⟨fun h => ⟨⟨Or.inl h.2, h.1⟩, h.2⟩, fun h => ⟨h.1.2, h.2⟩⟩

/-- The loop-header heuristic follows the rule exactly when no successor that alone leads into a loop
does so as a preheader only. -/
theorem hLoopheader_documented_iff (hli : A.loopInfo.Standard F) (b t f : Fin n) :
    ((LeadsIntoLoop F A b t ∧ ¬ LeadsIntoLoop F A b f → hLoopheader A b t (some f) = .taken) ∧
        (LeadsIntoLoop F A b f ∧ ¬ LeadsIntoLoop F A b t → hLoopheader A b t (some f) = .notTaken) ∧
        (¬ LeadsIntoLoop F A b t ∧ ¬ LeadsIntoLoop F A b f →
          hLoopheader A b t (some f) = .notApplicable)) ↔
      ¬ (LeadsIntoLoop F A b t ∧ ¬ LeadsIntoLoop F A b f ∧ ¬ F.flowGraph.IsHeader t) ∧
        ¬ (LeadsIntoLoop F A b f ∧ ¬ LeadsIntoLoop F A b t ∧ ¬ F.flowGraph.IsHeader f) := by
  have ht := entersLoop_iff_leadsIntoLoop (b := b) (s := t) hli
  have hf := entersLoop_iff_leadsIntoLoop (b := b) (s := f) hli
  rw [hLoopheader]
  cases henters : entersLoop A b t with
  | true =>
      obtain ⟨hleads, hheader⟩ := ht.1 henters
      simp [successorHeuristic_of_applies henters, hleads, hheader]
  | false =>
      rw [successorHeuristic_some henters]
      cases henters' : entersLoop A b f with
      | true =>
          obtain ⟨hleads, hheader⟩ := hf.1 henters'
          simp [hleads, hheader]
      | false =>
          have hnot : LeadsIntoLoop F A b t → ¬ F.flowGraph.IsHeader t := fun hleads hheader => by
            simp [ht.2 ⟨hleads, hheader⟩] at henters
          have hnot' : LeadsIntoLoop F A b f → ¬ F.flowGraph.IsHeader f := fun hleads hheader => by
            simp [hf.2 ⟨hleads, hheader⟩] at henters'
          by_cases hleads : LeadsIntoLoop F A b t <;> by_cases hleads' : LeadsIntoLoop F A b f <;>
            simp [hleads, hleads', hnot, hnot']

def guardedLoopAnalyses : Analyses 5 := standardAnalyses guardedLoop fun _ _ => certain

theorem hLoopheader_documented_iff_guardedLoop :
    ¬ ((LeadsIntoLoop guardedLoop guardedLoopAnalyses 0 1 ∧
            ¬ LeadsIntoLoop guardedLoop guardedLoopAnalyses 0 4 →
          hLoopheader guardedLoopAnalyses 0 1 (some 4) = .taken) ∧
        (LeadsIntoLoop guardedLoop guardedLoopAnalyses 0 4 ∧
            ¬ LeadsIntoLoop guardedLoop guardedLoopAnalyses 0 1 →
          hLoopheader guardedLoopAnalyses 0 1 (some 4) = .notTaken) ∧
        (¬ LeadsIntoLoop guardedLoop guardedLoopAnalyses 0 1 ∧
            ¬ LeadsIntoLoop guardedLoop guardedLoopAnalyses 0 4 →
          hLoopheader guardedLoopAnalyses 0 1 (some 4) = .notApplicable)) := by
  have hli : guardedLoopAnalyses.loopInfo.Standard guardedLoop := naturalLoops_standard guardedLoop
  rw [hLoopheader_documented_iff hli]
  decide +kernel

/-- The branch that decides whether to enter the loop goes to its preheader, which the heuristic does not
look for. -/
theorem guardedLoop_not_predicted :
    guardedLoop.verified = true ∧
      (∀ h, guardedLoop.flowGraph.IsHeader h → guardedLoop.flowGraph.Simplified h) ∧
      guardedLoop.branchInst 0 = some (.conditional (.instruction 0 (.integer 1)) 1 4) ∧
      LeadsIntoLoop guardedLoop guardedLoopAnalyses 0 1 ∧
      ¬ LeadsIntoLoop guardedLoop guardedLoopAnalyses 0 4 ∧
      hLoopheader guardedLoopAnalyses 0 1 (some 4) = .notApplicable := by
  decide +kernel

end CalcHeuristics

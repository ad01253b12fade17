import CalcHeuristics.Ir
import CalcHeuristics.Flow.Search
import Mathlib.Algebra.Group.Nat.Defs

/-!
# The analyses the pass asks for

The results of LLVM's loop, post-dominance and branch-probability analyses, as the pass queries them,
and what it means for them to be the standard ones of the flow graph. The queries that LLVM answers
from a loop and the graph, such as the preheader of a loop, are computed as LLVM computes them. Every
function has standard analyses: `standardAnalyses` computes them from the graph.
-/

namespace CalcHeuristics

structure Loop (n : Nat) where
  header : Fin n
  blocks : List (Fin n)

structure LoopInfo (n : Nat) where
  /-- The innermost loop around a block. -/
  getLoopFor : Fin n → Option (Loop n)

def LoopInfo.isLoopHeader {n : Nat} (li : LoopInfo n) (b : Fin n) : Bool :=
  match li.getLoopFor b with
  | some loop => loop.header = b
  | none => false

/-- A probability in units of `1 / 2 ^ 31`. -/
structure BranchProbability where
  numerator : Nat
  numerator_le : numerator ≤ 2 ^ 31

def BranchProbability.denominator : Nat := 2 ^ 31

structure Analyses (n : Nat) where
  loopInfo : LoopInfo n
  /-- `PDT->dominates(a, b)`: `a` post-dominates `b`. -/
  postDominates : Fin n → Fin n → Bool
  /-- The probability of leaving a block through its successor of a given index. -/
  getEdgeProbability : Fin n → Nat → BranchProbability

namespace Loop

variable {n : Nat} (F : Function n) (loop : Loop n)

def contains (b : Fin n) : Bool := loop.blocks.contains b

/-- The only block outside the loop with an edge to its header. -/
def getLoopPredecessor : Option (Fin n) :=
  match (F.predecessors loop.header).filter (!loop.contains ·) with
  | [out] => some out
  | _ => none

/-- The loop's predecessor, if instructions may be hoisted into it and entering the loop is all it can
do. -/
def getLoopPreheader : Option (Fin n) :=
  match loop.getLoopPredecessor F with
  | some out =>
    if !(F.block out).isLegalToHoistInto then none
    else if (F.successors out).length = 1 then some out else none
  | none => none

variable {F loop}

/-- A block outside the loop with an edge to the header is the loop's predecessor, if it has one. -/
theorem eq_of_getLoopPredecessor {s q : Fin n} (h : loop.getLoopPredecessor F = some s)
    (hedge : F.flowGraph.edge q loop.header) (hout : q ∉ loop.blocks) : q = s := by
  have hsucc : loop.header ∈ F.successors q := hedge
  have hq : q ∈ (F.predecessors loop.header).filter (!loop.contains ·) := by
    simp [Function.predecessors, contains, hsucc, hout]
  rw [getLoopPredecessor] at h
  split at h
  · rename_i out hfilter
    rw [hfilter, List.mem_singleton] at hq
    exact hq.trans (Option.some.inj h)
  · simp at h

theorem getLoopPredecessor_of_preheader {s : Fin n} (h : loop.getLoopPreheader F = some s) :
    loop.getLoopPredecessor F = some s := by
  rw [getLoopPreheader] at h
  split at h
  · rename_i out hout
    split_ifs at h
    exact hout.trans h
  · simp at h

/-- The preheader depends on the graph and on where hoisting is legal. -/
theorem getLoopPreheader_congr {F F' : Function n}
    (hsucc : ∀ c, (F'.successors c).Perm (F.successors c))
    (hlegal : ∀ c, (F'.block c).isLegalToHoistInto = (F.block c).isLegalToHoistInto)
    (loop : Loop n) : loop.getLoopPreheader F' = loop.getLoopPreheader F := by
  have hpred : F'.predecessors loop.header = F.predecessors loop.header := by
    simp only [Function.predecessors, (hsucc _).mem_iff]
  have hlength : ∀ c, (F'.successors c).length = (F.successors c).length :=
    fun c => (hsucc c).length_eq
  simp only [getLoopPreheader, getLoopPredecessor, hpred, hlength, hlegal]

end Loop

namespace LoopInfo

variable {n : Nat}

/-- The loops reported are the natural loops of the flow graph. -/
structure Standard (F : Function n) (li : LoopInfo n) : Prop where
  innermost : ∀ b loop, li.getLoopFor b = some loop → F.flowGraph.Innermost loop.header b
  mem_blocks : ∀ b loop, li.getLoopFor b = some loop →
    ∀ x, x ∈ loop.blocks ↔ F.flowGraph.InLoop loop.header x
  none_iff : ∀ b, li.getLoopFor b = none ↔ ∀ h, ¬ F.flowGraph.InLoop h b

variable {F : Function n} {li : LoopInfo n}

theorem Standard.header_eq (hli : li.Standard F) {b h : Fin n} (hb : F.flowGraph.Innermost h b) :
    ∃ loop, li.getLoopFor b = some loop ∧ loop.header = h := by
  cases hloop : li.getLoopFor b with
  | none => exact absurd hb.1 ((hli.none_iff b).1 hloop h)
  | some loop => exact ⟨loop, rfl, (hli.innermost b loop hloop).unique hb⟩

theorem Standard.isLoopHeader_iff (hli : li.Standard F) {b : Fin n} :
    li.isLoopHeader b = true ↔ F.flowGraph.IsHeader b := by
  rw [isLoopHeader]
  refine ⟨fun h => ?_, fun h => ?_⟩
  · split at h
    · rename_i loop hloop
      exact of_decide_eq_true h ▸ (hli.innermost b loop hloop).1.isHeader
    · exact absurd h (by simp)
  · obtain ⟨loop, hloop, hheader⟩ := hli.header_eq h.innermost
    rw [hloop]
    exact decide_eq_true hheader

end LoopInfo

instance {n : Nat} (F : Function n) : DecidableRel F.flowGraph.edge :=
  fun b s => inferInstanceAs (Decidable (s ∈ F.successors b))

/-- The natural loops of the flow graph, found by search. -/
def naturalLoops {n : Nat} (F : Function n) : LoopInfo n where
  getLoopFor b :=
    ((List.finRange n).find? fun h => F.flowGraph.Innermost h b).map fun h =>
      ⟨h, (List.finRange n).filter fun x => F.flowGraph.InLoop h x⟩

theorem naturalLoops_standard {n : Nat} (F : Function n) : (naturalLoops F).Standard F where
  innermost b loop hloop := by
    obtain ⟨h, hfind, rfl⟩ := Option.map_eq_some_iff.1 hloop
    exact decide_eq_true_iff.1 (List.find?_some hfind :)
  mem_blocks b loop hloop x := by
    obtain ⟨h, _, rfl⟩ := Option.map_eq_some_iff.1 hloop
    simp
  none_iff b := by
    rw [naturalLoops, Option.map_eq_none_iff, List.find?_eq_none]
    refine ⟨fun hnone h hb => ?_, fun hnone h _ hdec => ?_⟩
    · obtain ⟨m, hm⟩ := Flow.FlowGraph.exists_innermost ⟨h, hb⟩
      exact hnone m (List.mem_finRange m) (decide_eq_true hm)
    · exact hnone h (of_decide_eq_true hdec).1

/-- Post-dominance is that of the flow graph. -/
def Analyses.PostDominanceStandard {n : Nat} (A : Analyses n) (F : Function n) : Prop :=
  ∀ a b, A.postDominates a b = true ↔ F.flowGraph.PostDominates a b

/-- Post-dominance is that of the flow graph if every block reaches an exit; where some do not, the tree
has further roots, which depend on the layout. -/
def Analyses.PostDominanceOfExits {n : Nat} (A : Analyses n) (F : Function n) : Prop :=
  F.ReachesExit → A.PostDominanceStandard F

/-- The analyses answer what they are defined to answer. -/
structure Analyses.Standard {n : Nat} (A : Analyses n) (F : Function n) : Prop where
  loopInfo : A.loopInfo.Standard F
  postDominance : A.PostDominanceOfExits F

/-- The standard analyses, with given edge probabilities. -/
def standardAnalyses {n : Nat} (F : Function n)
    (getEdgeProbability : Fin n → Nat → BranchProbability) : Analyses n where
  loopInfo := naturalLoops F
  postDominates a b := F.flowGraph.PostDominates a b
  getEdgeProbability := getEdgeProbability

theorem standardAnalyses_postDominance {n : Nat} (F : Function n)
    (getEdgeProbability : Fin n → Nat → BranchProbability) :
    (standardAnalyses F getEdgeProbability).PostDominanceStandard F :=
  fun _ _ => decide_eq_true_iff

theorem standardAnalyses_standard {n : Nat} (F : Function n)
    (getEdgeProbability : Fin n → Nat → BranchProbability) :
    (standardAnalyses F getEdgeProbability).Standard F :=
  ⟨naturalLoops_standard F, fun _ => standardAnalyses_postDominance F getEdgeProbability⟩

end CalcHeuristics

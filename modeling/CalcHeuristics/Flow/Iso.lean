import CalcHeuristics.Flow.Search
import Mathlib.Order.RelIso.Basic

/-!
# Flow graphs with other names for their nodes

An isomorphism of the edges that keeps the entry carries paths to paths, and with them everything that is
read off paths: dominance, post-dominance, loops and their nesting.
-/

namespace Flow

variable {V W : Type*}

section
variable {E : V → V → Prop} {E' : W → W → Prop} {P : W → Prop} {x y : V}

theorem Path.map (e : E ≃r E') {p : List V} (h : Path E x p y) : Path E' (e x) (p.map e) (e y) := by
  induction h with
  | single x => exact .single (e x)
  | cons hedge _ ih => exact .cons (e.map_rel_iff.2 hedge) ih

theorem ReachIn.map (e : E ≃r E') (h : ReachIn E (fun v => P (e v)) x y) :
    ReachIn E' P (e x) (e y) := by
  obtain ⟨p, hp, hP⟩ := h
  refine ⟨_, hp.map e, fun w hw => ?_⟩
  obtain ⟨v, hv, rfl⟩ := List.mem_map.1 hw
  exact hP v hv

theorem reachIn_map_iff (e : E ≃r E') :
    ReachIn E' P (e x) (e y) ↔ ReachIn E (fun v => P (e v)) x y := by
  refine ⟨fun h => ?_, ReachIn.map e⟩
  have hback : ReachIn E (fun v => P (e v)) (e.symm (e x)) (e.symm (e y)) :=
    ReachIn.map e.symm (h.mono fun w hw => by rwa [e.apply_symm_apply])
  rwa [e.symm_apply_apply, e.symm_apply_apply] at hback

theorem reachIn_ne_iff (e : E ≃r E') {a : V} :
    ReachIn E' (· ≠ e a) (e x) (e y) ↔ ReachIn E (· ≠ a) x y := by
  rw [reachIn_map_iff]
  simp only [ne_eq, EmbeddingLike.apply_eq_iff_eq]

end

namespace FlowGraph

/-- The nodes of `G` under the names they have in `H`. -/
structure Iso (G : FlowGraph V) (H : FlowGraph W) extends G.edge ≃r H.edge where
  map_entry : toEquiv G.entry = H.entry

namespace Iso

variable {G : FlowGraph V} {H : FlowGraph W} (e : G.Iso H) {a b h l x y : V}

theorem edge_iff : H.edge (e.toRelIso x) (e.toRelIso y) ↔ G.edge x y := e.toRelIso.map_rel_iff

theorem reachable_iff : H.Reachable (e.toRelIso b) ↔ G.Reachable b := by
  rw [FlowGraph.reachable_iff, FlowGraph.reachable_iff, ← e.map_entry]
  exact reachIn_map_iff e.toRelIso

theorem isExit_iff : H.IsExit (e.toRelIso b) ↔ G.IsExit b := by
  rw [IsExit, IsExit, e.toRelIso.surjective.forall]
  simp only [e.edge_iff]

theorem dominates_iff : H.Dominates (e.toRelIso a) (e.toRelIso b) ↔ G.Dominates a b := by
  rw [FlowGraph.dominates_iff, FlowGraph.dominates_iff, ← e.map_entry]
  exact not_congr (reachIn_ne_iff e.toRelIso)

theorem postDominates_iff :
    H.PostDominates (e.toRelIso a) (e.toRelIso b) ↔ G.PostDominates a b := by
  rw [FlowGraph.postDominates_iff, FlowGraph.postDominates_iff, e.toRelIso.surjective.forall]
  simp only [e.isExit_iff, reachIn_ne_iff e.toRelIso]

theorem backEdge_iff : H.BackEdge (e.toRelIso l) (e.toRelIso h) ↔ G.BackEdge l h := by
  rw [BackEdge, BackEdge, e.edge_iff, e.reachable_iff, e.dominates_iff]

theorem isHeader_iff : H.IsHeader (e.toRelIso h) ↔ G.IsHeader h := by
  rw [IsHeader, IsHeader, e.toRelIso.surjective.exists]
  simp only [e.backEdge_iff]

theorem inLoop_iff : H.InLoop (e.toRelIso h) (e.toRelIso x) ↔ G.InLoop h x := by
  rw [InLoop, InLoop, e.isHeader_iff, e.reachable_iff, e.toRelIso.surjective.exists]
  simp only [e.backEdge_iff, reachIn_ne_iff e.toRelIso, EmbeddingLike.apply_eq_iff_eq]

theorem innermost_iff : H.Innermost (e.toRelIso h) (e.toRelIso b) ↔ G.Innermost h b := by
  rw [Innermost, Innermost, e.inLoop_iff, e.toRelIso.surjective.forall]
  simp only [e.toRelIso.surjective.forall (p := fun x => _ → _), e.inLoop_iff]

end Iso

end FlowGraph

end Flow

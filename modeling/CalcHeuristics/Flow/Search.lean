import CalcHeuristics.Flow.Loop
import Mathlib.Data.Fintype.Card
import Mathlib.Data.Finset.Filter

/-!
# Deciding reachability, dominance and loops

On a finite graph reachability is decided by closing a set of nodes under the edges as often as there
are nodes: a path need not visit a node twice. The notions of the other modules become decidable from
it, and a node in some loop has an innermost one.
-/

namespace Flow

namespace FlowGraph

variable {V : Type*} {G : FlowGraph V}

theorem reachable_iff {b : V} : G.Reachable b ↔ ReachIn G.edge (fun _ => True) G.entry b :=
  ⟨fun ⟨p, hp⟩ => ⟨p, hp, fun _ _ => trivial⟩, fun ⟨p, hp, _⟩ => ⟨p, hp⟩⟩

theorem postDominates_iff {a b : V} :
    G.PostDominates a b ↔ ∀ e, G.IsExit e → ¬ ReachIn G.edge (· ≠ a) b e := by
  refine ⟨fun h e he hpath => ?_, fun h p e he hp => ?_⟩
  · obtain ⟨p, hp, hne⟩ := hpath
    exact hne a (h p e he hp) rfl
  · by_contra ha
    exact h e he (ReachIn.of_not_mem hp ha)

theorem simplified_iff {h : V} :
    G.Simplified h ↔ G.HasPreheader h ∧ G.HasLatch h ∧ G.HasDedicatedExits h :=
  ⟨fun ⟨h₁, h₂, h₃⟩ => ⟨h₁, h₂, h₃⟩, fun ⟨h₁, h₂, h₃⟩ => ⟨h₁, h₂, h₃⟩⟩

end FlowGraph

variable {V : Type*} [Fintype V] [DecidableEq V] {E : V → V → Prop} [DecidableRel E]
  {P : V → Prop} [DecidablePred P]

/-- The nodes of a set and those of `P` one edge away. -/
def expand (E : V → V → Prop) [DecidableRel E] (P : V → Prop) [DecidablePred P] (S : Finset V) :
    Finset V :=
  Finset.univ.filter fun y => y ∈ S ∨ (P y ∧ ∃ x ∈ S, E x y)

def closure (E : V → V → Prop) [DecidableRel E] (P : V → Prop) [DecidablePred P] :
    Nat → Finset V → Finset V
  | 0, S => S
  | k + 1, S => closure E P k (expand E P S)

theorem mem_expand {S : Finset V} {y : V} :
    y ∈ expand E P S ↔ y ∈ S ∨ (P y ∧ ∃ x ∈ S, E x y) := by
  simp [expand]

theorem mem_closure_of_mem {S : Finset V} {y : V} (k : Nat) (hy : y ∈ S) : y ∈ closure E P k S := by
  induction k generalizing S with
  | zero => exact hy
  | succ k ih => exact ih (mem_expand.2 (Or.inl hy))

theorem mem_closure_of_path {S : Finset V} {x y : V} {p : List V} {k : Nat} (hp : Path E x p y)
    (hx : x ∈ S) (hP : ∀ v ∈ p, P v) (hk : p.length ≤ k + 1) : y ∈ closure E P k S := by
  induction hp generalizing S k with
  | single => exact mem_closure_of_mem k hx
  | @cons x z y p hedge hrest ih =>
      have hpos : 0 < p.length := List.length_pos_of_mem hrest.source_mem
      rw [List.length_cons] at hk
      obtain ⟨k, rfl⟩ : ∃ k', k = k' + 1 := ⟨k - 1, by omega⟩
      have hz : z ∈ expand E P S :=
        mem_expand.2 (Or.inr ⟨hP z (List.mem_cons_of_mem _ hrest.source_mem), x, hx, hedge⟩)
      show y ∈ closure E P k (expand E P S)
      exact ih hz (fun v hv => hP v (List.mem_cons_of_mem _ hv)) (by omega)

theorem reachIn_of_mem_closure {S : Finset V} {x y : V} {k : Nat} (hy : y ∈ closure E P k S)
    (hS : ∀ v ∈ S, ReachIn E P x v) : ReachIn E P x y := by
  induction k generalizing S with
  | zero => exact hS y hy
  | succ k ih =>
      apply ih hy
      intro v hv
      obtain hv | ⟨hP, u, hu, hedge⟩ := mem_expand.1 hv
      · exact hS v hv
      · exact (hS u hu).tail hedge hP

theorem reachIn_iff {x y : V} :
    ReachIn E P x y ↔ P x ∧ y ∈ closure E P (Fintype.card V) {x} := by
  refine ⟨fun h => ?_, fun h => ?_⟩
  · obtain ⟨p, hp, hP⟩ := h
    obtain ⟨q, hq, hnodup, hsub⟩ := hp.exists_nodup
    refine ⟨hP x hp.source_mem, mem_closure_of_path hq (Finset.mem_singleton_self x)
      (fun v hv => hP v (hsub hv)) ?_⟩
    exact hnodup.length_le_card.trans (Nat.le_succ _)
  · obtain ⟨hx, hy⟩ := h
    apply reachIn_of_mem_closure hy
    intro v hv
    rw [Finset.mem_singleton.1 hv]
    exact ReachIn.refl hx

instance (x y : V) : Decidable (ReachIn E P x y) := decidable_of_iff _ reachIn_iff.symm

namespace FlowGraph

variable {G : FlowGraph V} [DecidableRel G.edge]

instance (b : V) : Decidable (G.Reachable b) := decidable_of_iff _ reachable_iff.symm

instance (a b : V) : Decidable (G.Dominates a b) := decidable_of_iff _ dominates_iff.symm

instance (b : V) : Decidable (G.IsExit b) := inferInstanceAs (Decidable (∀ s, ¬ G.edge b s))

instance (a b : V) : Decidable (G.PostDominates a b) := decidable_of_iff _ postDominates_iff.symm

instance (l h : V) : Decidable (G.BackEdge l h) :=
  inferInstanceAs (Decidable (G.edge l h ∧ G.Reachable l ∧ G.Dominates h l))

instance (h : V) : Decidable (G.IsHeader h) := inferInstanceAs (Decidable (∃ l, G.BackEdge l h))

instance (h x : V) : Decidable (G.InLoop h x) :=
  inferInstanceAs (Decidable ((G.IsHeader h ∧ x = h) ∨
    (G.Reachable x ∧ ∃ l, G.BackEdge l h ∧ ReachIn G.edge (· ≠ h) x l)))

instance (h b : V) : Decidable (G.Innermost h b) :=
  inferInstanceAs (Decidable (G.InLoop h b ∧ ∀ h', G.InLoop h' b → ∀ x, G.InLoop h x → G.InLoop h' x))

instance (p h : V) : Decidable (G.IsPreheader p h) :=
  inferInstanceAs (Decidable (G.edge p h ∧ ¬ G.InLoop h p ∧
    (∀ q, G.edge q h → ¬ G.InLoop h q → q = p) ∧ ∀ s, G.edge p s → s = h))

instance (h : V) : Decidable (G.HasPreheader h) :=
  inferInstanceAs (Decidable (∃ p, G.IsPreheader p h))

instance (h : V) : Decidable (G.HasLatch h) :=
  inferInstanceAs (Decidable (∃ l, G.edge l h ∧ G.InLoop h l ∧
    ∀ q, G.edge q h → G.InLoop h q → q = l))

instance (h : V) : Decidable (G.HasDedicatedExits h) :=
  inferInstanceAs (Decidable (∀ x y, G.edge x y → ∀ q, G.edge q y → G.InLoop h x →
    ¬ G.InLoop h y → G.InLoop h q))

instance (h : V) : Decidable (G.Simplified h) := decidable_of_iff _ simplified_iff.symm

/-- A node of some loop has an innermost loop: loops around it are nested, and finitely many. -/
theorem exists_innermost {b : V} (hb : ∃ h, G.InLoop h b) : ∃ h, G.Innermost h b := by
  have hleast : ∀ S : Finset V, (∃ h ∈ S, G.InLoop h b) →
      ∃ h ∈ S, G.InLoop h b ∧ ∀ h' ∈ S, G.InLoop h' b → G.InLoop h' h := by
    intro S
    induction S using Finset.induction_on with
    | empty => simp
    | insert a S _ ih =>
        intro hS
        by_cases ha : G.InLoop a b
        · by_cases hrest : ∃ h ∈ S, G.InLoop h b
          · obtain ⟨m, hm, hmb, hmin⟩ := ih hrest
            obtain hma | ham := hmb.nested ha
            · refine ⟨a, Finset.mem_insert_self a S, ha, fun h' hh' hb' => ?_⟩
              obtain rfl | hh' := Finset.mem_insert.1 hh'
              · exact hb'.isHeader.inLoop
              · exact (hmin h' hh' hb').subset hma
            · refine ⟨m, Finset.mem_insert_of_mem hm, hmb, fun h' hh' hb' => ?_⟩
              obtain rfl | hh' := Finset.mem_insert.1 hh'
              · exact ham
              · exact hmin h' hh' hb'
          · refine ⟨a, Finset.mem_insert_self a S, ha, fun h' hh' hb' => ?_⟩
            obtain rfl | hh' := Finset.mem_insert.1 hh'
            · exact hb'.isHeader.inLoop
            · exact absurd ⟨h', hh', hb'⟩ hrest
        · obtain ⟨h, hh, hhb⟩ := hS
          obtain rfl | hh := Finset.mem_insert.1 hh
          · exact absurd hhb ha
          · obtain ⟨m, hm, hmb, hmin⟩ := ih ⟨h, hh, hhb⟩
            refine ⟨m, Finset.mem_insert_of_mem hm, hmb, fun h' hh' hb' => ?_⟩
            obtain rfl | hh' := Finset.mem_insert.1 hh'
            · exact absurd hb' ha
            · exact hmin h' hh' hb'
  obtain ⟨h, hh⟩ := hb
  obtain ⟨m, _, hmb, hmin⟩ := hleast Finset.univ ⟨h, Finset.mem_univ h, hh⟩
  exact ⟨m, hmb, fun h' hb' x hx => (hmin h' (Finset.mem_univ h') hb').subset hx⟩

end FlowGraph

end Flow

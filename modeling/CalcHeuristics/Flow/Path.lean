import Mathlib.Data.List.Nodup
import Mathlib.Tactic.ByContra
import Mathlib.Tactic.Push

/-!
# Paths and dominance in a flow graph

A flow graph is an edge relation with an entry. Everything here is read off paths, which are lists of
visited nodes with both ends included: `a` dominates `b` when `a` is on every path from the entry to
`b`, and post-dominates it when `a` is on every path from `b` to a node without successors. The
arguments only need paths that stay inside a set of nodes, so `ReachIn` is what the proofs compose.
-/

namespace Flow

variable {V : Type*}

@[ext]
structure FlowGraph (V : Type*) where
  edge : V → V → Prop
  entry : V

/-- A walk along the edges, with the list of nodes it visits. -/
inductive Path (E : V → V → Prop) : V → List V → V → Prop where
  | single (x : V) : Path E x [x] x
  | cons {x y z : V} {p : List V} (hedge : E x y) (hrest : Path E y p z) : Path E x (x :: p) z

/-- Some path from `x` to `y` visits only nodes of `P`. -/
def ReachIn (E : V → V → Prop) (P : V → Prop) (x y : V) : Prop :=
  ∃ p, Path E x p y ∧ ∀ v ∈ p, P v

namespace Path

variable {E : V → V → Prop} {x y z : V} {p q : List V}

theorem source_mem (h : Path E x p y) : x ∈ p := by
  cases h with
  | single => exact List.mem_cons_self
  | cons _ _ => exact List.mem_cons_self

theorem target_mem (h : Path E x p y) : y ∈ p := by
  induction h with
  | single => exact List.mem_cons_self
  | cons _ _ ih => exact List.mem_cons_of_mem _ ih

/-- The part of a path from its last node satisfying `Q` on. -/
theorem exists_last (h : Path E x p z) (Q : V → Prop) (hmeet : ∃ v ∈ p, Q v) :
    ∃ v q, Q v ∧ Path E v (v :: q) z ∧ (∀ w ∈ q, ¬ Q w) ∧ v :: q <:+ p := by
  induction h with
  | single x =>
      obtain ⟨v, hv, hQ⟩ := hmeet
      obtain rfl := List.mem_singleton.1 hv
      exact ⟨v, [], hQ, .single v, by simp, List.suffix_refl _⟩
  | @cons x y z p hedge hrest ih =>
      by_cases hlater : ∃ v ∈ p, Q v
      · obtain ⟨v, q, hQ, hq, hnone, hsub⟩ := ih hlater
        exact ⟨v, q, hQ, hq, hnone, hsub.trans (List.suffix_cons x p)⟩
      · obtain ⟨v, hv, hQ⟩ := hmeet
        push Not at hlater
        obtain rfl | hv := List.mem_cons.1 hv
        · exact ⟨v, p, hQ, .cons hedge hrest, hlater, List.suffix_refl _⟩
        · exact absurd hQ (hlater v hv)

/-- Cutting out cycles leaves a path that visits no node twice. -/
theorem exists_nodup (h : Path E x p z) : ∃ q, Path E x q z ∧ q.Nodup ∧ q ⊆ p := by
  induction h with
  | single x => exact ⟨[x], .single x, List.nodup_singleton x, List.Subset.refl _⟩
  | @cons x y z p hedge _ ih =>
      obtain ⟨q, hq, hnodup, hsub⟩ := ih
      by_cases hx : x ∈ q
      · obtain ⟨v, r, rfl, hr, _, hsuffix⟩ := hq.exists_last (· = x) ⟨x, hx, rfl⟩
        exact ⟨v :: r, hr, hsuffix.sublist.nodup hnodup,
          fun w hw => List.mem_cons_of_mem _ (hsub (hsuffix.subset hw))⟩
      · refine ⟨x :: q, .cons hedge hq, List.nodup_cons.2 ⟨hx, hnodup⟩, fun w hw => ?_⟩
        obtain rfl | hw := List.mem_cons.1 hw
        · exact List.mem_cons_self
        · exact List.mem_cons_of_mem _ (hsub hw)

end Path

namespace ReachIn

variable {E : V → V → Prop} {P Q : V → Prop} {x y z : V}

theorem refl (hx : P x) : ReachIn E P x x :=
  ⟨[x], .single x, fun v hv => by rwa [List.mem_singleton.1 hv]⟩

theorem head (hx : P x) (hedge : E x y) (h : ReachIn E P y z) : ReachIn E P x z := by
  obtain ⟨p, hp, hP⟩ := h
  refine ⟨x :: p, .cons hedge hp, fun v hv => ?_⟩
  obtain rfl | hv := List.mem_cons.1 hv
  · exact hx
  · exact hP v hv

theorem target (h : ReachIn E P x y) : P y := by
  obtain ⟨p, hp, hP⟩ := h
  exact hP y hp.target_mem

theorem mono (hPQ : ∀ v, P v → Q v) (h : ReachIn E P x y) : ReachIn E Q x y := by
  obtain ⟨p, hp, hP⟩ := h
  exact ⟨p, hp, fun v hv => hPQ v (hP v hv)⟩

theorem trans (h : ReachIn E P x y) (h' : ReachIn E P y z) : ReachIn E P x z := by
  obtain ⟨p, hp, hP⟩ := h
  induction hp with
  | single => exact h'
  | cons hedge _ ih =>
      have hrest := ih h' fun v hv => hP v (List.mem_cons_of_mem _ hv)
      exact head (hP _ List.mem_cons_self) hedge hrest

theorem tail (h : ReachIn E P x y) (hedge : E y z) (hz : P z) : ReachIn E P x z :=
  h.trans (head h.target hedge (refl hz))

/-- A path avoids `a` unless it visits it. -/
theorem of_not_mem {a : V} {p : List V} (hp : Path E x p y) (ha : a ∉ p) :
    ReachIn E (· ≠ a) x y :=
  ⟨p, hp, fun _ hv he => ha (he ▸ hv)⟩

end ReachIn

namespace FlowGraph

variable (G : FlowGraph V)

def Reachable (b : V) : Prop := ∃ p, Path G.edge G.entry p b

/-- An exit of the function: control does not go on from here. -/
def IsExit (b : V) : Prop := ∀ s, ¬ G.edge b s

def Dominates (a b : V) : Prop := ∀ p, Path G.edge G.entry p b → a ∈ p

def PostDominates (a b : V) : Prop := ∀ p e, G.IsExit e → Path G.edge b p e → a ∈ p

variable {G} {a b c : V}

theorem Reachable.step (hb : G.Reachable b) (hedge : G.edge b c) : G.Reachable c := by
  obtain ⟨p, hp⟩ := hb
  obtain ⟨q, hq, _⟩ := ReachIn.tail (P := fun _ => True) ⟨p, hp, fun _ _ => trivial⟩ hedge trivial
  exact ⟨q, hq⟩

theorem dominates_iff : G.Dominates a b ↔ ¬ ReachIn G.edge (· ≠ a) G.entry b := by
  refine ⟨fun h hreach => ?_, fun h p hp => ?_⟩
  · obtain ⟨p, hp, hne⟩ := hreach
    exact hne a (h p hp) rfl
  · by_contra ha
    exact h (ReachIn.of_not_mem hp ha)

theorem Dominates.refl (b : V) : G.Dominates b b := fun _ hp => hp.target_mem

/-- A dominator of `c` dominates everything from which `c` is reached without meeting it. -/
theorem Dominates.of_reachIn (h : G.Dominates a c) (hbc : ReachIn G.edge (· ≠ a) b c) :
    G.Dominates a b := by
  rw [dominates_iff] at h ⊢
  exact fun hb => h (hb.trans hbc)

/-- Two dominators of a reachable node are ordered: the one met last on a path to the node is
dominated by the other. -/
theorem Dominates.total (hc : G.Reachable c) (ha : G.Dominates a c) (hb : G.Dominates b c) :
    G.Dominates a b ∨ G.Dominates b a := by
  by_cases hab : a = b
  · subst hab
    exact Or.inl (Dominates.refl a)
  obtain ⟨p, hp⟩ := hc
  obtain ⟨v, q, hv, hq, hnone, _⟩ := hp.exists_last (fun w => w = a ∨ w = b) ⟨a, ha p hp, Or.inl rfl⟩
  obtain rfl | rfl := hv
  · refine Or.inr (hb.of_reachIn ⟨v :: q, hq, fun w hw => ?_⟩)
    obtain rfl | hw := List.mem_cons.1 hw
    · exact hab
    · exact fun he => hnone w hw (Or.inr he)
  · refine Or.inl (ha.of_reachIn ⟨v :: q, hq, fun w hw => ?_⟩)
    obtain rfl | hw := List.mem_cons.1 hw
    · exact Ne.symm hab
    · exact fun he => hnone w hw (Or.inl he)

/-- Cut a path at its first visit of `Q`: the part before it avoids `Q`. -/
theorem exists_first {x z : V} {p : List V} (hp : Path G.edge x p z) (Q : V → Prop)
    (hmeet : ∃ v ∈ p, Q v) :
    ∃ v ∈ p, Q v ∧ (v = x ∨ ∃ u, ReachIn G.edge (fun w => ¬ Q w) x u ∧ G.edge u v) := by
  induction hp with
  | single x =>
      obtain ⟨v, hv, hQ⟩ := hmeet
      exact ⟨v, hv, hQ, Or.inl (List.mem_singleton.1 hv)⟩
  | @cons x y z p hedge hrest ih =>
      by_cases hx : Q x
      · exact ⟨x, List.mem_cons_self, hx, Or.inl rfl⟩
      · obtain ⟨v, hv, hQ⟩ := hmeet
        have hmeet' : ∃ v ∈ p, Q v := by
          obtain rfl | hv := List.mem_cons.1 hv
          · exact absurd hQ hx
          · exact ⟨v, hv, hQ⟩
        obtain ⟨w, hmem, hw, rfl | ⟨u, hu, huw⟩⟩ := ih hmeet'
        · exact ⟨w, List.mem_cons_of_mem _ hmem, hw, Or.inr ⟨x, ReachIn.refl hx, hedge⟩⟩
        · exact ⟨w, List.mem_cons_of_mem _ hmem, hw, Or.inr ⟨u, ReachIn.head hx hedge hu, huw⟩⟩

/-- Mutual dominance of reachable nodes is equality: a path to the first of the two avoids the
other. -/
theorem Dominates.antisymm (hb : G.Reachable b) (hab : G.Dominates a b) (hba : G.Dominates b a) :
    a = b := by
  by_contra hne
  obtain ⟨p, hp⟩ := hb
  obtain ⟨v, _, hv, hfirst⟩ :=
    exists_first hp (fun w => w = a ∨ w = b) ⟨b, hp.target_mem, Or.inr rfl⟩
  have havoid : ∀ w, w ≠ v → (w = a ∨ w = b) → ReachIn G.edge (· ≠ w) G.entry v := by
    intro w hwv hw
    obtain rfl | ⟨u, hu, huv⟩ := hfirst
    · exact ReachIn.refl (Ne.symm hwv)
    · refine (hu.mono fun x hx he => hx ?_).tail huv (Ne.symm hwv)
      obtain rfl | rfl := hw
      · exact Or.inl he
      · exact Or.inr he
  obtain rfl | rfl := hv
  · exact dominates_iff.1 hba (havoid b (Ne.symm hne) (Or.inr rfl))
  · exact dominates_iff.1 hab (havoid a hne (Or.inl rfl))

/-- The only successor of a node is on every path that leaves it. -/
theorem PostDominates.of_unique_succ (hedge : G.edge b c) (hunique : ∀ s, G.edge b s → s = c) :
    G.PostDominates c b := by
  intro p e hexit hp
  cases hp with
  | single => exact absurd hedge (hexit c)
  | cons hedge' hrest =>
      obtain rfl := hunique _ hedge'
      exact List.mem_cons_of_mem _ hrest.source_mem

end FlowGraph

end Flow

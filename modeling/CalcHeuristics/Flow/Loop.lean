import CalcHeuristics.Flow.Path

/-!
# Natural loops

A back edge goes to a dominator of its source. The natural loop of a header `h` is `h` with every
reachable node that reaches the source of a back edge to `h` without going through `h`; back edges to
one header share their loop. Two loops are nested or disjoint, so a node has at most one innermost
loop, which is what loop analyses report for it. Edges that form no natural loop (an irreducible
region) are allowed anywhere.
-/

namespace Flow.FlowGraph

variable {V : Type*} (G : FlowGraph V)

def BackEdge (l h : V) : Prop := G.edge l h ∧ G.Reachable l ∧ G.Dominates h l

def IsHeader (h : V) : Prop := ∃ l, G.BackEdge l h

/-- `x` is in the natural loop of header `h`. -/
def InLoop (h x : V) : Prop :=
  (G.IsHeader h ∧ x = h) ∨ (G.Reachable x ∧ ∃ l, G.BackEdge l h ∧ ReachIn G.edge (· ≠ h) x l)

/-- The smallest loop around `b` is that of header `h`. -/
def Innermost (h b : V) : Prop :=
  G.InLoop h b ∧ ∀ h', G.InLoop h' b → ∀ x, G.InLoop h x → G.InLoop h' x

/-- `p` is the only block that enters the loop, and it does nothing else. -/
def IsPreheader (p h : V) : Prop :=
  G.edge p h ∧ ¬ G.InLoop h p ∧ (∀ q, G.edge q h → ¬ G.InLoop h q → q = p) ∧
    ∀ s, G.edge p s → s = h

def HasPreheader (h : V) : Prop := ∃ p, G.IsPreheader p h

/-- One block of the loop goes back to the header. -/
def HasLatch (h : V) : Prop :=
  ∃ l, G.edge l h ∧ G.InLoop h l ∧ ∀ q, G.edge q h → G.InLoop h q → q = l

/-- The blocks the loop exits to are only reached from the loop. -/
def HasDedicatedExits (h : V) : Prop :=
  ∀ x y, G.edge x y → ∀ q, G.edge q y → G.InLoop h x → ¬ G.InLoop h y → G.InLoop h q

/-- The canonical form of a loop. -/
structure Simplified (h : V) : Prop where
  preheader : G.HasPreheader h
  latch : G.HasLatch h
  dedicatedExits : G.HasDedicatedExits h

/-- `l` is the only source of a back edge to `h`. -/
structure IsLatch (l h : V) : Prop where
  backEdge : G.BackEdge l h
  unique : ∀ m, G.BackEdge m h → m = l

variable {G} {h h' l x y b : V}

theorem IsHeader.inLoop (hh : G.IsHeader h) : G.InLoop h h := Or.inl ⟨hh, rfl⟩

theorem IsHeader.reachable (hh : G.IsHeader h) : G.Reachable h := by
  obtain ⟨l, hedge, hl, _⟩ := hh
  exact hl.step hedge

theorem InLoop.isHeader (hx : G.InLoop h x) : G.IsHeader h := by
  obtain ⟨hh, _⟩ | ⟨_, l, hl, _⟩ := hx
  · exact hh
  · exact ⟨l, hl⟩

theorem InLoop.reachable (hx : G.InLoop h x) : G.Reachable x := by
  obtain ⟨hh, rfl⟩ | ⟨hr, _⟩ := hx
  · exact hh.reachable
  · exact hr

theorem InLoop.dominates (hx : G.InLoop h x) : G.Dominates h x := by
  obtain ⟨_, rfl⟩ | ⟨_, l, ⟨_, _, hdom⟩, hreach⟩ := hx
  · exact Dominates.refl x
  · exact hdom.of_reachIn hreach

theorem BackEdge.inLoop (hl : G.BackEdge l h) : G.InLoop h l := by
  by_cases hlh : l = h
  · exact Or.inl ⟨⟨l, hl⟩, hlh⟩
  · exact Or.inr ⟨hl.2.1, l, hl, ReachIn.refl hlh⟩

theorem backEdge_of_inLoop (hl : G.InLoop h l) (hedge : G.edge l h) : G.BackEdge l h :=
  ⟨hedge, hl.reachable, hl.dominates⟩

/-- A loop contains everything that reaches it without meeting the header. -/
theorem InLoop.of_reachIn (hx : G.InLoop h x) (hy : G.Reachable y)
    (hyx : ReachIn G.edge (· ≠ h) y x) : G.InLoop h y := by
  obtain ⟨_, rfl⟩ | ⟨_, l, hl, hreach⟩ := hx
  · exact absurd rfl hyx.target
  · exact Or.inr ⟨hy, l, hl, hyx.trans hreach⟩

/-- A path into a loop that does not meet the header stays inside the loop. -/
theorem InLoop.reachIn_inLoop (hx : G.InLoop h x) (hy : G.Reachable y)
    (hyx : ReachIn G.edge (· ≠ h) y x) : ReachIn G.edge (G.InLoop h) y x := by
  obtain ⟨p, hp, hne⟩ := hyx
  induction hp with
  | single => exact ReachIn.refl hx
  | @cons y z x p hedge hrest ih =>
      have hy' : G.InLoop h y := hx.of_reachIn hy ⟨y :: p, .cons hedge hrest, hne⟩
      exact ReachIn.head hy' hedge
        (ih hx (hy.step hedge) fun v hv => hne v (List.mem_cons_of_mem _ hv))

theorem InLoop.reachIn_from_header (hx : G.InLoop h x) : ReachIn G.edge (G.InLoop h) h x := by
  obtain ⟨p, hp⟩ := hx.reachable
  obtain ⟨v, q, rfl, hq, hnone, _⟩ := hp.exists_last (· = h) ⟨h, hx.dominates p hp, rfl⟩
  have hv : G.InLoop v v := hx.isHeader.inLoop
  cases hq with
  | single => exact ReachIn.refl hx
  | cons hedge hrest =>
      exact ReachIn.head hv hedge (hx.reachIn_inLoop (hv.reachable.step hedge) ⟨q, hrest, hnone⟩)

theorem InLoop.reachIn_to_header (hx : G.InLoop h x) : ReachIn G.edge (G.InLoop h) x h := by
  obtain ⟨hh, rfl⟩ | ⟨hr, l, hl, hreach⟩ := hx
  · exact ReachIn.refl hh.inLoop
  · exact (hl.inLoop.reachIn_inLoop hr hreach).tail hl.1 hl.inLoop.isHeader.inLoop

/-- Two headers cannot lie in each other's loops. -/
theorem InLoop.header_antisymm (h₁ : G.InLoop h h') (h₂ : G.InLoop h' h) : h = h' :=
  Dominates.antisymm h₁.reachable h₁.dominates h₂.dominates

/-- A loop whose header lies in another loop lies in it as a whole. -/
theorem InLoop.subset (hh : G.InLoop h h') (hx : G.InLoop h' x) : G.InLoop h x := by
  by_cases hne : h = h'
  · exact hne ▸ hx
  · have havoid : ∀ v, G.InLoop h' v → v ≠ h := fun v hv he =>
      hne (InLoop.header_antisymm hh (he ▸ hv))
    exact hh.of_reachIn hx.reachable (hx.reachIn_to_header.mono havoid)

/-- Two loops that share a node are nested. -/
theorem InLoop.nested (h₁ : G.InLoop h b) (h₂ : G.InLoop h' b) :
    G.InLoop h h' ∨ G.InLoop h' h := by
  wlog hdom : G.Dominates h h' generalizing h h'
  · obtain hd | hd := Dominates.total h₁.reachable h₁.dominates h₂.dominates
    · exact absurd hd hdom
    · exact (this h₂ h₁ hd).symm
  by_cases hin : G.InLoop h' h
  · exact Or.inr hin
  · have havoid : ∀ v, G.InLoop h' v → v ≠ h := fun v hv he => hin (he ▸ hv)
    exact Or.inl (h₁.of_reachIn h₂.isHeader.reachable (h₂.reachIn_from_header.mono havoid))

theorem Innermost.unique (h₁ : G.Innermost h b) (h₂ : G.Innermost h' b) : h = h' :=
  InLoop.header_antisymm (h₂.2 h h₁.1 h' h₂.1.isHeader.inLoop)
    (h₁.2 h' h₂.1 h h₁.1.isHeader.inLoop)

/-- The innermost loop of a header is its own. -/
theorem IsHeader.innermost (hh : G.IsHeader h) : G.Innermost h h :=
  ⟨hh.inLoop, fun _ hh' _ hx => hh'.subset hx⟩

/-- Control comes to a loop through its entering edges, so the only block outside with an edge to the
header dominates the whole loop. -/
theorem InLoop.dominates_of_only_entering (hentry : ∀ u, ¬ G.edge u G.entry) (hb : G.InLoop h b)
    (honly : ∀ q, G.edge q h → ¬ G.InLoop h q → q = x) : G.Dominates x b := by
  intro p hp
  obtain ⟨v, hvp, hv, hfirst⟩ :=
    exists_first hp (fun w => w = x ∨ w = h) ⟨h, hb.dominates p hp, Or.inr rfl⟩
  obtain rfl | rfl := hv
  · exact hvp
  obtain rfl | ⟨u, hu, huv⟩ := hfirst
  · obtain ⟨l, hl⟩ := hb.isHeader
    exact absurd hl.1 (hentry l)
  · have hout : ¬ G.InLoop v u := fun hin =>
      dominates_iff.1 hin.dominates (hu.mono fun w hw he => hw (Or.inr he))
    exact absurd (Or.inl (honly u huv hout)) hu.target

/-! ### Loops in canonical form -/

/-- Of the edges into the header of a canonical loop only the back edge can be declined: the preheader
has nowhere else to go. -/
theorem Simplified.backEdge (hs : G.Simplified h) (hedge : G.edge b h)
    (hnot : ¬ G.PostDominates h b) : G.BackEdge b h := by
  by_cases hb : G.InLoop h b
  · exact backEdge_of_inLoop hb hedge
  · obtain ⟨p, _, _, honly, hsucc⟩ := hs.preheader
    obtain rfl := honly b hedge hb
    exact absurd (PostDominates.of_unique_succ hedge hsucc) hnot

theorem Simplified.latch_eq (hs : G.Simplified h) (hb : G.BackEdge b h) (hl : G.BackEdge l h) :
    b = l := by
  obtain ⟨m, _, _, honly⟩ := hs.latch
  rw [honly b hb.1 hb.inLoop, honly l hl.1 hl.inLoop]

/-- When all loops are canonical, the innermost loop of a latch is the one it closes: a smaller loop
around the latch would exit to the header, and share that exit with the preheader. -/
theorem BackEdge.innermost (hall : ∀ h, G.IsHeader h → G.Simplified h) (hb : G.BackEdge b h) :
    G.Innermost h b := by
  refine ⟨hb.inLoop, fun h' hb' x hx => ?_⟩
  have hin : G.InLoop h' h := by
    by_contra hout
    have hsub : G.InLoop h h' := (hb.inLoop.nested hb').resolve_right hout
    obtain ⟨p, hpedge, hpout, _⟩ := (hall h ⟨b, hb⟩).preheader
    have hp : G.InLoop h' p :=
      (hall h' hb'.isHeader).dedicatedExits b h hb.1 p hpedge hb' hout
    exact hpout (hsub.subset hp)
  exact hin.subset hx

end Flow.FlowGraph

import Mathlib.Data.List.Sort
import TensorGraph.Proofs.WellFormed

/-!
# `TensorGraph.Proofs.LeastOrder` — **the sort gives the least order there is**

Cyclic or not, a graph whose links agree has operators that can be ordered: those that are on no
cycle and behind none. `Orders` says what it is to order them, in terms of ids and of what operators
make and read, without the sort. There are many such orders; as the sort always takes the least
operator that is ready, where another order first differs from the sort's it has a greater id.

## Contents
- **Orders** of a graph: `LeadsTo`, `OnCycle`, `Orders`.
- **Cycles and chains.** In a finite relation, what has no cycle behind it has only ending chains.
- **Greed.** Each operator ordered is the least that was ready, `Greedy`, kept by a step and a run.
- **Least.** A greedy order comes before any other, `Greedy.eq_or_lex`.
-/

namespace TensorGraph

open TopologicalSort

namespace Graph

variable {g : Graph}

/-! ## Orders of a graph -/

/-- An output of the operator that the first id leads to is an input of that of the second. -/
def LeadsTo (g : Graph) (i j : OperatorId) : Prop :=
  ∃ a b, g.findOperator i = some a ∧ g.findOperator j = some b ∧ ∃ v ∈ a.makes, v ∈ b.reads

/-- The operator leads to itself, be it through others. -/
def OnCycle (g : Graph) (i : OperatorId) : Prop := Relation.TransGen g.LeadsTo i i

/-- **An order** of all the operators that lie on no cycle and have no ancestor on one: each once,
    and each after those that lead to it. -/
structure Orders (g : Graph) (order : List OperatorId) : Prop where
  nodup : order.Nodup
  mem_iff : ∀ i, i ∈ order ↔ (∃ n, g.findOperator i = some n) ∧
    ¬ g.OnCycle i ∧ ∀ j, Relation.TransGen g.LeadsTo j i → ¬ g.OnCycle j
  after : ∀ k i, order[k]? = some i → ∀ j, g.LeadsTo j i → j ∈ order.take k

/-! ## Cycles and chains -/

/-- **No cycle behind** an element means that the chains down from it end, where the relation has
    finitely many elements. -/
theorem acc_iff_no_cycle_behind {α : Type} {r : α → α → Prop} {s : List α}
    (hs : ∀ a b, r a b → a ∈ s) {a : α} :
    Acc r a ↔ ¬ Relation.TransGen r a a ∧
      ∀ b, Relation.TransGen r b a → ¬ Relation.TransGen r b b := by
  constructor
  · intro hacc
    refine ⟨not_rel_self_of_acc hacc.transGen, fun b hb => ?_⟩
    exact not_rel_self_of_acc (hacc.transGen.inv hb)
  · rintro ⟨-, hbehind⟩
    -- Among the finitely many elements behind `a` the relation has no cycle, so it is well-founded.
    let chain : {b // b ∈ s} → {b // b ∈ s} → Prop :=
      fun b c => Relation.TransGen r b.1 c.1 ∧ Relation.TransGen r c.1 a
    have : Finite {b // b ∈ s} := List.finite_toSet s
    have : IsTrans _ chain := ⟨fun _ _ _ hbc hcd => ⟨hbc.1.trans hcd.1, hcd.2⟩⟩
    have : Std.Irrefl chain := ⟨fun b hb => hbehind b.1 hb.2 hb.1⟩
    have hwf : WellFounded chain := Finite.wellFounded_of_trans_of_irrefl chain
    have hall : ∀ b : {b // b ∈ s}, Relation.TransGen r b.1 a → Acc r b.1 := by
      intro b
      refine hwf.induction (C := fun b => Relation.TransGen r b.1 a → Acc r b.1) b ?_
      intro b ih hb
      refine Acc.intro b.1 fun c hcb => ?_
      exact ih ⟨c, hs c b.1 hcb⟩ ⟨Relation.TransGen.single hcb, hb⟩ (hb.head hcb)
    refine Acc.intro a fun b hba => ?_
    exact hall ⟨b, hs b a hba⟩ (Relation.TransGen.single hba)

namespace Mirrored

/-- An id leads to an operator of the graph when it is the id of one. -/
theorem findOperator_eq_some_iff_mem (h : g.Mirrored) {i : OperatorId} {n : Node} :
    g.findOperator i = some n ↔ n ∈ g.ops ∧ n.id = i := by
  constructor
  · intro hfound
    exact ⟨mem_ops_of_findOperator hfound, h.id_of_findOperator hfound⟩
  · rintro ⟨hn, rfl⟩
    exact h.findOperator_id h.length_ops hn

end Mirrored

namespace Linked

/-- Operators lead to each other as their ids do. -/
theorem leadsTo_iff (h : g.Linked) (hlen : g.ops.length ≤ UInt32.size) {i : OperatorId} {n : Node}
    (hn : n ∈ g.ops) : g.LeadsTo i n.id ↔ i ∈ g.predecessors n := by
  constructor
  · rintro ⟨a, b, ha, hb, v, hmakes, hreads⟩
    obtain ⟨hmem, rfl⟩ := (h.mirrored hlen).findOperator_eq_some_iff_mem.mp ha
    rw [h.findOperator_id hlen hn] at hb
    cases hb
    exact (h.mem_predecessors_iff hlen hmem hn).mpr ⟨hmem, hn, v, hmakes, hreads⟩
  · intro hi
    obtain ⟨a, ha, rfl⟩ := (h.mirrored hlen).predecessor_known n hn i hi
    obtain ⟨-, -, v, hmakes, hreads⟩ := (h.mem_predecessors_iff hlen ha hn).mp hi
    exact ⟨a, n, h.findOperator_id hlen ha, h.findOperator_id hlen hn, v, hmakes, hreads⟩

/-- The chains down from an operator end when those down from its id do. -/
theorem acc_leadsTo_iff (h : g.Linked) (hlen : g.ops.length ≤ UInt32.size) {n : Node}
    (hn : n ∈ g.ops) : Acc g.LeadsTo n.id ↔ Acc g.Precedes n := by
  constructor
  · intro hacc
    have hsub : Subrelation g.Precedes (InvImage g.LeadsTo Node.id) := by
      rintro a b ⟨-, hb, hprec⟩
      exact (h.leadsTo_iff hlen hb).mpr hprec
    exact hsub.accessible (InvImage.accessible Node.id hacc)
  · intro hacc
    induction hacc with
    | intro n _ ih =>
        refine Acc.intro n.id fun i hi => ?_
        have hprec := (h.leadsTo_iff hlen hn).mp hi
        obtain ⟨m, hm, rfl⟩ := (h.mirrored hlen).predecessor_known n hn i hprec
        exact ih m ⟨hm, hn, hprec⟩ hm

/-- **The sort orders** the operators on no cycle and behind none. -/
theorem orders_topologicalOrder (h : g.Linked) (hlen : g.ops.length ≤ UInt32.size) :
    g.Orders g.topologicalOrder where
  nodup := (h.mirrored hlen).nodup_topologicalOrder
  mem_iff i := by
    have hmirrored := h.mirrored hlen
    have hfinite : ∀ a b, g.LeadsTo a b → a ∈ g.ops.map Node.id := by
      rintro a b ⟨n, -, hn, -⟩
      obtain ⟨hmem, rfl⟩ := hmirrored.findOperator_eq_some_iff_mem.mp hn
      exact List.mem_map_of_mem hmem
    unfold OnCycle
    rw [← acc_iff_no_cycle_behind hfinite]
    constructor
    · intro hi
      obtain ⟨n, hn, rfl⟩ := List.mem_map.mp (hmirrored.topologicalOrder_subset_ids hi)
      refine ⟨⟨n, h.findOperator_id hlen hn⟩, ?_⟩
      exact (h.acc_leadsTo_iff hlen hn).mpr ((hmirrored.mem_topologicalOrder_iff hn).mp hi)
    · rintro ⟨⟨n, hfound⟩, hacc⟩
      obtain ⟨hn, rfl⟩ := hmirrored.findOperator_eq_some_iff_mem.mp hfound
      exact (hmirrored.mem_topologicalOrder_iff hn).mpr ((h.acc_leadsTo_iff hlen hn).mp hacc)
  after k i hk j hj := by
    have hmirrored := h.mirrored hlen
    have hi : i ∈ g.topologicalOrder := List.mem_of_getElem? hk
    obtain ⟨n, hn, rfl⟩ := List.mem_map.mp (hmirrored.topologicalOrder_subset_ids hi)
    exact hmirrored.predecessors_mem_take hn hk j ((h.leadsTo_iff hlen hn).mp hj)

end Linked

/-! ## Greed -/

/-- **Each operator ordered is the least** of those that were ready then: that were not ordered yet
    and had all their predecessors ordered. -/
def Greedy (g : Graph) (order : List OperatorId) : Prop :=
  ∀ k i, order[k]? = some i → ∀ n ∈ g.ops, n.id ∉ order.take k →
    (∀ p ∈ g.predecessors n, p ∈ order.take k) → i = n.id ∨ i < n.id

/-- The first of the ready operators is the least of them. -/
theorem eq_or_lt_of_mem_ready {s : State} (hinv : Inv g [] s) {i : OperatorId}
    {rest : List OperatorId} (hready : s.ready = i :: rest) {j : OperatorId} (hj : j ∈ s.ready) :
    i = j ∨ i < j := by
  have hsorted := hinv.pairwise_ready
  rw [hready] at hsorted hj
  rcases List.mem_cons.mp hj with heq | hrest
  · exact Or.inl heq.symm
  · exact Or.inr ((List.pairwise_cons.mp hsorted).1 j hrest)

theorem Greedy.step {s : State} (hinv : Inv g [] s) (h : g.Greedy s.order) :
    g.Greedy (step g s).order := by
  cases hready : s.ready with
  | nil => rwa [step_of_ready_eq_nil hready]
  | cons i rest =>
      rw [order_step hready]
      intro k j hk n hn hnew hpreds
      rcases Nat.lt_or_ge k s.order.length with hlt | hge
      · rw [List.getElem?_append_left hlt] at hk
        rw [List.take_append_of_le_length (Nat.le_of_lt hlt)] at hnew hpreds
        exact h k j hk n hn hnew hpreds
      · rw [List.getElem?_append_right hge, List.getElem?_singleton] at hk
        split at hk
        · cases hk
          have hlength : k = s.order.length := by omega
          rw [hlength, List.take_append_of_le_length (Nat.le_refl _), List.take_length] at hnew hpreds
          -- What could have come next is among the ready ones, so it is no less than their first.
          have hmem := (hinv.mem_ready_iff n hn).mpr ⟨hnew, List.not_mem_nil, hpreds⟩
          exact eq_or_lt_of_mem_ready hinv hready hmem
        · cases hk

theorem Greedy.run (hg : g.Mirrored) (fuel : Nat) {s : State} (hinv : Inv g [] s)
    (h : g.Greedy s.order) : g.Greedy (TopologicalSort.run g fuel s).order := by
  induction fuel generalizing s with
  | zero => exact h
  | succ fuel ih => exact ih (hinv.step hg) (h.step hinv)

/-- **The sort is greedy.** -/
theorem Mirrored.greedy_topologicalOrder (hg : g.Mirrored) : g.Greedy g.topologicalOrder :=
  Greedy.run hg _ (inv_start hg) nofun

/-! ## Least -/

/-- Lists of one length compare as they do where they differ first. -/
theorem eq_or_lex_of_first_difference {α : Type} {r : α → α → Prop} {xs ys : List α}
    (hlength : xs.length = ys.length)
    (h : ∀ k x y, xs[k]? = some x → ys[k]? = some y → xs.take k = ys.take k → x = y ∨ r x y) :
    ys = xs ∨ List.Lex r xs ys := by
  induction xs generalizing ys with
  | nil =>
      left
      exact List.eq_nil_of_length_eq_zero hlength.symm
  | cons x xs ih =>
      cases ys with
      | nil => cases hlength
      | cons y ys =>
          rcases h 0 x y rfl rfl rfl with rfl | hlt
          · -- The heads agree, so the lists first differ where their tails do.
            have htail := ih (Nat.succ.inj hlength) fun k a b ha hb htake =>
              h (k + 1) a b ha hb (by simp [htake])
            rcases htail with rfl | hlex
            · exact Or.inl rfl
            · exact Or.inr (.cons hlex)
          · exact Or.inr (.rel hlt)

/-- **A greedy order is the least** of all orders of the graph. -/
theorem Greedy.eq_or_lex (h : g.Linked) (hlen : g.ops.length ≤ UInt32.size)
    {order other : List OperatorId} (hgreedy : g.Greedy order) (horder : g.Orders order)
    (hother : g.Orders other) : other = order ∨ List.Lex (· < ·) order other := by
  have hperm : order.Perm other :=
    (List.perm_ext_iff_of_nodup horder.nodup hother.nodup).mpr fun i =>
      (horder.mem_iff i).trans (hother.mem_iff i).symm
  refine eq_or_lex_of_first_difference hperm.length_eq fun k i j hi hj hsame => ?_
  -- Where the orders differ first, the operator of the other one was ready as well.
  obtain ⟨⟨n, hfound⟩, -⟩ := (hother.mem_iff j).mp (List.mem_of_getElem? hj)
  obtain ⟨hn, rfl⟩ := (h.mirrored hlen).findOperator_eq_some_iff_mem.mp hfound
  refine hgreedy k i hi n hn ?_ fun p hp => ?_
  · rw [hsame]
    intro hmem
    obtain ⟨m, hm⟩ := List.mem_iff_getElem?.mp hmem
    rw [List.getElem?_take] at hm
    split at hm
    · have hmlt : m < other.length := (List.getElem?_eq_some_iff.mp hm).1
      have hmk : m = k := (List.getElem?_inj hmlt hother.nodup).mp (hm.trans hj.symm)
      omega
    · cases hm
  · rw [hsame]
    exact hother.after k n.id hj p ((h.leadsTo_iff hlen hn).mpr hp)

end Graph

end TensorGraph

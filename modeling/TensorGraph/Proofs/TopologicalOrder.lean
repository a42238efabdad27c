import Mathlib.Data.Fintype.Card
import Mathlib.Data.Set.Finite.List
import Mathlib.Logic.Relation
import TensorGraph.Graph.TopologicalOrder
import TensorGraph.Proofs.Minted

/-!
# `TensorGraph.Proofs.TopologicalOrder` — **what the sort orders**

The sort counts, per operator, the predecessors that are still to come, and follows successors to
count down. It can only be right when predecessors and successors are mirror images. Graphs of which
that holds are `Mirrored`; on them a step of the sort keeps `Inv`, and from it follows what the
finished order is: every operator exactly once whose chain of predecessors ends.

## Contents
- **Mirrored graphs** and the relation `Precedes`.
- **The invariant** `Inv`, kept by `release` (one successor counted down), by taking the least ready
  operator, by a `step`, and so by a `run`.
- **A sort that may fail**, `order?`: outside the arena, below zero or when steps run out. On
  mirrored graphs it does not (`order?_eq`).
- **The finished order.** `mem_topologicalOrder_iff`, `length_topologicalOrder_iff` and, for graphs
  whose links all lead forward, `topologicalOrder_eq_ids`.
-/

namespace TensorGraph

/-- Ids in strictly increasing order are listed once. -/
theorem Id.nodup_of_pairwise_lt {arena : Arena} {is : List (Id arena)}
    (h : is.Pairwise (· < ·)) : is.Nodup := by
  refine List.Pairwise.imp ?_ h
  intro i j hlt heq
  rw [heq] at hlt
  exact Id.lt_irrefl j hlt

namespace Graph

/-- The first operator makes an input of the second. -/
def Precedes (g : Graph) (a b : Node) : Prop :=
  a ∈ g.ops ∧ b ∈ g.ops ∧ a.id ∈ g.predecessors b

/-- Following links forward and backward leads to the same pairs of operators of the graph. -/
structure Mirrored (g : Graph) : Prop extends g.Minted where
  length_ops : g.ops.length ≤ UInt32.size
  mem_successors_iff : ∀ a ∈ g.ops, ∀ b ∈ g.ops, b.id ∈ g.successors a ↔ a.id ∈ g.predecessors b
  successor_known : ∀ a ∈ g.ops, ∀ i ∈ g.successors a, ∃ b ∈ g.ops, b.id = i
  predecessor_known : ∀ b ∈ g.ops, ∀ i ∈ g.predecessors b, ∃ a ∈ g.ops, a.id = i

namespace Mirrored

variable {g : Graph}

/-- An operator stands at the position that its id holds. -/
theorem getElem?_position (h : g.Mirrored) {n : Node} (hn : n ∈ g.ops) :
    g.ops[n.id.position]? = some n :=
  (findOperator_eq_some_iff.mp (h.findOperator_id h.length_ops hn)).2

theorem eq_of_id_eq (h : g.Mirrored) {m n : Node} (hm : m ∈ g.ops) (hn : n ∈ g.ops)
    (hid : m.id = n.id) : m = n :=
  h.operator_eq_of_id_eq h.length_ops hm hn hid

/-- The ids of the operators, in the order of the arena, increase. -/
theorem pairwise_ids (h : g.Mirrored) : (g.ops.map Node.id).Pairwise (· < ·) := by
  rw [List.pairwise_map, List.pairwise_iff_getElem]
  intro j k hj hk hjk
  have hidj := h.operator_id j _ (List.getElem?_eq_getElem hj)
  have hidk := h.operator_id k _ (List.getElem?_eq_getElem hk)
  rw [hidj, hidk, Id.lt_def]
  have hsize := h.length_ops
  refine Or.inr ⟨rfl, ?_⟩
  rw [Id.position_mint_of_lt _ (by omega), Id.position_mint_of_lt _ (by omega)]
  exact hjk

theorem nodup_ids (h : g.Mirrored) : (g.ops.map Node.id).Nodup :=
  Id.nodup_of_pairwise_lt h.pairwise_ids

theorem successorsOf_id (h : g.Mirrored) {n : Node} (hn : n ∈ g.ops) :
    TopologicalSort.successorsOf g n.id = g.successors n := by
  unfold TopologicalSort.successorsOf
  rw [h.getElem?_position hn]

end Mirrored

theorem nodup_predecessors (g : Graph) (n : Node) : (g.predecessors n).Nodup :=
  Id.nodup_of_pairwise_lt (Id.pairwise_sortDistinct _)

theorem nodup_successors (g : Graph) (n : Node) : (g.successors n).Nodup :=
  Id.nodup_of_pairwise_lt (Id.pairwise_sortDistinct _)

end Graph

namespace TopologicalSort

variable {g : Graph}

/-! ## The invariant -/

/-- **The invariant of the sort.** `pending` are the successors of the operator ordered last that
    were not counted down yet; between two steps there are none. -/
structure Inv (g : Graph) (pending : List OperatorId) (s : State) : Prop where
  waiting : ∀ n ∈ g.ops, s.waiting[n.id.position]? =
    some ((g.predecessors n).countP (· ∉ s.order) + if n.id ∈ pending then 1 else 0)
  mem_ready_iff : ∀ n ∈ g.ops, n.id ∈ s.ready ↔
    n.id ∉ s.order ∧ n.id ∉ pending ∧ ∀ p ∈ g.predecessors n, p ∈ s.order
  ready_known : ∀ i ∈ s.ready, ∃ n ∈ g.ops, n.id = i
  pairwise_ready : s.ready.Pairwise (· < ·)
  nodup_order : s.order.Nodup
  order_known : ∀ i ∈ s.order, ∃ n ∈ g.ops, n.id = i
  placed : ∀ n ∈ g.ops, ∀ k, s.order[k]? = some n.id →
    ∀ p ∈ g.predecessors n, p ∈ s.order.take k
  nodup_pending : pending.Nodup
  pending_known : ∀ i ∈ pending, ∃ n ∈ g.ops, n.id = i
  pending_not_mem : ∀ i ∈ pending, i ∉ s.order

/-- What is ordered has its predecessors ordered. -/
theorem Inv.predecessors_mem {pending : List OperatorId} {s : State} (h : Inv g pending s)
    {n : Node} (hn : n ∈ g.ops) (hmem : n.id ∈ s.order) : ∀ p ∈ g.predecessors n, p ∈ s.order := by
  intro p hp
  obtain ⟨k, hk⟩ := List.mem_iff_getElem?.mp hmem
  exact List.mem_of_mem_take (h.placed n hn k hk p hp)

/-- Ordering one more operator takes it off the count of those that wait for it. -/
theorem countP_not_mem_snoc {preds order : List OperatorId} {i : OperatorId} (hpreds : preds.Nodup)
    (hi : i ∉ order) :
    preds.countP (· ∉ order) = preds.countP (· ∉ order ++ [i]) + if i ∈ preds then 1 else 0 := by
  induction preds with
  | nil => simp
  | cons p preds ih =>
      obtain ⟨hp, hrest⟩ := List.nodup_cons.mp hpreds
      rw [List.countP_cons, List.countP_cons, ih hrest]
      by_cases hpi : p = i
      · subst hpi
        simp [hp, hi]
      · have hip : ¬ i = p := fun h => hpi h.symm
        have hsame : p ∉ order ++ [i] ↔ p ∉ order := by simp [hpi]
        have hmem : i ∈ p :: preds ↔ i ∈ preds := by simp [hip]
        simp only [hsame, hmem]
        omega

/-- The sort starts with nothing ordered and those ready that have no predecessors. -/
theorem inv_start (hg : g.Mirrored) : Inv g [] (start g) := by
  have hwaiting : ∀ n ∈ g.ops,
      (g.ops.map fun n => (g.predecessors n).length)[n.id.position]? =
        some (g.predecessors n).length := by
    intro n hn
    rw [List.getElem?_map, hg.getElem?_position hn]
    rfl
  constructor
  · intro n hn
    simpa [start] using hwaiting n hn
  · intro n hn
    simp only [start, Id.mem_sortDistinct, List.mem_map, List.mem_filter, List.not_mem_nil,
      not_false_eq_true, true_and, imp_false]
    constructor
    · rintro ⟨m, ⟨hm, hzero⟩, hid⟩
      rw [hg.eq_of_id_eq hm hn hid, hwaiting n hn] at hzero
      have hnil : g.predecessors n = [] := by simpa using hzero
      simp [hnil]
    · intro hnone
      have hnil : g.predecessors n = [] := List.eq_nil_iff_forall_not_mem.mpr hnone
      exact ⟨n, ⟨hn, by rw [hwaiting n hn, hnil]; rfl⟩, rfl⟩
  · intro i hi
    simp only [start, Id.mem_sortDistinct, List.mem_map, List.mem_filter] at hi
    obtain ⟨n, ⟨hn, _⟩, hid⟩ := hi
    exact ⟨n, hn, hid⟩
  · exact Id.pairwise_sortDistinct _
  all_goals simp [start]

/-- Counting a waiting operator down makes it ready when it waited for one more only. -/
theorem release_eq {s : State} {i : OperatorId} {left : Nat}
    (h : s.waiting[i.position]? = some (left + 1)) :
    release s i =
      { s with
        waiting := s.waiting.set i.position left
        ready := if left = 0 then Id.insertSorted i s.ready else s.ready } := by
  unfold release
  rw [h]
  cases left with
  | zero => rfl
  | succ left => rfl

/-- Before it is counted down, a pending operator is one ahead of the predecessors to come. -/
theorem Inv.waiting_of_pending {n : Node} {pending : List OperatorId} {s : State}
    (h : Inv g (n.id :: pending) s) (hn : n ∈ g.ops) :
    s.waiting[n.id.position]? = some ((g.predecessors n).countP (· ∉ s.order) + 1) := by
  have hcount := h.waiting n hn
  rwa [if_pos List.mem_cons_self] at hcount

theorem countP_not_mem_eq_zero_iff {preds order : List OperatorId} :
    preds.countP (· ∉ order) = 0 ↔ ∀ p ∈ preds, p ∈ order := by
  simp [List.countP_eq_zero]

/-- Counting one operator down leaves the counts of the others. -/
theorem Inv.waiting_release (hg : g.Mirrored) {n : Node} (hn : n ∈ g.ops)
    {pending : List OperatorId} {s : State} (h : Inv g (n.id :: pending) s) {m : Node}
    (hm : m ∈ g.ops) :
    (s.waiting.set n.id.position ((g.predecessors n).countP (· ∉ s.order)))[m.id.position]? =
      some ((g.predecessors m).countP (· ∉ s.order) + if m.id ∈ pending then 1 else 0) := by
  have hi : n.id ∉ pending := (List.nodup_cons.mp h.nodup_pending).1
  by_cases hmn : m = n
  · subst hmn
    have hcount := h.waiting_of_pending hm
    have hlt : m.id.position < s.waiting.length := (List.getElem?_eq_some_iff.mp hcount).1
    rw [List.getElem?_set_self hlt, if_neg hi, Nat.add_zero]
  · have hid : m.id ≠ n.id := fun hid => hmn (hg.eq_of_id_eq hm hn hid)
    have hpos : n.id.position ≠ m.id.position := by
      intro hpos
      have hplace := hg.getElem?_position hn
      rw [hpos, hg.getElem?_position hm] at hplace
      exact hmn (Option.some.inj hplace)
    rw [List.getElem?_set_ne hpos, h.waiting m hm]
    simp [hid]

/-- The operator that is counted down becomes ready when no predecessor is still to come; for the
    others nothing changes. -/
theorem Inv.mem_ready_release_iff (hg : g.Mirrored) {n : Node} (hn : n ∈ g.ops)
    {pending : List OperatorId} {s : State} (h : Inv g (n.id :: pending) s) {m : Node}
    (hm : m ∈ g.ops) :
    m.id ∈ (if (g.predecessors n).countP (· ∉ s.order) = 0 then Id.insertSorted n.id s.ready
        else s.ready) ↔
      m.id ∉ s.order ∧ m.id ∉ pending ∧ ∀ p ∈ g.predecessors m, p ∈ s.order := by
  have hi : n.id ∉ pending := (List.nodup_cons.mp h.nodup_pending).1
  have hnot : n.id ∉ s.order := h.pending_not_mem n.id List.mem_cons_self
  have hready := h.mem_ready_iff m hm
  rw [List.mem_cons, not_or] at hready
  by_cases hmn : m = n
  · subst hmn
    have hold : m.id ∉ s.ready := fun hmem => (hready.mp hmem).2.1.1 rfl
    split
    · rename_i hzero
      have hall := countP_not_mem_eq_zero_iff.mp hzero
      simpa [hnot, hi] using hall
    · rename_i hzero
      simp only [hold, hnot, hi, not_false_eq_true, true_and, false_iff]
      exact fun hall => hzero (countP_not_mem_eq_zero_iff.mpr hall)
  · have hid : m.id ≠ n.id := fun hid => hmn (hg.eq_of_id_eq hm hn hid)
    have hsame : m.id ∈ (if (g.predecessors n).countP (· ∉ s.order) = 0 then
        Id.insertSorted n.id s.ready else s.ready) ↔ m.id ∈ s.ready := by
      split <;> simp [hid]
    rw [hsame, hready]
    simp [hid]

/-- **Counting down** the next pending successor keeps the invariant. -/
theorem Inv.release (hg : g.Mirrored) {i : OperatorId} {pending : List OperatorId} {s : State}
    (h : Inv g (i :: pending) s) : Inv g pending (release s i) := by
  obtain ⟨n, hn, rfl⟩ := h.pending_known i List.mem_cons_self
  rw [release_eq (h.waiting_of_pending hn)]
  exact
    { waiting := fun m hm => h.waiting_release hg hn hm
      mem_ready_iff := fun m hm => h.mem_ready_release_iff hg hn hm
      ready_known := by
        intro j hj
        dsimp only at hj
        split at hj
        · rcases Id.mem_insertSorted.mp hj with rfl | hj
          · exact ⟨n, hn, rfl⟩
          · exact h.ready_known j hj
        · exact h.ready_known j hj
      pairwise_ready := by
        dsimp only
        split
        · exact Id.pairwise_insertSorted h.pairwise_ready
        · exact h.pairwise_ready
      nodup_order := h.nodup_order
      order_known := h.order_known
      placed := h.placed
      nodup_pending := (List.nodup_cons.mp h.nodup_pending).2
      pending_known := fun j hj => h.pending_known j (List.mem_cons_of_mem _ hj)
      pending_not_mem := fun j hj => h.pending_not_mem j (List.mem_cons_of_mem _ hj) }

/-- Counting down all pending successors leaves none pending. -/
theorem Inv.foldl_release (hg : g.Mirrored) {pending : List OperatorId} :
    ∀ {s : State}, Inv g pending s → Inv g [] (pending.foldl TopologicalSort.release s) := by
  induction pending with
  | nil => exact fun h => h
  | cons i pending ih => exact fun h => ih (h.release hg)

/-- A ready operator is not ordered yet, and its predecessors are. -/
theorem Inv.of_mem_ready {pending : List OperatorId} {s : State} (h : Inv g pending s) {n : Node}
    (hn : n ∈ g.ops) (hready : n.id ∈ s.ready) :
    n.id ∉ s.order ∧ ∀ p ∈ g.predecessors n, p ∈ s.order := by
  obtain ⟨hnew, -, hpreds⟩ := (h.mem_ready_iff n hn).mp hready
  exact ⟨hnew, hpreds⟩

/-- What a ready operator makes an input of cannot be ordered yet: it would have come after. -/
theorem Inv.successor_not_ordered (hg : g.Mirrored) {n : Node} (hn : n ∈ g.ops) {s : State}
    (h : Inv g [] s) (hready : n.id ∈ s.ready) {m : Node} (hm : m ∈ g.ops)
    (hprec : n.id ∈ g.predecessors m) : m.id ∉ s.order ++ [n.id] := by
  obtain ⟨hnew, hpreds⟩ := h.of_mem_ready hn hready
  intro hmem
  rcases List.mem_append.mp hmem with hold | hlast
  · exact hnew (h.predecessors_mem hm hold n.id hprec)
  · rw [hg.eq_of_id_eq hm hn (List.mem_singleton.mp hlast)] at hprec
    exact hnew (hpreds n.id hprec)

/-- Once an operator is taken, those stay ready that do not read what it makes. -/
theorem Inv.mem_ready_take_iff (hg : g.Mirrored) {n : Node} (hn : n ∈ g.ops)
    {rest : List OperatorId} {s : State} (h : Inv g [] s) (hready : s.ready = n.id :: rest)
    {m : Node} (hm : m ∈ g.ops) :
    m.id ∈ rest ↔ m.id ∉ s.order ++ [n.id] ∧ m.id ∉ g.successors n ∧
      ∀ p ∈ g.predecessors m, p ∈ s.order ++ [n.id] := by
  have hnew := (h.of_mem_ready hn (hready ▸ List.mem_cons_self)).1
  have hnodup : (n.id :: rest).Nodup := hready ▸ Id.nodup_of_pairwise_lt h.pairwise_ready
  have hmem := h.mem_ready_iff m hm
  rw [hready] at hmem
  rw [hg.mem_successors_iff n hn m hm]
  constructor
  · intro hrest
    obtain ⟨hold, -, hall⟩ := hmem.mp (List.mem_cons_of_mem _ hrest)
    have hne : m.id ≠ n.id := fun hid => (List.nodup_cons.mp hnodup).1 (hid ▸ hrest)
    refine ⟨by simp [hold, hne], fun hprec => hnew (hall n.id hprec), ?_⟩
    exact fun p hp => List.mem_append_left _ (hall p hp)
  · rintro ⟨hold, hprec, hall⟩
    simp only [List.mem_append, List.mem_singleton, not_or] at hold
    have hall' : ∀ p ∈ g.predecessors m, p ∈ s.order := by
      intro p hp
      rcases List.mem_append.mp (hall p hp) with hp' | hp'
      · exact hp'
      · exact absurd (List.mem_singleton.mp hp' ▸ hp) hprec
    have hcons := hmem.mpr ⟨hold.1, List.not_mem_nil, hall'⟩
    exact (List.mem_cons.mp hcons).resolve_left hold.2

/-- What is ordered last has its predecessors before it, too. -/
theorem Inv.placed_take (hg : g.Mirrored) {n : Node} (hn : n ∈ g.ops) {s : State} (h : Inv g [] s)
    (hready : n.id ∈ s.ready) {m : Node} (hm : m ∈ g.ops) {k : Nat}
    (hk : (s.order ++ [n.id])[k]? = some m.id) :
    ∀ p ∈ g.predecessors m, p ∈ (s.order ++ [n.id]).take k := by
  intro p hp
  rcases Nat.lt_or_ge k s.order.length with hlt | hge
  · rw [List.getElem?_append_left hlt] at hk
    rw [List.take_append_of_le_length (Nat.le_of_lt hlt)]
    exact h.placed m hm k hk p hp
  · rw [List.getElem?_append_right hge, List.getElem?_singleton] at hk
    split at hk
    · have hid : n.id = m.id := Option.some.inj hk
      have hkeq : k = s.order.length := by omega
      rw [hkeq, List.take_append_of_le_length (Nat.le_refl _), List.take_length]
      exact (h.of_mem_ready hn hready).2 p (hg.eq_of_id_eq hm hn hid.symm ▸ hp)
    · cases hk

/-- **Taking** the least ready operator makes its successors pending. -/
theorem Inv.take (hg : g.Mirrored) {i : OperatorId} {rest : List OperatorId} {s : State}
    (h : Inv g [] s) (hready : s.ready = i :: rest) :
    Inv g (successorsOf g i) { s with ready := rest, order := s.order ++ [i] } := by
  have hi : i ∈ s.ready := hready ▸ List.mem_cons_self
  obtain ⟨n, hn, rfl⟩ := h.ready_known i hi
  have hnew := (h.of_mem_ready hn hi).1
  rw [hg.successorsOf_id hn]
  exact
    { waiting := by
        intro m hm
        have hcount := h.waiting m hm
        rw [countP_not_mem_snoc (g.nodup_predecessors m) hnew] at hcount
        simpa [hg.mem_successors_iff n hn m hm] using hcount
      mem_ready_iff := fun m hm => h.mem_ready_take_iff hg hn hready hm
      ready_known := fun j hj => h.ready_known j (hready ▸ List.mem_cons_of_mem _ hj)
      pairwise_ready := (List.pairwise_cons.mp (hready ▸ h.pairwise_ready)).2
      nodup_order := by
        rw [List.nodup_append_comm, List.singleton_append]
        exact List.nodup_cons.mpr ⟨hnew, h.nodup_order⟩
      order_known := by
        intro j hj
        rcases List.mem_append.mp hj with hj | hj
        · exact h.order_known j hj
        · exact ⟨n, hn, (List.mem_singleton.mp hj).symm⟩
      placed := fun m hm k hk => h.placed_take hg hn hi hm hk
      nodup_pending := g.nodup_successors n
      pending_known := fun j hj => hg.successor_known n hn j hj
      pending_not_mem := by
        intro j hj
        obtain ⟨m, hm, rfl⟩ := hg.successor_known n hn j hj
        exact h.successor_not_ordered hg hn hi hm ((hg.mem_successors_iff n hn m hm).mp hj) }

/-! ## Steps and runs -/

/-- **A step keeps the invariant.** -/
theorem Inv.step (hg : g.Mirrored) {s : State} (h : Inv g [] s) : Inv g [] (step g s) := by
  unfold TopologicalSort.step
  split
  · exact h
  · rename_i i rest hready
    exact (h.take hg hready).foldl_release hg

/-- **A run keeps the invariant.** -/
theorem Inv.run (hg : g.Mirrored) :
    ∀ (fuel : Nat) {s : State}, Inv g [] s → Inv g [] (run g fuel s)
  | 0, _, h => h
  | fuel + 1, _, h => Inv.run hg fuel (h.step hg)

theorem order_foldl_release (pending : List OperatorId) (s : State) :
    (pending.foldl release s).order = s.order := by
  induction pending generalizing s with
  | nil => rfl
  | cons i pending ih =>
      rw [List.foldl_cons, ih]
      unfold release
      split <;> rfl

/-- A step without ready operators changes nothing. -/
theorem step_of_ready_eq_nil {s : State} (h : s.ready = []) : step g s = s := by
  unfold step
  rw [h]

/-- A step with ready operators orders the least of them. -/
theorem order_step {s : State} {i : OperatorId} {rest : List OperatorId}
    (h : s.ready = i :: rest) : (step g s).order = s.order ++ [i] := by
  unfold step
  rw [h]
  exact order_foldl_release _ _

/-- A run without ready operators changes nothing. -/
theorem run_of_ready_eq_nil (fuel : Nat) {s : State} (h : s.ready = []) : run g fuel s = s := by
  induction fuel with
  | zero => rfl
  | succ fuel ih => rw [run, step_of_ready_eq_nil h, ih]

/-- A run has ordered an operator at each step, unless it ran out of ready ones. -/
theorem ready_run_eq_nil_or (fuel : Nat) (s : State) :
    (run g fuel s).ready = [] ∨ (run g fuel s).order.length = s.order.length + fuel := by
  induction fuel generalizing s with
  | zero => exact Or.inr rfl
  | succ fuel ih =>
      rcases ih (step g s) with hnil | hlength
      · exact Or.inl hnil
      · cases hready : s.ready with
        | nil =>
            left
            rw [run_of_ready_eq_nil _ hready]
            exact hready
        | cons i rest =>
            right
            rw [run, hlength, order_step hready, List.length_append, List.length_singleton]
            omega

/-- Every operator is ordered at most once, so no more are ordered than there are. -/
theorem Inv.length_order_le {pending : List OperatorId} {s : State} (h : Inv g pending s) :
    s.order.length ≤ g.ops.length := by
  have hsub : s.order ⊆ g.ops.map Node.id := by
    intro i hi
    obtain ⟨n, hn, hid⟩ := h.order_known i hi
    exact List.mem_map.mpr ⟨n, hn, hid⟩
  have hle := (List.subperm_of_subset h.nodup_order hsub).length_le
  rwa [List.length_map] at hle

/-- **The sort ends.** Twice as many steps as there are operators leave none ready. -/
theorem ready_run_eq_nil (hg : g.Mirrored) : (run g (2 * g.ops.length) (start g)).ready = [] := by
  have hinv : Inv g [] (run g (2 * g.ops.length) (start g)) := (inv_start hg).run hg _
  rcases ready_run_eq_nil_or (2 * g.ops.length) (start g) with hnil | hlength
  · exact hnil
  · have hle := hinv.length_order_le
    have hzero : g.ops.length = 0 := by omega
    refine List.eq_nil_iff_forall_not_mem.mpr fun i hi => ?_
    obtain ⟨n, hn, -⟩ := hinv.ready_known i hi
    rw [List.length_eq_zero_iff.mp hzero] at hn
    exact List.not_mem_nil hn

/-! ## A sort that may fail -/

/-- Counts a waiting operator down. Fails outside the arena and where the count is zero. -/
def release? (s : State) (i : OperatorId) : Option State :=
  match s.waiting[i.position]? with
  | some (_ + 1) => some (release s i)
  | _ => none

/-- Orders the least ready operator. Fails where the id leads outside the arena. -/
def step? (g : Graph) (s : State) : Option State :=
  match s.ready with
  | [] => some s
  | i :: rest => do
    let n ← g.ops[i.position]?
    (g.successors n).foldlM release? { s with ready := rest, order := s.order ++ [i] }

/-- A number of steps, none of which fails. -/
def run? (g : Graph) : Nat → State → Option State
  | 0, s => some s
  | fuel + 1, s => do
    let s ← step? g s
    run? g fuel s

/-- The start, where the id of each operator leads into the arena. -/
def start? (g : Graph) : Option State :=
  if ∀ n ∈ g.ops, n.id.position < g.ops.length then some (start g) else none

/-- The order, where nothing fails on the way and no operator is left ready. -/
def order? (g : Graph) : Option (List OperatorId) := do
  let s ← start? g
  let s ← run? g (2 * g.ops.length) s
  if s.ready = [] then some s.order else none

/-- A pending operator is counted, so it can be counted down. -/
theorem release?_eq {i : OperatorId} {pending : List OperatorId} {s : State}
    (h : Inv g (i :: pending) s) : release? s i = some (release s i) := by
  obtain ⟨n, hn, rfl⟩ := h.pending_known i List.mem_cons_self
  unfold release?
  rw [h.waiting_of_pending hn]

theorem foldlM_release?_eq (hg : g.Mirrored) {pending : List OperatorId} {s : State}
    (h : Inv g pending s) : pending.foldlM release? s = some (pending.foldl release s) := by
  induction pending generalizing s with
  | nil => rfl
  | cons i pending ih =>
      rw [List.foldlM_cons, release?_eq h]
      exact ih (h.release hg)

/-- **No step fails.** -/
theorem step?_eq (hg : g.Mirrored) {s : State} (h : Inv g [] s) : step? g s = some (step g s) := by
  cases hready : s.ready with
  | nil =>
      rw [step_of_ready_eq_nil hready]
      unfold step?
      rw [hready]
  | cons i rest =>
      -- Taking the operator makes its successors pending, each of which is counted.
      have htake := h.take hg hready
      obtain ⟨n, hn, rfl⟩ := h.ready_known i (hready ▸ List.mem_cons_self)
      have hsteps := foldlM_release?_eq hg htake
      rw [hg.successorsOf_id hn] at hsteps
      unfold step? step
      rw [hready]
      simp only [hg.getElem?_position hn, hg.successorsOf_id hn]
      exact hsteps

theorem run?_eq (hg : g.Mirrored) (fuel : Nat) {s : State} (h : Inv g [] s) :
    run? g fuel s = some (run g fuel s) := by
  induction fuel generalizing s with
  | zero => rfl
  | succ fuel ih =>
      rw [run?, step?_eq hg h]
      exact ih (h.step hg)

/-- **The sort does not fail** where predecessors and successors mirror each other. -/
theorem order?_eq (hg : g.Mirrored) : order? g = some g.topologicalOrder := by
  have hinside : ∀ n ∈ g.ops, n.id.position < g.ops.length := fun n hn =>
    (List.getElem?_eq_some_iff.mp (hg.getElem?_position hn)).1
  unfold order? start?
  rw [if_pos hinside]
  show (run? g (2 * g.ops.length) (start g)).bind _ = _
  rw [run?_eq hg _ (inv_start hg), Option.bind_some, if_pos (ready_run_eq_nil hg)]
  rfl

end TopologicalSort

namespace Graph

variable {g : Graph}

open TopologicalSort

/-! ## The finished order -/

namespace Mirrored

theorem inv_topologicalOrder (h : g.Mirrored) :
    Inv g [] (TopologicalSort.run g (2 * g.ops.length) (start g)) :=
  (inv_start h).run h _

theorem nodup_topologicalOrder (h : g.Mirrored) : g.topologicalOrder.Nodup :=
  h.inv_topologicalOrder.nodup_order

/-- Each operator comes after its predecessors. -/
theorem predecessors_mem_take (h : g.Mirrored) {n : Node} (hn : n ∈ g.ops) {k : Nat}
    (hk : g.topologicalOrder[k]? = some n.id) :
    ∀ p ∈ g.predecessors n, p ∈ g.topologicalOrder.take k :=
  h.inv_topologicalOrder.placed n hn k hk

/-- An operator is ordered as soon as its predecessors are. -/
theorem id_mem_topologicalOrder (h : g.Mirrored) {n : Node} (hn : n ∈ g.ops)
    (hpreds : ∀ p ∈ g.predecessors n, p ∈ g.topologicalOrder) : n.id ∈ g.topologicalOrder := by
  by_contra hnot
  have hready := (h.inv_topologicalOrder.mem_ready_iff n hn).mpr
    ⟨hnot, List.not_mem_nil, hpreds⟩
  rw [ready_run_eq_nil h] at hready
  exact List.not_mem_nil hready

/-- What stands in the order has a chain of predecessors that ends. -/
theorem acc_of_getElem? (h : g.Mirrored) (k : Nat) :
    ∀ n ∈ g.ops, g.topologicalOrder[k]? = some n.id → Acc g.Precedes n := by
  induction k using Nat.strong_induction_on with
  | _ k ih =>
      intro n hn hk
      refine Acc.intro n fun m hprec => ?_
      have hmem := h.predecessors_mem_take hn hk m.id hprec.2.2
      obtain ⟨j, hj⟩ := List.mem_iff_getElem?.mp hmem
      rw [List.getElem?_take] at hj
      split at hj
      · rename_i hlt
        exact ih j hlt m hprec.1 hj
      · cases hj

/-- **The sort orders exactly the operators whose chains of predecessors end.** -/
theorem mem_topologicalOrder_iff (h : g.Mirrored) {n : Node} (hn : n ∈ g.ops) :
    n.id ∈ g.topologicalOrder ↔ Acc g.Precedes n := by
  constructor
  · intro hmem
    obtain ⟨k, hk⟩ := List.mem_iff_getElem?.mp hmem
    exact h.acc_of_getElem? k n hn hk
  · intro hacc
    induction hacc with
    | intro n _ ih =>
        refine h.id_mem_topologicalOrder hn fun p hp => ?_
        obtain ⟨m, hm, rfl⟩ := h.predecessor_known n hn p hp
        exact ih m ⟨hm, hn, hp⟩ hm

theorem topologicalOrder_subset_ids (h : g.Mirrored) :
    g.topologicalOrder ⊆ g.ops.map Node.id := by
  intro i hi
  obtain ⟨n, hn, hid⟩ := h.inv_topologicalOrder.order_known i hi
  exact List.mem_map.mpr ⟨n, hn, hid⟩

/-- The order is as long as the arena when every operator stands in it. -/
theorem length_topologicalOrder_eq_iff_forall (h : g.Mirrored) :
    g.topologicalOrder.length = g.ops.length ↔ ∀ n ∈ g.ops, n.id ∈ g.topologicalOrder := by
  have hsub := List.subperm_of_subset h.nodup_topologicalOrder h.topologicalOrder_subset_ids
  constructor
  · intro hlength n hn
    have hperm := hsub.perm_of_length_le (by rw [List.length_map, hlength])
    exact hperm.mem_iff.mpr (List.mem_map_of_mem hn)
  · intro hall
    have hids : g.ops.map Node.id ⊆ g.topologicalOrder := by
      intro i hi
      obtain ⟨n, hn, rfl⟩ := List.mem_map.mp hi
      exact hall n hn
    have hge := (List.subperm_of_subset h.nodup_ids hids).length_le
    rw [List.length_map] at hge
    exact Nat.le_antisymm (List.length_map (f := Node.id) ▸ hsub.length_le) hge

end Mirrored

/-- No element with an ending chain stands in a relation to itself. -/
theorem not_rel_self_of_acc {α : Type} {r : α → α → Prop} {a : α} (h : Acc r a) : ¬ r a a := by
  induction h with
  | intro a _ ih => exact fun hself => ih a hself hself

/-- The chains of predecessors end exactly when there is no cycle: operators are finitely many. -/
theorem forall_acc_iff_acyclic :
    (∀ n ∈ g.ops, Acc g.Precedes n) ↔ ∀ n, ¬ Relation.TransGen g.Precedes n n := by
  constructor
  · intro hacc n hcycle
    obtain ⟨m, hstep, -⟩ := Relation.TransGen.head'_iff.mp hcycle
    exact not_rel_self_of_acc (hacc n hstep.1).transGen hcycle
  · intro hacyclic n hn
    let chain : {n // n ∈ g.ops} → {n // n ∈ g.ops} → Prop :=
      fun a b => Relation.TransGen g.Precedes a.1 b.1
    have : Finite {n // n ∈ g.ops} := List.finite_toSet g.ops
    have : IsTrans _ chain := ⟨fun _ _ _ hab hbc => hab.trans hbc⟩
    have : Std.Irrefl chain := ⟨fun a => hacyclic a.1⟩
    have hwf : WellFounded chain := Finite.wellFounded_of_trans_of_irrefl chain
    refine hwf.induction (C := fun a => Acc g.Precedes a.1) ⟨n, hn⟩ fun a ih => ?_
    exact Acc.intro a.1 fun m hprec => ih ⟨m, hprec.1⟩ (Relation.TransGen.single hprec)

/-- **Every operator can be ordered** exactly when no operator precedes itself. -/
theorem Mirrored.length_topologicalOrder_iff (h : g.Mirrored) :
    g.topologicalOrder.length = g.ops.length ↔ ∀ n, ¬ Relation.TransGen g.Precedes n n := by
  rw [h.length_topologicalOrder_eq_iff_forall, ← forall_acc_iff_acyclic]
  exact forall₂_congr fun n hn => h.mem_topologicalOrder_iff hn

/-! ## Graphs whose links lead forward -/

namespace Mirrored

/-- Operators with smaller ids stand earlier in the arena. -/
theorem id_mem_take_of_lt (h : g.Mirrored) {k : Nat} {m n : Node} (hm : g.ops[k]? = some m)
    (hn : n ∈ g.ops) (hlt : n.id < m.id) : n.id ∈ (g.ops.map Node.id).take k := by
  obtain ⟨j, hj⟩ := List.mem_iff_getElem?.mp hn
  have hjk : j < k := by
    by_contra hge
    rcases Nat.eq_or_lt_of_le (Nat.le_of_not_lt hge) with heq | hkj
    · subst heq
      rw [hm] at hj
      rw [Option.some.inj hj] at hlt
      exact Id.lt_irrefl _ hlt
    · obtain ⟨hk', rfl⟩ := List.getElem?_eq_some_iff.mp hm
      obtain ⟨hj', rfl⟩ := List.getElem?_eq_some_iff.mp hj
      have hsorted := List.pairwise_map.mp h.pairwise_ids
      have hgt := List.pairwise_iff_getElem.mp hsorted k j hk' hj' hkj
      exact Id.lt_irrefl _ (Id.lt_trans hlt hgt)
  refine List.mem_iff_getElem?.mpr ⟨j, ?_⟩
  rw [List.getElem?_take_of_lt hjk, List.getElem?_map, hj]
  rfl

section Forward

variable {s : State}

/-- While something is ready, not all operators are ordered. -/
theorem length_order_lt (hinv : Inv g [] s)
    (hfirst : s.order = (g.ops.map Node.id).take s.order.length) {n : Node} (hn : n ∈ g.ops)
    (hready : n.id ∈ s.ready) : s.order.length < g.ops.length := by
  by_contra hge
  have hnew := (hinv.of_mem_ready hn hready).1
  rw [hfirst, List.take_of_length_le (by rw [List.length_map]; omega)] at hnew
  exact hnew (List.mem_map_of_mem hn)

/-- The entry at a position is not among those before it. -/
theorem id_not_mem_take (h : g.Mirrored) {k : Nat} {m : Node} (hm : g.ops[k]? = some m) :
    m.id ∉ (g.ops.map Node.id).take k := by
  intro hmem
  obtain ⟨j, hj⟩ := List.mem_iff_getElem?.mp hmem
  rw [List.getElem?_take] at hj
  split at hj
  · rename_i hjk
    have hk : (g.ops.map Node.id)[k]? = some m.id := by
      rw [List.getElem?_map, hm]
      rfl
    have hjlt : j < (g.ops.map Node.id).length := (List.getElem?_eq_some_iff.mp hj).1
    have heq : j = k := (List.getElem?_inj hjlt h.nodup_ids).mp (hj.trans hk.symm)
    omega
  · cases hj

/-- While links lead forward and the operators ordered are the first ones of the arena, the next
    one of the arena is ready. -/
theorem next_mem_ready (h : g.Mirrored)
    (hforward : ∀ n ∈ g.ops, ∀ p ∈ g.predecessors n, p < n.id) (hinv : Inv g [] s)
    (hfirst : s.order = (g.ops.map Node.id).take s.order.length) {m : Node}
    (hplace : g.ops[s.order.length]? = some m) : m.id ∈ s.ready := by
  have hm : m ∈ g.ops := List.mem_of_getElem? hplace
  refine (hinv.mem_ready_iff m hm).mpr ⟨?_, List.not_mem_nil, fun p hp => ?_⟩
  · rw [hfirst]
    exact h.id_not_mem_take hplace
  · obtain ⟨q, hq, rfl⟩ := h.predecessor_known m hm p hp
    rw [hfirst]
    exact h.id_mem_take_of_lt hplace hq (hforward m hm q.id hp)

/-- While links lead forward, a step orders the next operator of the arena, if any. -/
theorem order_step_of_forward (h : g.Mirrored)
    (hforward : ∀ n ∈ g.ops, ∀ p ∈ g.predecessors n, p < n.id) (hinv : Inv g [] s)
    (hfirst : s.order = (g.ops.map Node.id).take s.order.length) :
    (step g s).order = (g.ops.map Node.id).take (step g s).order.length := by
  cases hready : s.ready with
  | nil => rwa [step_of_ready_eq_nil hready]
  | cons i rest =>
      have hi : i ∈ s.ready := hready ▸ List.mem_cons_self
      obtain ⟨n, hn, rfl⟩ := hinv.ready_known i hi
      have hlt : s.order.length < g.ops.length := length_order_lt hinv hfirst hn hi
      have hplace := List.getElem?_eq_getElem hlt
      have hnext := h.next_mem_ready hforward hinv hfirst hplace
      -- Nothing less than the next operator is ready: it would be ordered already.
      have hleast : g.ops[s.order.length].id = n.id := by
        rcases List.mem_cons.mp (hready ▸ hnext) with heq | hrest
        · exact heq
        · have hsorted := hready ▸ hinv.pairwise_ready
          have hless := (List.pairwise_cons.mp hsorted).1 _ hrest
          have hordered := h.id_mem_take_of_lt hplace hn hless
          rw [← hfirst] at hordered
          exact absurd hordered (hinv.of_mem_ready hn hi).1
      rw [order_step hready, List.length_append, List.length_singleton, List.take_add_one,
        List.getElem?_map, hplace, ← hfirst, ← hleast]
      rfl

theorem order_run_of_forward (h : g.Mirrored)
    (hforward : ∀ n ∈ g.ops, ∀ p ∈ g.predecessors n, p < n.id) (fuel : Nat)
    (hinv : Inv g [] s) (hfirst : s.order = (g.ops.map Node.id).take s.order.length) :
    (TopologicalSort.run g fuel s).order =
      (g.ops.map Node.id).take (TopologicalSort.run g fuel s).order.length := by
  induction fuel generalizing s with
  | zero => exact hfirst
  | succ fuel ih => exact ih (hinv.step h) (h.order_step_of_forward hforward hinv hfirst)

end Forward

/-- Operators whose predecessors all have smaller ids have ending chains of predecessors. -/
theorem acyclic_of_forward (hforward : ∀ n ∈ g.ops, ∀ p ∈ g.predecessors n, p < n.id) (n : Node) :
    ¬ Relation.TransGen g.Precedes n n := by
  have hlt : ∀ a b, Relation.TransGen g.Precedes a b → a.id < b.id := by
    intro a b hab
    induction hab with
    | single hprec => exact hforward _ hprec.2.1 _ hprec.2.2
    | tail _ hprec ih => exact Id.lt_trans ih (hforward _ hprec.2.1 _ hprec.2.2)
  exact fun hcycle => Id.lt_irrefl _ (hlt n n hcycle)

/-- **Links that lead forward** make the order of the arena the topological order. -/
theorem topologicalOrder_eq_ids (h : g.Mirrored)
    (hforward : ∀ n ∈ g.ops, ∀ p ∈ g.predecessors n, p < n.id) :
    g.topologicalOrder = g.ops.map Node.id := by
  have hlength := h.length_topologicalOrder_iff.mpr (acyclic_of_forward hforward)
  have hfirst := h.order_run_of_forward hforward (2 * g.ops.length) (inv_start h) rfl
  change g.topologicalOrder = (g.ops.map Node.id).take g.topologicalOrder.length at hfirst
  rw [hfirst, hlength, List.take_of_length_le (by rw [List.length_map])]

end Mirrored

end Graph

end TensorGraph

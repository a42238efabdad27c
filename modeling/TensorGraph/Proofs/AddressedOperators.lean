import TensorGraph.Graph.Edit
import TensorGraph.Proofs.LeastOrder

/-!
# `TensorGraph.Proofs.AddressedOperators` — **the sort on arenas of any size**

Ids hold a word, so they lead to the first `UInt32.size` operators of an arena and to no others,
however long the arena is. The checks of links do not refuse longer arenas, and the sort counts the
predecessors of all their operators; but it goes from operator to operator by ids. So on a longer
arena it does what it does on the part that ids lead to.

## Contents
- **The addressed part** of a graph, which passes the checks of links when the graph does.
- **The sort goes by ids**: its states on the graph are those on the addressed part, but for the
  counts that no id leads to.
- **The sort on linked arenas**: `sort_of_linked_arena`.
-/

namespace TensorGraph

theorem Id.position_lt {arena : Arena} (i : Id arena) : i.position < UInt32.size :=
  UInt32.toNat_lt i.index

/-- Increasing ids are determined by which ids there are. -/
theorem Id.eq_of_pairwise_lt {arena : Arena} {is js : List (Id arena)} (hi : is.Pairwise (· < ·))
    (hj : js.Pairwise (· < ·)) (h : ∀ i, i ∈ is ↔ i ∈ js) : is = js := by
  have hirrefl : Std.Irrefl (α := Id arena) (· < ·) := ⟨Id.lt_irrefl⟩
  have hantisymm : Std.Antisymm (α := Id arena) (· < ·) :=
    ⟨fun i j hij hji => absurd (Id.lt_trans hij hji) (Id.lt_irrefl i)⟩
  exact hi.eq_of_mem_iff hj h

namespace Graph

open TopologicalSort Checks

variable {g : Graph}

/-! ## The addressed part -/

/-- The graph with those operators only that ids lead to. -/
def addressed (g : Graph) : Graph := { g with ops := g.ops.take UInt32.size }

theorem length_ops_addressed_le (g : Graph) : g.addressed.ops.length ≤ UInt32.size :=
  List.length_take_le _ _

theorem getElem?_ops_addressed (g : Graph) (i : OperatorId) :
    g.addressed.ops[i.position]? = g.ops[i.position]? :=
  List.getElem?_take_of_lt i.position_lt

@[simp] theorem findOperator_addressed (g : Graph) (i : OperatorId) :
    g.addressed.findOperator i = g.findOperator i := by
  unfold findOperator
  rw [getElem?_ops_addressed]
  rfl

@[simp] theorem operatorNamed_addressed (g : Graph) (name : String) :
    g.addressed.operatorNamed name = g.operatorNamed name := by
  unfold operatorNamed
  rw [funext (findOperator_addressed g)]
  rfl

theorem leadsTo_addressed (g : Graph) : g.addressed.LeadsTo = g.LeadsTo := by
  unfold LeadsTo
  simp only [findOperator_addressed]

/-- Orders are a matter of ids, so they are those of the addressed part. -/
theorem orders_addressed_iff {order : List OperatorId} :
    g.addressed.Orders order ↔ g.Orders order := by
  constructor
  · rintro ⟨hnodup, hmem, hafter⟩
    refine ⟨hnodup, ?_, ?_⟩
    · simpa only [OnCycle, leadsTo_addressed, findOperator_addressed] using hmem
    · simpa only [leadsTo_addressed] using hafter
  · rintro ⟨hnodup, hmem, hafter⟩
    refine ⟨hnodup, ?_, ?_⟩
    · simpa only [OnCycle, leadsTo_addressed, findOperator_addressed] using hmem
    · simpa only [leadsTo_addressed] using hafter

theorem checkVariables_addressed (h : g.checkVariables = .ok ()) :
    g.addressed.checkVariables = .ok () := by
  rw [checkVariables_eq_ok_iff] at h ⊢
  simp only [findOperator_addressed]
  exact h

theorem checkOperators_addressed (h : g.checkOperators = .ok ()) :
    g.addressed.checkOperators = .ok () := by
  rw [checkOperators, forM_zipIdx_eq_ok_iff] at h ⊢
  intro k n hk
  have hplace : g.ops[k]? = some n := by
    rw [addressed, List.getElem?_take] at hk
    split at hk
    · exact hk
    · cases hk
  have hchecked := checkOperator_eq_ok_iff.mp (h k n hplace)
  -- What the checks of an operator look up, they look up by id.
  rw [checkOperator_eq_ok_iff, operatorNamed_addressed]
  exact hchecked

/-- **The addressed part is linked** when the arena passes the checks of its links. -/
theorem linked_addressed (hvars : g.checkVariables = .ok ()) (hops : g.checkOperators = .ok ()) :
    g.addressed.Linked :=
  (checkVariables_checkOperators_eq_ok_iff g.length_ops_addressed_le).mp
    ⟨checkVariables_addressed hvars, checkOperators_addressed hops⟩

theorem operator_id_of_checkOperators (h : g.checkOperators = .ok ()) {k : Nat} {n : Node}
    (hk : g.ops[k]? = some n) : n.id = Id.mint g.id k := by
  rw [checkOperators, forM_zipIdx_eq_ok_iff] at h
  exact (checkOperator_eq_ok_iff.mp (h k n hk)).1

/-- Behind the addressed part stand operators that have the ids of operators in it. -/
theorem exists_addressed_of_mem (hids : ∀ k n, g.ops[k]? = some n → n.id = Id.mint g.id k)
    {n : Node} (hn : n ∈ g.ops) :
    n.id.position < g.ops.length ∧ ∃ m ∈ g.addressed.ops, m.id = n.id := by
  obtain ⟨k, hk⟩ := List.mem_iff_getElem?.mp hn
  have hkn : k < g.ops.length := (List.getElem?_eq_some_iff.mp hk).1
  have hid := hids k n hk
  have hposition : n.id.position = k % UInt32.size := by rw [hid, Id.position_mint]
  have hlt : n.id.position < g.ops.length := by
    have hle := Nat.mod_le k UInt32.size
    omega
  refine ⟨hlt, g.ops[n.id.position], ?_, ?_⟩
  · refine List.mem_of_getElem? (i := n.id.position) ?_
    rw [getElem?_ops_addressed, List.getElem?_eq_getElem hlt]
  · have hgraph : n.id.graph = g.id := by rw [hid, Id.graph_mint]
    rw [hids _ _ (List.getElem?_eq_getElem hlt), ← hgraph, Id.mint_position]

end Graph

namespace TopologicalSort

open TensorGraph.Graph

variable {g : Graph}

/-! ## Where the sort does not fail it is the sort -/

theorem release_of_release? {s t : State} {i : OperatorId} (h : release? s i = some t) :
    release s i = t := by
  unfold release? at h
  split at h
  · exact Option.some.inj h
  · cases h

theorem foldl_release_of_foldlM {is : List OperatorId} {s t : State}
    (h : is.foldlM release? s = some t) : is.foldl release s = t := by
  induction is generalizing s with
  | nil => exact Option.some.inj h
  | cons i is ih =>
      rw [List.foldlM_cons] at h
      obtain ⟨u, hu, hrest⟩ := Option.bind_eq_some_iff.mp h
      rw [List.foldl_cons, release_of_release? hu]
      exact ih hrest

theorem step_of_step? {s t : State} (h : step? g s = some t) : step g s = t := by
  unfold step? at h
  cases hready : s.ready with
  | nil =>
      rw [step_of_ready_eq_nil hready]
      rw [hready] at h
      exact Option.some.inj h
  | cons i rest =>
      rw [hready] at h
      obtain ⟨n, hn, hrest⟩ := Option.bind_eq_some_iff.mp h
      unfold step successorsOf
      simp only [hready, hn]
      exact foldl_release_of_foldlM hrest

theorem run_of_run? (fuel : Nat) {s t : State} (h : run? g fuel s = some t) : run g fuel s = t := by
  induction fuel generalizing s with
  | zero => exact Option.some.inj h
  | succ fuel ih =>
      obtain ⟨u, hu, hrest⟩ := Option.bind_eq_some_iff.mp h
      rw [run, step_of_step? hu]
      exact ih hrest

/-! ## The sort goes by ids -/

/-- The state with those counts only that ids lead to. -/
def narrow (s : State) : State := { s with waiting := s.waiting.take UInt32.size }

theorem getElem?_waiting_narrow (s : State) (i : OperatorId) :
    (narrow s).waiting[i.position]? = s.waiting[i.position]? :=
  List.getElem?_take_of_lt i.position_lt

theorem release_narrow (s : State) (i : OperatorId) :
    release (narrow s) i = narrow (release s i) := by
  unfold release
  rw [getElem?_waiting_narrow]
  split <;> simp [narrow, List.take_set]

theorem release?_narrow (s : State) (i : OperatorId) :
    release? (narrow s) i = (release? s i).map narrow := by
  unfold release?
  rw [getElem?_waiting_narrow, release_narrow]
  split <;> rfl

theorem foldlM_release?_narrow (is : List OperatorId) (s : State) :
    is.foldlM release? (narrow s) = (is.foldlM release? s).map narrow := by
  have hstep : ∀ (s : State) (i : OperatorId),
      narrow <$> release? s i = release? (narrow s) i := fun s i => (release?_narrow s i).symm
  have hloop := Checks.map_foldlM (k := fun i => i) hstep is s
  rw [List.map_id'] at hloop
  exact hloop.symm

/-- **A step on the addressed part** does what it does on the graph. -/
theorem step?_narrow (g : Graph) (s : State) :
    step? g.addressed (narrow s) = (step? g s).map narrow := by
  have hsame : (narrow s).ready = s.ready := rfl
  unfold step?
  rw [hsame]
  cases hready : s.ready with
  | nil => rfl
  | cons i rest =>
      dsimp only
      rw [getElem?_ops_addressed]
      cases g.ops[i.position]? with
      | none => rfl
      | some n =>
          exact foldlM_release?_narrow (g.successors n)
            { s with ready := rest, order := s.order ++ [i] }

theorem run?_narrow (g : Graph) (fuel : Nat) (s : State) :
    run? g.addressed fuel (narrow s) = (run? g fuel s).map narrow := by
  induction fuel generalizing s with
  | zero => rfl
  | succ fuel ih =>
      unfold run?
      rw [step?_narrow]
      cases step? g s with
      | none => rfl
      | some t => exact ih t

/-- The operators that are ready at the start are so on the addressed part. -/
theorem mem_ready_start_iff {i : OperatorId} :
    i ∈ (start g).ready ↔
      ∃ n ∈ g.ops, (g.ops.map fun m => (g.predecessors m).length)[n.id.position]? = some 0 ∧
        n.id = i := by
  simp only [start, Id.mem_sortDistinct, List.mem_map, List.mem_filter, beq_iff_eq, and_assoc]

theorem start_addressed (hids : ∀ k n, g.ops[k]? = some n → n.id = Id.mint g.id k) :
    start g.addressed = narrow (start g) := by
  have hwaiting : (start g.addressed).waiting = (narrow (start g)).waiting := List.map_take
  have hcount : ∀ i : OperatorId,
      (g.addressed.ops.map fun m => (g.addressed.predecessors m).length)[i.position]? =
        (g.ops.map fun m => (g.predecessors m).length)[i.position]? := by
    intro i
    rw [List.getElem?_map, List.getElem?_map, getElem?_ops_addressed]
    rfl
  have hready : (start g.addressed).ready = (start g).ready := by
    refine Id.eq_of_pairwise_lt (Id.pairwise_sortDistinct _) (Id.pairwise_sortDistinct _) ?_
    intro i
    rw [mem_ready_start_iff, mem_ready_start_iff]
    constructor
    · rintro ⟨n, hn, hzero, hid⟩
      rw [hcount] at hzero
      exact ⟨n, List.mem_of_mem_take hn, hzero, hid⟩
    · rintro ⟨n, hn, hzero, hid⟩
      obtain ⟨-, m, hm, hmn⟩ := exists_addressed_of_mem hids hn
      refine ⟨m, hm, ?_, hmn.trans hid⟩
      rw [hcount, hmn]
      exact hzero
  show State.mk _ _ _ = State.mk _ _ _
  exact congrArg₂ (fun waiting ready => State.mk waiting ready []) hwaiting hready

/-! ## More steps than needed -/

theorem run?_of_ready_eq_nil (fuel : Nat) {s : State} (h : s.ready = []) :
    run? g fuel s = some s := by
  induction fuel with
  | zero => rfl
  | succ fuel ih =>
      have hstep : step? g s = some s := by
        unfold step?
        rw [h]
      rw [run?, hstep]
      exact ih

theorem run?_add (g : Graph) (first later : Nat) (s : State) :
    run? g (first + later) s = (run? g first s).bind (run? g later) := by
  induction first generalizing s with
  | zero =>
      rw [Nat.zero_add]
      rfl
  | succ first ih =>
      rw [Nat.succ_add, run?, run?]
      cases step? g s with
      | none => rfl
      | some t => exact ih t

/-- **The sort goes by ids.** It does not fail where it does not on the addressed part, and gives
    the same order there. -/
theorem order?_of_addressed (hids : ∀ k n, g.ops[k]? = some n → n.id = Id.mint g.id k)
    (hmirrored : g.addressed.Mirrored) :
    order? g = some g.topologicalOrder ∧ g.topologicalOrder = g.addressed.topologicalOrder := by
  -- There are steps enough for the addressed part, and those left over change nothing.
  obtain ⟨extra, hextra⟩ : ∃ extra, 2 * g.ops.length = 2 * g.addressed.ops.length + extra := by
    have hle : g.addressed.ops.length ≤ g.ops.length := List.length_take_le' _ _
    exact ⟨_, (Nat.add_sub_of_le (Nat.mul_le_mul_left 2 hle)).symm⟩
  have hdone := ready_run_eq_nil hmirrored
  have haddressed : run? g.addressed (2 * g.ops.length) (narrow (start g)) =
      some (run g.addressed (2 * g.addressed.ops.length) (start g.addressed)) := by
    rw [hextra, run?_add, ← start_addressed hids, run?_eq hmirrored _ (inv_start hmirrored),
      Option.bind_some, run?_of_ready_eq_nil extra hdone]
  rw [run?_narrow] at haddressed
  obtain ⟨t, ht, hnarrow⟩ := Option.map_eq_some_iff.mp haddressed
  have hready : t.ready = [] := by
    rw [← hdone, ← hnarrow]
    rfl
  have horder : t.order = g.addressed.topologicalOrder := by
    unfold topologicalOrder
    rw [← hnarrow]
    rfl
  have hrun : g.topologicalOrder = t.order := by
    unfold topologicalOrder
    rw [run_of_run? _ ht]
  have hinside : ∀ n ∈ g.ops, n.id.position < g.ops.length := fun n hn =>
    (exists_addressed_of_mem hids hn).1
  refine ⟨?_, hrun.trans horder⟩
  unfold order? start?
  rw [if_pos hinside]
  show (run? g (2 * g.ops.length) (start g)).bind _ = _
  rw [ht, Option.bind_some, if_pos hready, hrun]

end TopologicalSort

namespace Graph

/-! ## The sort on linked arenas -/

/-- **The sort gives the least order there is.** On every arena that passes the checks of its links,
    cyclic or not and however long, it ends without a failure; it orders exactly the operators that
    lie on no cycle and have no ancestor on one, each once and after those that lead to it; and any
    other order of those operators has a greater id where it first differs. -/
theorem sort_of_linked_arena (hvars : g.checkVariables = .ok ())
    (hops : g.checkOperators = .ok ()) :
    TopologicalSort.order? g = some g.topologicalOrder ∧ g.Orders g.topologicalOrder ∧
      ∀ order, g.Orders order →
        order = g.topologicalOrder ∨ List.Lex (· < ·) g.topologicalOrder order := by
  have hids : ∀ k n, g.ops[k]? = some n → n.id = Id.mint g.id k :=
    fun _ _ => operator_id_of_checkOperators hops
  have hlinked : g.addressed.Linked := linked_addressed hvars hops
  have hmirrored : g.addressed.Mirrored := hlinked.mirrored g.length_ops_addressed_le
  obtain ⟨hsort, hsame⟩ := TopologicalSort.order?_of_addressed hids hmirrored
  have horders : g.addressed.Orders g.topologicalOrder := by
    rw [hsame]
    exact hlinked.orders_topologicalOrder g.length_ops_addressed_le
  have hgreedy : g.addressed.Greedy g.topologicalOrder := by
    rw [hsame]
    exact hmirrored.greedy_topologicalOrder
  refine ⟨hsort, orders_addressed_iff.mp horders, ?_⟩
  intro order hother
  exact hgreedy.eq_or_lex hlinked g.length_ops_addressed_le horders
    (orders_addressed_iff.mpr hother)

/-- Two activations that read each other, a sum behind them; beside these an activation of what a
    later one makes, a sum that reads the result twice, and a sum of both. -/
def tangle : Graph :=
  ((empty ⟨0⟩ "tangle").run
    [ .addInput "x" twoChannels,
      .apply (.unnamed (.activation .relu) (Params.valid_activation _)) [⟨⟨0⟩, 0⟩],
      .apply (.unnamed (.activation .tanh) (Params.valid_activation _)) [⟨⟨0⟩, 1⟩],
      .apply (.unnamed .elementwiseSum Params.valid_elementwiseSum) [⟨⟨0⟩, 2⟩, ⟨⟨0⟩, 0⟩],
      .apply (.unnamed (.activation .relu) (Params.valid_activation _)) [⟨⟨0⟩, 0⟩],
      .apply (.unnamed .elementwiseSum Params.valid_elementwiseSum) [⟨⟨0⟩, 4⟩, ⟨⟨0⟩, 4⟩],
      .apply (.unnamed .elementwiseSum Params.valid_elementwiseSum) [⟨⟨0⟩, 4⟩, ⟨⟨0⟩, 5⟩],
      .apply (.unnamed (.activation .tanh) (Params.valid_activation _)) [⟨⟨0⟩, 0⟩] ]).editAll
    [ .operatorInputs 0 [("x", ⟨⟨0⟩, 2⟩)], .variableConsumers 2 [⟨⟨0⟩, 2⟩, ⟨⟨0⟩, 0⟩],
      .operatorInputs 3 [("x", ⟨⟨0⟩, 7⟩)], .variableConsumers 7 [⟨⟨0⟩, 3⟩],
      .variableConsumers 0 [⟨⟨0⟩, 2⟩, ⟨⟨0⟩, 6⟩] ]

theorem sort_of_linked_arena_tangle :
    tangle.topologicalOrder = [⟨⟨0⟩, 6⟩, ⟨⟨0⟩, 3⟩, ⟨⟨0⟩, 4⟩, ⟨⟨0⟩, 5⟩] ∧
      TopologicalSort.order? tangle = some tangle.topologicalOrder ∧
      tangle.Orders tangle.topologicalOrder := by
  have hvars : tangle.checkVariables = .ok () := by decide
  have hops : tangle.checkOperators = .ok () := by decide
  obtain ⟨hsort, horders, -⟩ := sort_of_linked_arena hvars hops
  exact ⟨by decide, hsort, horders⟩

end Graph

end TensorGraph

import Mathlib.Data.List.Induction
import TensorGraph.Proofs.ForeignIds
import TensorGraph.Workspace

/-!
# `TensorGraph.Proofs.InterleavedRuns` — **graphs side by side do not meet**

A run on a workspace interleaves calls on any number of graphs, and what a call is given may come
from any of them. Each graph fares as if it were alone: its calls, taken out of the run, have the
same effect and the same answers on an empty graph of the same identity. Identities are handed out
once, so the ids of one graph are refused by all others, those that took its place included.

## Contents
- **One graph's part** of a run: `callsOn`, `answersOn`, and `Graph.answers` for a run on one graph.
- **`Effect`**, all that an action can do.
- **Alone.** Until a graph is dropped, it is what its own calls make of it.
- **Identities.** Graphs with one identity are one graph, at one time or at two.
- **`Strangers`**, and `run_isolates_graphs`.
-/

namespace TensorGraph

/-! ## One graph's part of a run -/

/-- What the calls of a run answer, one after another. -/
def Graph.answers (g : Graph) : List Call → List (Except Error (Graph × List VariableId))
  | [] => []
  | c :: calls => g.answer c :: (g.after c).answers calls

namespace Workspace

/-- The call that an action makes on the graph under a handle. -/
def Action.callOn? (handle : String) : Action → Option Call
  | .create .. => none
  | .call h c => if h = handle then some c else none

/-- The calls of a run on the graph under a handle. -/
def callsOn (handle : String) (actions : List Action) : List Call :=
  actions.filterMap (Action.callOn? handle)

/-- What an action answers, if it is a call on the graph under a handle. -/
def answerOn? (handle : String) (w : Workspace) (a : Action) :
    Option (Except Error (Graph × List VariableId)) :=
  (a.callOn? handle).bind fun c => (w.find? handle).map fun g => g.answer c

/-- What the calls of a run on the graph under a handle answer. -/
def answersOn (handle : String) (w : Workspace) :
    List Action → List (Except Error (Graph × List VariableId))
  | [] => []
  | a :: actions => (w.answerOn? handle a).toList ++ (w.after a).answersOn handle actions

/-- The action puts a new graph under a handle. -/
def Action.Replaces (handle : String) (a : Action) : Prop :=
  ∃ name options, a = .create handle name options ∧ options.Valid

/-! ## What an action does -/

section Actions

variable {w : Workspace} {handle p : String}

/-- Creating a graph with valid options puts an empty one under the handle. -/
theorem after_create_of_valid (w : Workspace) (handle name : String) {options : Options}
    (hvalid : options.Valid) :
    w.after (.create handle name options) =
      { w with supply := ⟨w.supply.next + 1⟩ }.put handle
        (Graph.empty ⟨w.supply.next⟩ name options) := by
  have hcreate : Graph.create ⟨w.supply.next⟩ name options =
      .ok (Graph.empty ⟨w.supply.next⟩ name options) := by
    rw [Graph.create, Options.validate_eq_ok_iff.mpr hvalid]
    rfl
  simp only [after, create, GraphIdSupply.fresh, hcreate]
  rfl

theorem after_create_of_invalid (w : Workspace) (handle name : String) {options : Options}
    (hinvalid : ¬ options.Valid) : w.after (.create handle name options) = w := by
  cases hcheck : options.validate with
  | ok u => exact absurd (Options.validate_eq_ok_iff.mp hcheck) hinvalid
  | error e =>
      have hcreate : Graph.create ⟨w.supply.next⟩ name options = .error e := by
        rw [Graph.create, hcheck]
        rfl
      simp only [after, create, GraphIdSupply.fresh, hcreate]
      rfl

/-- The action of a call changes what is under its handle, if something is. -/
theorem after_call_of_some {k : Graph} (hk : w.find? handle = some k) (c : Call) :
    w.after (.call handle c) = w.put handle (k.after c) := by
  rw [after, hk]

theorem after_call_of_none (hk : w.find? handle = none) (c : Call) :
    w.after (.call handle c) = w := by
  rw [after, hk]

/-- **What an action does**: it puts an empty graph of a new identity under a handle, or lets the
    graph under a handle make a call, or nothing. -/
inductive Effect (w : Workspace) (a : Action) : Workspace → Prop where
  | created {handle name : String} {options : Options} (ha : a = .create handle name options)
      (hvalid : options.Valid) :
      Effect w a ({ w with supply := ⟨w.supply.next + 1⟩ }.put handle
        (Graph.empty ⟨w.supply.next⟩ name options))
  | called {handle : String} {c : Call} {k : Graph} (ha : a = .call handle c)
      (hk : w.find? handle = some k) : Effect w a (w.put handle (k.after c))
  | idle (hnone : ∀ handle c, a.callOn? handle = some c → w.find? handle = none) : Effect w a w

theorem callOn?_call_self (c : Call) :
    (Action.call p c).callOn? p = some c := if_pos rfl

theorem callOn?_call_ne (h : handle ≠ p) (c : Call) :
    (Action.call handle c).callOn? p = none := if_neg h

theorem callOn?_eq_some_iff {a : Action} {c : Call} : a.callOn? p = some c ↔ a = .call p c := by
  cases a with
  | create => simp [Action.callOn?]
  | call handle c' =>
      by_cases h : handle = p
      · subst h
        simp [callOn?_call_self]
      · simp [callOn?_call_ne h, h]

theorem ne_of_not_replaces {a : Action} {name : String} {options : Options}
    (hkeeps : ¬ a.Replaces p) (ha : a = .create handle name options) (hvalid : options.Valid) :
    p ≠ handle := by
  rintro rfl
  exact hkeeps ⟨name, options, ha, hvalid⟩

theorem effect (w : Workspace) (a : Action) : w.Effect a (w.after a) := by
  cases a with
  | create handle name options =>
      by_cases hvalid : options.Valid
      · rw [after_create_of_valid w handle name hvalid]
        exact .created rfl hvalid
      · rw [after_create_of_invalid w handle name hvalid]
        exact .idle nofun
  | call handle c =>
      cases hk : w.find? handle with
      | none =>
          rw [after_call_of_none hk]
          refine .idle fun p c' hc => ?_
          cases callOn?_eq_some_iff.mp hc
          exact hk
      | some k =>
          rw [after_call_of_some hk]
          exact .called rfl hk

end Actions

/-! ## Alone -/

variable {w : Workspace} {p : String}

theorem run_append (w : Workspace) (before after : List Action) :
    w.run (before ++ after) = (w.run before).run after := List.foldl_append

/-- **An action is a call or nothing** to a graph that it does not replace. -/
theorem after_of_not_replaces {g : Graph} (hg : w.find? p = some g) {a : Action}
    (hkeeps : ¬ a.Replaces p) :
    (w.after a).find? p = some (g.run (a.callOn? p).toList) ∧
      (w.answerOn? p a).toList = g.answers (a.callOn? p).toList := by
  unfold answerOn?
  cases hcall : a.callOn? p with
  | some c =>
      obtain rfl := callOn?_eq_some_iff.mp hcall
      rw [after_call_of_some hg, find?_put, if_pos rfl, hg]
      exact ⟨rfl, rfl⟩
  | none =>
      refine ⟨?_, rfl⟩
      have heffect := w.effect a
      generalize w.after a = w' at heffect ⊢
      cases heffect with
      | created ha hvalid =>
          rw [find?_put, if_neg (ne_of_not_replaces hkeeps ha hvalid)]
          exact hg
      | @called handle c k ha hk =>
          have hne : p ≠ handle := by
            rintro rfl
            rw [callOn?_eq_some_iff.mpr ha] at hcall
            cases hcall
          rw [find?_put, if_neg hne]
          exact hg
      | idle hnone => exact hg

theorem answers_append (g : Graph) (calls more : List Call) :
    g.answers (calls ++ more) = g.answers calls ++ (g.run calls).answers more := by
  induction calls generalizing g with
  | nil => rfl
  | cons c calls ih => simp [Graph.answers, ih]

theorem callsOn_cons (p : String) (a : Action) (actions : List Action) :
    callsOn p (a :: actions) = (a.callOn? p).toList ++ callsOn p actions := by
  unfold callsOn
  cases h : a.callOn? p <;> simp [h]

/-- **Until it is replaced, a graph fares as if alone**: it becomes what its own calls make of it,
    and they answer what they answer without the others. -/
theorem run_of_not_replaces {g : Graph} (hg : w.find? p = some g) {actions : List Action}
    (hkeeps : ∀ a ∈ actions, ¬ a.Replaces p) :
    (w.run actions).find? p = some (g.run (callsOn p actions)) ∧
      w.answersOn p actions = g.answers (callsOn p actions) := by
  induction actions generalizing w g with
  | nil => exact ⟨hg, rfl⟩
  | cons a actions ih =>
      obtain ⟨hafter, hanswer⟩ := after_of_not_replaces hg (hkeeps a List.mem_cons_self)
      obtain ⟨hrun, hanswers⟩ := ih hafter fun b hb => hkeeps b (List.mem_cons_of_mem _ hb)
      rw [callsOn_cons, answers_append, Graph.run_append, run_cons, answersOn, hanswer, hanswers]
      exact ⟨hrun, rfl⟩

/-- Only an action that replaces puts a graph under a free handle. -/
theorem exists_before_of_not_replaces {a : Action} (hkeeps : ¬ a.Replaces p) {g : Graph}
    (hg : (w.after a).find? p = some g) : ∃ k, w.find? p = some k := by
  have heffect := w.effect a
  generalize w.after a = w' at heffect hg
  cases heffect with
  | created ha hvalid =>
      rw [find?_put, if_neg (ne_of_not_replaces hkeeps ha hvalid)] at hg
      exact ⟨g, hg⟩
  | @called handle c k ha hk =>
      by_cases hhandle : p = handle
      · exact ⟨k, hhandle ▸ hk⟩
      · rw [find?_put, if_neg hhandle] at hg
        exact ⟨g, hg⟩
  | idle hnone => exact ⟨g, hg⟩

/-- **Each graph was put under its handle once**, after which nothing replaced it. -/
theorem exists_created {actions : List Action} {g : Graph}
    (hg : (({} : Workspace).run actions).find? p = some g) :
    ∃ earlier name options later, actions = earlier ++ .create p name options :: later ∧
      options.Valid ∧ ∀ a ∈ later, ¬ a.Replaces p := by
  -- From the last action backward: the one that put the graph there is the last that could.
  induction actions using List.reverseRecOn generalizing g with
  | nil => cases hg
  | append_singleton actions a ih =>
      by_cases hreplaces : a.Replaces p
      · obtain ⟨name, options, rfl, hvalid⟩ := hreplaces
        exact ⟨actions, name, options, [], rfl, hvalid, nofun⟩
      · rw [run_append] at hg
        obtain ⟨k, hk⟩ := exists_before_of_not_replaces hreplaces hg
        obtain ⟨earlier, name, options, later, rfl, hvalid, hkeeps⟩ := ih hk
        refine ⟨earlier, name, options, later ++ [a], by simp, hvalid, ?_⟩
        intro b hb
        rcases List.mem_append.mp hb with hold | hlast
        · exact hkeeps b hold
        · rw [List.mem_singleton.mp hlast]
          exact hreplaces

/-! ## Identities -/

/-- Identities are handed out in order, and each has one graph at most. -/
structure Apart (w : Workspace) : Prop where
  handed_out : ∀ p g, w.find? p = some g → g.id.number < w.supply.next
  one_graph : ∀ p q g h, w.find? p = some g → w.find? q = some h → g.id = h.id → p = q

/-- The graph of an identity that was handed out is nowhere but under a handle, and there it is what
    calls have made of it. -/
structure Follows (p : String) (g : Graph) (calls : List Call) (w : Workspace) : Prop where
  handed_out : g.id.number < w.supply.next
  only : ∀ q h, w.find? q = some h → h.id = g.id → q = p ∧ h = g.run calls

theorem Apart.follows (hw : w.Apart) {g : Graph} (hg : w.find? p = some g) :
    Follows p g [] w where
  handed_out := hw.handed_out p g hg
  only q h hq hid := by
    obtain rfl := hw.one_graph q p h g hq hg hid
    rw [hg] at hq
    exact ⟨rfl, (Option.some.inj hq).symm⟩

theorem find?_put_cases {handle q : String} {new h : Graph}
    (hq : (w.put handle new).find? q = some h) :
    (q = handle ∧ h = new) ∨ (q ≠ handle ∧ w.find? q = some h) := by
  rw [find?_put] at hq
  by_cases hhandle : q = handle
  · rw [if_pos hhandle] at hq
    exact Or.inl ⟨hhandle, (Option.some.inj hq).symm⟩
  · rw [if_neg hhandle] at hq
    exact Or.inr ⟨hhandle, hq⟩

/-- **An action makes no second graph of an identity.** -/
theorem Follows.after {g : Graph} {calls : List Call} (hw : Follows p g calls w) (a : Action) :
    Follows p g (calls ++ (a.callOn? p).toList) (w.after a) := by
  obtain ⟨hnext, honly⟩ := hw
  have heffect := w.effect a
  generalize w.after a = w' at heffect ⊢
  cases heffect with
  | created ha hvalid =>
      subst ha
      rw [Action.callOn?, Option.toList_none, List.append_nil]
      refine ⟨Nat.lt_succ_of_lt hnext, fun q h hq hid => ?_⟩
      rcases find?_put_cases hq with ⟨-, rfl⟩ | ⟨-, hold⟩
      · -- The new graph has an identity that was not handed out yet.
        rw [← hid] at hnext
        exact absurd hnext (Nat.lt_irrefl _)
      · exact honly q h hold hid
  | @called handle c k ha hk =>
      subst ha
      refine ⟨hnext, fun q h hq hid => ?_⟩
      rcases find?_put_cases hq with ⟨rfl, rfl⟩ | ⟨hne, hold⟩
      · rw [Graph.id_after] at hid
        obtain ⟨rfl, rfl⟩ := honly q k hk hid
        rw [callOn?_call_self, Option.toList_some, Graph.run_append]
        exact ⟨rfl, rfl⟩
      · obtain ⟨rfl, hrun⟩ := honly q h hold hid
        rw [callOn?_call_ne (Ne.symm hne), Option.toList_none, List.append_nil]
        exact ⟨rfl, hrun⟩
  | idle hnone =>
      refine ⟨hnext, fun q h hq hid => ?_⟩
      obtain ⟨rfl, hrun⟩ := honly q h hq hid
      cases hcall : a.callOn? q with
      | none =>
          rw [Option.toList_none, List.append_nil]
          exact ⟨rfl, hrun⟩
      | some c =>
          rw [hnone q c hcall] at hq
          cases hq

theorem Follows.run {g : Graph} {calls : List Call} (hw : Follows p g calls w)
    (actions : List Action) : Follows p g (calls ++ callsOn p actions) (w.run actions) := by
  induction actions generalizing w calls with
  | nil =>
      rw [callsOn, List.filterMap_nil, List.append_nil]
      exact hw
  | cons a actions ih =>
      rw [callsOn_cons, ← List.append_assoc]
      exact ih (hw.after a)

theorem Apart.put_new (hw : w.Apart) (handle name : String) (options : Options) :
    ({ w with supply := ⟨w.supply.next + 1⟩ }.put handle
      (Graph.empty ⟨w.supply.next⟩ name options)).Apart where
  handed_out p g hg := by
    rcases find?_put_cases hg with ⟨-, rfl⟩ | ⟨-, hold⟩
    · exact Nat.lt_succ_self _
    · exact Nat.lt_succ_of_lt (hw.handed_out p g hold)
  one_graph p q g h hg hh hid := by
    -- What is there already has an identity from before.
    have hnew : ∀ r k, w.find? r = some k → k.id ≠ ⟨w.supply.next⟩ := by
      intro r k hk heq
      have hlt := hw.handed_out r k hk
      rw [heq] at hlt
      exact absurd hlt (Nat.lt_irrefl _)
    rcases find?_put_cases hg with ⟨rfl, rfl⟩ | ⟨-, hgold⟩
    · rcases find?_put_cases hh with ⟨rfl, rfl⟩ | ⟨-, hhold⟩
      · rfl
      · exact absurd hid.symm (hnew q h hhold)
    · rcases find?_put_cases hh with ⟨rfl, rfl⟩ | ⟨-, hhold⟩
      · exact absurd hid (hnew p g hgold)
      · exact hw.one_graph p q g h hgold hhold hid

theorem Apart.put_grown (hw : w.Apart) {handle : String} {k g' : Graph}
    (hk : w.find? handle = some k) (hid : g'.id = k.id) : (w.put handle g').Apart where
  handed_out p g hg := by
    rcases find?_put_cases hg with ⟨-, rfl⟩ | ⟨-, hold⟩
    · rw [hid]
      exact hw.handed_out handle k hk
    · exact hw.handed_out p g hold
  one_graph p q g h hg hh hsame := by
    rcases find?_put_cases hg with ⟨rfl, rfl⟩ | ⟨-, hgold⟩
    · rcases find?_put_cases hh with ⟨rfl, rfl⟩ | ⟨-, hhold⟩
      · rfl
      · exact hw.one_graph p q k h hk hhold (hid.symm.trans hsame)
    · rcases find?_put_cases hh with ⟨rfl, rfl⟩ | ⟨-, hhold⟩
      · exact hw.one_graph p q g k hgold hk (hsame.trans hid)
      · exact hw.one_graph p q g h hgold hhold hsame

/-- **An action keeps identities apart.** -/
theorem Apart.after (hw : w.Apart) (a : Action) : (w.after a).Apart := by
  have heffect := w.effect a
  generalize w.after a = w' at heffect ⊢
  cases heffect with
  | created ha hvalid => exact hw.put_new _ _ _
  | @called handle c k ha hk => exact hw.put_grown hk (Graph.id_after k c)
  | idle hnone => exact hw

theorem Apart.run (hw : w.Apart) (actions : List Action) : (w.run actions).Apart := by
  induction actions generalizing w with
  | nil => exact hw
  | cons a actions ih => exact ih (hw.after a)

theorem apart_start : ({} : Workspace).Apart where
  handed_out := nofun
  one_graph := nofun

/-! ## Strangers -/

/-- **Two graphs have nothing to say to each other**: one refuses every id of the other. -/
structure Strangers (g h : Graph) : Prop where
  ids_differ : g.id ≠ h.id
  variable_ids : ∀ i : VariableId, i.graph = g.id → h.Refuses i
  operator_ids : ∀ i : OperatorId, i.graph = g.id → h.findOperator i = none

theorem strangers_of_ne {g h : Graph} (hne : g.id ≠ h.id) : Strangers g h where
  ids_differ := hne
  variable_ids _ hi := Graph.refuses_foreign (hi ▸ hne)
  operator_ids _ hi := Graph.findOperator_foreign (hi ▸ hne)

/-- **Graphs never meet.** Take any graph at any moment of a run from the empty workspace. It is what
    its own calls, alone, make of the empty graph that it was created as, and they answer what they
    answer alone. All ids that it keeps or gives name it. And any graph at that moment or later is
    either the same graph, grown by its own calls since, or refuses all its ids, as it refuses all
    ids of the other. -/
theorem run_isolates_graphs (before after : List Action) {p : String} {g : Graph}
    (hg : (({} : Workspace).run before).find? p = some g) :
    (∃ earlier name options later, before = earlier ++ .create p name options :: later ∧
      options.Valid ∧ (∀ a ∈ later, ¬ a.Replaces p) ∧
      g = (Graph.empty g.id name options).run (callsOn p later) ∧
      (({} : Workspace).run (earlier ++ [.create p name options])).answersOn p later =
        (Graph.empty g.id name options).answers (callsOn p later)) ∧
    (g.Homed ∧ ∀ c r, g.answer c = .ok r → ∀ i ∈ r.2, i.graph = g.id) ∧
    ∀ q h, (({} : Workspace).run (before ++ after)).find? q = some h →
      (q = p ∧ h = g.run (callsOn p after)) ∨ (Strangers g h ∧ Strangers h g) := by
  have hapart : (({} : Workspace).run before).Apart := apart_start.run before
  obtain ⟨earlier, name, options, later, rfl, hvalid, hkeeps⟩ := exists_created hg
  have hcreated : (({} : Workspace).run (earlier ++ [.create p name options])).find? p =
      some (Graph.empty ⟨(({} : Workspace).run earlier).supply.next⟩ name options) := by
    rw [run_append, run_cons, run_nil, after_create_of_valid _ p name hvalid, find?_put, if_pos rfl]
  obtain ⟨hrun, hanswers⟩ := run_of_not_replaces hcreated hkeeps
  rw [← run_append, List.append_assoc, List.singleton_append, hg] at hrun
  have hown := Option.some.inj hrun
  have hid : g.id = ⟨(({} : Workspace).run earlier).supply.next⟩ := by
    rw [hown, Graph.id_run]
    rfl
  rw [← hid] at hown hanswers
  refine ⟨⟨earlier, name, options, later, rfl, hvalid, hkeeps, hown, hanswers⟩, ⟨?_, ?_⟩, ?_⟩
  · rw [hown]
    exact (Graph.homed_empty _ _ _).run _
  · intro c r hr i hi
    exact (Graph.success_of_answer hr).graph_of_mem hi
  · intro q h hh
    rw [run_append] at hh
    by_cases hsame : h.id = g.id
    · exact Or.inl (((hapart.follows hg).run after).only q h hh hsame)
    · exact Or.inr ⟨strangers_of_ne (Ne.symm hsame), strangers_of_ne hsame⟩

/-- Two graphs whose ids stand at the same places, given each other's, and a third in the place of
    the first. -/
def crossedActions : List Action :=
  [ .create "a" "first" {},
    .create "b" "second" {},
    .call "a" (.addInput "x" Graph.twoChannels),
    .call "b" (.addInput "x" Graph.twoChannels),
    .call "b" (.apply (.unnamed (.activation .relu) (Params.valid_activation _)) [⟨⟨0⟩, 0⟩]),
    .call "a" (.applyOne (.unnamed (.activation .relu) (Params.valid_activation _)) [⟨⟨0⟩, 0⟩]),
    .call "b" (.markOutput ⟨⟨0⟩, 1⟩) ]

theorem run_isolates_graphs_crossed :
    let g := (Graph.empty ⟨0⟩ "first").run (callsOn "a" crossedActions)
    let later : List Action := [.create "a" "third" {}, .call "a" (.markOutput ⟨⟨0⟩, 1⟩)]
    (({} : Workspace).run crossedActions).find? "a" = some g ∧ g.Homed ∧
      ∀ q h, (({} : Workspace).run (crossedActions ++ later)).find? q = some h →
        (q = "a" ∧ h = g.run (callsOn "a" later)) ∨ (Strangers g h ∧ Strangers h g) := by
  intro g later
  have hg : (({} : Workspace).run crossedActions).find? "a" = some g := by decide
  obtain ⟨-, ⟨hhomed, -⟩, hothers⟩ := run_isolates_graphs crossedActions later hg
  exact ⟨hg, hhomed, hothers⟩

end Workspace

end TensorGraph

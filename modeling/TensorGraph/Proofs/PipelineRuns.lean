import TensorGraph.Pipeline
import TensorGraph.Proofs.WellFormed

/-!
# `TensorGraph.Proofs.PipelineRuns` — **who stops a pipeline**

A pipeline is told apart from its run here. `Completes` says what it is for passes to go through one
after another, each on the graph that the one before it left, and `Stops` what it is for a pass to
end the run. A run completes or is stopped by exactly one pass, and then that pass is blamed and the
passes behind it are as they were.

With rechecking, validity is carried from pass to pass: passes that say they mutate are checked, and
the others leave the graph alone. So every pass starts on a valid graph, and a graph that is not
valid is blamed on the pass that made it so.

A pass may say something else of itself once it has run. It is blamed under the name that it had
before, and it is checked if it then says that it mutates.

## Contents
- **One pass**: `Clears` or `Stops`, and the dichotomy.
- **Passes in sequence**: `Completes`, and the two answers of `runPasses`.
- **Validity** along a run that rechecks.
- **Runs of registered passes**, `run_ofPasses`.
-/

namespace TensorGraph

namespace Pass

variable {σ : Type}

/-- A run after which the pass says that it does not mutate leaves the graph as it was. -/
def Honest (p : Pass σ) : Prop := ∀ g, (p.run g).1.mutating = false → (p.run g).2.1 = g

end Pass

namespace Pipeline

variable {σ : Type} {recheck : Bool} {p p' : Pass σ} {g g' : Graph}

/-! ## One pass -/

/-- The pass succeeds, and where it is rechecked the graph that it leaves is valid. -/
structure Clears (recheck : Bool) (p : Pass σ) (g : Graph) (p' : Pass σ) (g' : Graph) : Prop where
  ran : p.run g = (p', g', .ok ())
  rechecked : recheck = true → p'.mutating = true → g'.check = .ok ()

/-- The pass fails, or it succeeds and leaves a graph that the recheck does not accept. -/
inductive Stops (recheck : Bool) (p : Pass σ) (g : Graph) (p' : Pass σ) (g' : Graph) :
    PipelineError → Prop where
  | failed {error : PassError} (ran : p.run g = (p', g', .error error)) :
      Stops recheck p g p' g' (.failed p.name error)
  | brokeGraph {violation : Violation} (ran : p.run g = (p', g', .ok ()))
      (hrecheck : recheck = true) (hmutates : p'.mutating = true)
      (hbroken : g'.check = .error violation) :
      Stops recheck p g p' g' (.brokeGraph p.name ⟨g'.name, violation.message⟩)

theorem validate_eq_error {violation : Violation} (h : g.check = .error violation) :
    g.validate = .error ⟨g.name, violation.message⟩ := by
  rw [Graph.validate, h]
  rfl

/-- **A pass that clears** hands its graph on. -/
theorem runPasses_cons_of_clears (h : Clears recheck p g p' g') (rest : List (Pass σ)) :
    runPasses recheck (p :: rest) g =
      (p' :: (runPasses recheck rest g').1, (runPasses recheck rest g').2) := by
  have hjudge : judge recheck p.name p' g' (.ok ()) = .ok () := by
    rw [judge]
    by_cases hchecked : recheck = true ∧ p'.mutating = true
    · rw [if_pos (by simp [hchecked]), Graph.validate, h.rechecked hchecked.1 hchecked.2]
      rfl
    · rw [if_neg (by simpa using hchecked)]
  rw [runPasses, h.ran]
  dsimp only
  rw [hjudge]

/-- **A pass that stops** has the last word, whatever comes behind it. -/
theorem runPasses_cons_of_stops {e : PipelineError} (h : Stops recheck p g p' g' e)
    (rest : List (Pass σ)) : runPasses recheck (p :: rest) g = (p' :: rest, g', .error e) := by
  cases h with
  | @failed error ran =>
      rw [runPasses, ran]
      dsimp only
      rw [judge]
  | @brokeGraph violation ran hrecheck hmutates hbroken =>
      have hjudge : judge recheck p.name p' g' (.ok ()) =
          .error (.brokeGraph p.name ⟨g'.name, violation.message⟩) := by
        rw [judge, if_pos (by simp [hrecheck, hmutates]), validate_eq_error hbroken]
        rfl
      rw [runPasses, ran]
      dsimp only
      rw [hjudge]

/-- A pass does one or the other. -/
theorem clears_or_stops (recheck : Bool) (p : Pass σ) (g : Graph) :
    ∃ p' g', Clears recheck p g p' g' ∨ ∃ e, Stops recheck p g p' g' e := by
  rcases hrun : p.run g with ⟨p', g', outcome⟩
  refine ⟨p', g', ?_⟩
  cases outcome with
  | error e => exact Or.inr ⟨_, .failed hrun⟩
  | ok _ =>
      by_cases hchecked : recheck = true ∧ p'.mutating = true
      · cases hcheck : g'.check with
        | error violation => exact Or.inr ⟨_, .brokeGraph hrun hchecked.1 hchecked.2 hcheck⟩
        | ok _ => exact Or.inl ⟨hrun, fun _ _ => hcheck⟩
      · exact Or.inl ⟨hrun, fun hrecheck hmutates => absurd ⟨hrecheck, hmutates⟩ hchecked⟩

/-! ## Passes in sequence -/

/-- The passes go through one after another, each on the graph that the one before it left. -/
inductive Completes (recheck : Bool) :
    List (Pass σ) → Graph → List (Pass σ) → Graph → Prop where
  | nil (g : Graph) : Completes recheck [] g [] g
  | cons {p p' : Pass σ} {ps ps' : List (Pass σ)} {g g' g'' : Graph}
      (first : Clears recheck p g p' g') (rest : Completes recheck ps g' ps' g'') :
      Completes recheck (p :: ps) g (p' :: ps') g''

/-- **The answer of passes that go through.** -/
theorem runPasses_of_completes {ps ps' : List (Pass σ)} (h : Completes recheck ps g ps' g') :
    runPasses recheck ps g = (ps', g', .ok ()) := by
  induction h with
  | nil g => rfl
  | cons first rest ih => rw [runPasses_cons_of_clears first, ih]

/-- Passes that go through hand their graph to those behind them. -/
theorem runPasses_append_of_completes {before before' : List (Pass σ)}
    (h : Completes recheck before g before' g') (later : List (Pass σ)) :
    runPasses recheck (before ++ later) g =
      (before' ++ (runPasses recheck later g').1, (runPasses recheck later g').2) := by
  induction h with
  | nil g => rfl
  | cons first rest ih =>
      rw [List.cons_append, runPasses_cons_of_clears first, ih, List.cons_append]

/-- Passes go through up to one that stops the run. The passes behind it stay as they were. -/
def StoppedAt (recheck : Bool) (ps : List (Pass σ)) (g : Graph) (qs : List (Pass σ)) (g' : Graph)
    (e : PipelineError) (before : List (Pass σ)) (p : Pass σ) (start : Graph) : Prop :=
  ∃ before' p' later, ps = before ++ p :: later ∧ qs = before' ++ p' :: later ∧
    Completes recheck before g before' start ∧ Stops recheck p start p' g' e

theorem runPasses_of_stoppedAt {ps qs before : List (Pass σ)} {e : PipelineError} {start : Graph}
    (h : StoppedAt recheck ps g qs g' e before p start) :
    runPasses recheck ps g = (qs, g', .error e) := by
  obtain ⟨before', p', later, rfl, rfl, hbefore, hstops⟩ := h
  rw [runPasses_append_of_completes hbefore, runPasses_cons_of_stops hstops]

/-- **Passes go through or one stops them.** -/
theorem completes_or_stoppedAt (recheck : Bool) (ps : List (Pass σ)) (g : Graph) :
    ∃ qs g', Completes recheck ps g qs g' ∨
      ∃ e before p start, StoppedAt recheck ps g qs g' e before p start := by
  induction ps generalizing g with
  | nil => exact ⟨[], g, Or.inl (.nil g)⟩
  | cons p ps ih =>
      obtain ⟨p', g', hclears | ⟨e, hstops⟩⟩ := clears_or_stops recheck p g
      · obtain ⟨qs, g'', hrest | ⟨e, before, q, start, before', q', later, rfl, rfl, hbefore,
          hstops⟩⟩ := ih g'
        · exact ⟨p' :: qs, g'', Or.inl (.cons hclears hrest)⟩
        · exact ⟨_, g'', Or.inr ⟨e, p :: before, q, start, p' :: before', q', later, rfl, rfl,
            .cons hclears hbefore, hstops⟩⟩
      · exact ⟨p' :: ps, g', Or.inr ⟨e, [], p, g, [], p', ps, rfl, rfl, .nil g, hstops⟩⟩

theorem runPasses_eq_ok_iff {ps qs : List (Pass σ)} :
    runPasses recheck ps g = (qs, g', .ok ()) ↔ Completes recheck ps g qs g' := by
  refine ⟨fun h => ?_, runPasses_of_completes⟩
  obtain ⟨qs', g'', hdone | ⟨e, before, p, start, hstopped⟩⟩ := completes_or_stoppedAt recheck ps g
  · rw [runPasses_of_completes hdone] at h
    cases h
    exact hdone
  · rw [runPasses_of_stoppedAt hstopped] at h
    cases h

theorem runPasses_eq_error_iff {ps qs : List (Pass σ)} {e : PipelineError} :
    runPasses recheck ps g = (qs, g', .error e) ↔
      ∃ before p start, StoppedAt recheck ps g qs g' e before p start := by
  refine ⟨fun h => ?_, fun ⟨_, _, _, hstopped⟩ => runPasses_of_stoppedAt hstopped⟩
  obtain ⟨qs', g'', hdone | ⟨e', before, p, start, hstopped⟩⟩ := completes_or_stoppedAt recheck ps g
  · rw [runPasses_of_completes hdone] at h
    cases h
  · rw [runPasses_of_stoppedAt hstopped] at h
    cases h
    exact ⟨before, p, start, hstopped⟩

/-! ## Validity -/

/-- **A pass that clears keeps the graph valid**, be it that it is rechecked or that it leaves the
    graph alone. -/
theorem Clears.valid (h : Clears true p g p' g') (hhonest : p.Honest) (hvalid : g.check = .ok ()) :
    g'.check = .ok () := by
  cases hmutates : p'.mutating with
  | true => exact h.rechecked rfl hmutates
  | false =>
      have hsame : g' = g := by
        have hkept := hhonest g
        rw [h.ran] at hkept
        exact hkept hmutates
      rw [hsame]
      exact hvalid

theorem Completes.valid {ps ps' : List (Pass σ)} (h : Completes true ps g ps' g')
    (hhonest : ∀ p ∈ ps, p.Honest) (hvalid : g.check = .ok ()) : g'.check = .ok () := by
  induction h with
  | nil g => exact hvalid
  | cons first rest ih =>
      obtain ⟨hfirst, hrest⟩ := List.forall_mem_cons.mp hhonest
      exact ih hrest (first.valid hfirst hvalid)

/-! ## Runs of registered passes -/

/-- The pipeline in which passes were registered one after another. -/
def ofPasses (recheck : Bool) (ps : List (Pass σ)) : Pipeline σ :=
  ps.foldl add { recheck := recheck }

/-- Passes stand in the order of their registration. -/
theorem ofPasses_eq (recheck : Bool) (ps : List (Pass σ)) :
    ofPasses recheck ps = ⟨ps, recheck⟩ := by
  have hadd : ∀ qs : List (Pass σ), ps.foldl add ⟨qs, recheck⟩ = ⟨qs ++ ps, recheck⟩ := by
    induction ps with
    | nil =>
        intro qs
        rw [List.append_nil]
        rfl
    | cons p ps ih =>
        intro qs
        rw [List.foldl_cons, add, ih, List.append_assoc, List.singleton_append]
  exact hadd []

theorem run_ofPasses {ps : List (Pass σ)} {q : Pipeline σ} {result : Except PipelineError Unit} :
    (ofPasses recheck ps).run g = (q, g', result) ↔
      q.recheck = recheck ∧ runPasses recheck ps g = (q.passes, g', result) := by
  obtain ⟨qs, again⟩ := q
  rw [ofPasses_eq, run]
  simp only [Prod.ext_iff, mk.injEq]
  constructor
  · rintro ⟨⟨hpasses, hagain⟩, hrest⟩
    exact ⟨hagain.symm, hpasses, hrest⟩
  · rintro ⟨hagain, hpasses, hrest⟩
    exact ⟨⟨hpasses, hagain.symm⟩, hrest⟩

/-- A run that rechecks honest passes from a valid graph: the passes that it starts. -/
theorem start_valid_of_honest {ps before later before' : List (Pass σ)} {start : Graph}
    (hvalid : g.check = .ok ()) (hhonest : ∀ p ∈ ps, p.Honest) (hps : ps = before ++ p :: later)
    (hbefore : Completes true before g before' start) : start.check = .ok () := by
  refine hbefore.valid (fun q hq => hhonest q ?_) hvalid
  rw [hps]
  exact List.mem_append_left _ hq

/-- **A run goes through or is ended by the first pass at fault.** It is `ok` exactly when every
    pass succeeds and is accepted by the recheck that is due, each on the graph that the one before
    it left. Otherwise the error names the first pass for which that is not so, and the passes
    behind it do not run. A run that rechecks, on a valid graph and with passes that change nothing
    if they say so, starts every pass on a valid graph; `brokeGraph` then tells where the graph
    ceased to be valid, and `ok` that it is valid at the end. -/
theorem run_ends_at_first_fault (recheck : Bool) (ps : List (Pass σ)) (g : Graph) :
    (∀ q g', (ofPasses recheck ps).run g = (q, g', .ok ()) ↔
      q.recheck = recheck ∧ Completes recheck ps g q.passes g') ∧
    (∀ q g' e, (ofPasses recheck ps).run g = (q, g', .error e) ↔
      q.recheck = recheck ∧ ∃ before p start, StoppedAt recheck ps g q.passes g' e before p start) ∧
    (recheck = true → g.check = .ok () → (∀ p ∈ ps, p.Honest) →
      (∀ before p later before' start, ps = before ++ p :: later →
        Completes true before g before' start → start.check = .ok ()) ∧
      (∀ q g' name error, (ofPasses recheck ps).run g = (q, g', .error (.brokeGraph name error)) →
        ∃ before p start, StoppedAt true ps g q.passes g' (.brokeGraph name error) before p start ∧
          p.name = name ∧ start.check = .ok () ∧ (p.run start).2 = (g', .ok ()) ∧
          g'.check ≠ .ok ()) ∧
      (∀ q g', (ofPasses recheck ps).run g = (q, g', .ok ()) → g'.check = .ok ())) := by
  refine ⟨fun q g' => ?_, fun q g' e => ?_, fun hrecheck hvalid hhonest => ⟨?_, ?_, ?_⟩⟩
  · rw [run_ofPasses, runPasses_eq_ok_iff]
  · rw [run_ofPasses, runPasses_eq_error_iff]
  · intro before p later before' start hps hbefore
    exact start_valid_of_honest hvalid hhonest hps hbefore
  · intro q g' name error hrun
    subst hrecheck
    obtain ⟨-, before, p, start, hstopped⟩ := (run_ofPasses.trans
      (and_congr_right fun _ => runPasses_eq_error_iff)).mp hrun
    refine ⟨before, p, start, hstopped, ?_⟩
    obtain ⟨before', p', later, hps, -, hbefore, hstops⟩ := hstopped
    have hstart : start.check = .ok () := start_valid_of_honest hvalid hhonest hps hbefore
    cases hstops with
    | brokeGraph ran _ _ hbroken =>
        refine ⟨rfl, hstart, by rw [ran], ?_⟩
        rw [hbroken]
        simp
  · intro q g' hrun
    subst hrecheck
    exact (runPasses_eq_ok_iff.mp (run_ofPasses.mp hrun).2).valid hhonest hvalid

/-- A pass that looks at the graph, one that unlinks the readers of the input and owns to it only
    when it has run, then under another name, and one behind it. -/
def unlinking : List (Pass Nat) :=
  [ .ofEdits "look" [] none 0 false,
    { Pass.ofEdits "unlink" [.variableConsumers 0 []] none 0 true with
      nameIn := fun runs => if runs = 0 then "unlink" else "unlinked"
      mutates := fun runs => runs != 0 },
    .ofEdits "look again" [] none 0 false ]

theorem run_unlinking_ends_at_unlink :
    ∃ q g' error before p start,
      (ofPasses true unlinking).run Graph.chain = (q, g', .error (.brokeGraph "unlink" error)) ∧
      q.passes.map Pass.state = [1, 1, 0] ∧
      StoppedAt true unlinking Graph.chain q.passes g' (.brokeGraph "unlink" error) before p start ∧
      p.name = "unlink" ∧ start.check = .ok () ∧ g'.check ≠ .ok () := by
  have hvalid : Graph.chain.check = .ok () := by decide
  have hhonest : ∀ p ∈ unlinking, p.Honest := by
    intro p hp g hmutates
    simp only [unlinking, List.mem_cons, List.not_mem_nil, or_false] at hp
    obtain rfl | rfl | rfl := hp
    · rfl
    · cases hmutates
    · rfl
  have houtcome : ((ofPasses true unlinking).run Graph.chain).2.2 =
      .error (.brokeGraph "unlink"
        ⟨"chain", "'op0' reads x but is not among its consumers"⟩) := by decide
  have hstates : ((ofPasses true unlinking).run Graph.chain).1.passes.map Pass.state =
      [1, 1, 0] := by decide
  rcases hrun : (ofPasses true unlinking).run Graph.chain with ⟨q, g', outcome⟩
  rw [hrun] at houtcome hstates
  subst houtcome
  obtain ⟨-, -, hblame⟩ := run_ends_at_first_fault true unlinking Graph.chain
  obtain ⟨before, p, start, hstopped, hname, hstart, -, hbroken⟩ :=
    (hblame rfl hvalid hhonest).2.1 q g' _ _ hrun
  exact ⟨q, g', _, before, p, start, rfl, hstates, hstopped, hname, hstart, hbroken⟩

end Pipeline

end TensorGraph

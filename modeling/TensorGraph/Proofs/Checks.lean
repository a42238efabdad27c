import TensorGraph.Graph.Validation

/-!
# `TensorGraph.Proofs.Checks` — **when a sequence of checks passes**

Checks are made one after another and the first that fails is the answer. So a sequence of checks
passes exactly when each of them does. The lemmas here say so for two checks in sequence, for one
check per entry of a list, for a list of look-ups, and for the choice of a shape rule. Where two
sequences go along with each other and a function carries what the one has to what the other has,
it does so check by check.
-/

namespace TensorGraph.Checks

variable {ε α β : Type}

/-- A step and what follows it succeed when the step does and then the rest. -/
theorem bind_eq_ok_iff {x : Except ε α} {f : α → Except ε β} {b : β} :
    (x >>= f) = .ok b ↔ ∃ a, x = .ok a ∧ f a = .ok b := by
  cases x with
  | error e => simp [bind, Except.bind]
  | ok a => simp [bind, Except.bind]

/-- Two steps fail when the first fails, or the second on its result. -/
theorem bind_eq_error_iff {x : Except ε α} {f : α → Except ε β} {e : ε} :
    (x >>= f) = .error e ↔ x = .error e ∨ ∃ a, x = .ok a ∧ f a = .error e := by
  cases x <;> simp [bind, Except.bind]

/-- A check and what follows it succeed when both do. -/
theorem check_bind_eq_ok_iff {x : Except ε Unit} {f : Unit → Except ε β} {b : β} :
    (x >>= f) = .ok b ↔ x = .ok () ∧ f () = .ok b := by
  rw [bind_eq_ok_iff]
  exact ⟨fun ⟨_, hx, hf⟩ => ⟨hx, hf⟩, fun ⟨hx, hf⟩ => ⟨(), hx, hf⟩⟩

/-- A guard that throws succeeds when it does not fire and the rest succeeds. -/
theorem guard_eq_ok_iff {p : Prop} [Decidable p] {e : ε} {f : PUnit → Except ε β}
    {x : Except ε β} {b : β} :
    (if p then (throw e : Except ε PUnit) >>= f else x) = .ok b ↔ ¬ p ∧ x = .ok b := by
  by_cases hp : p
  · simp [hp, throw, throwThe, MonadExceptOf.throw, bind, Except.bind]
  · simp [hp]

/-- A demand that throws when it is not met succeeds when it is met and the rest succeeds. -/
theorem unless_eq_ok_iff {p : Prop} [Decidable p] {e : ε} {f : PUnit → Except ε β} {b : β} :
    (if p then f ⟨⟩ else (throw e : Except ε PUnit) >>= f) = .ok b ↔ p ∧ f ⟨⟩ = .ok b := by
  by_cases hp : p
  · simp [hp]
  · simp [hp, throw, throwThe, MonadExceptOf.throw, bind, Except.bind]

/-- Rewording the error changes no success. -/
theorem mapError_eq_ok_iff {ε' : Type} {x : Except ε α} {f : ε → ε'} {a : α} :
    x.mapError f = .ok a ↔ x = .ok a := by
  cases x with
  | error e => exact ⟨nofun, nofun⟩
  | ok b =>
      show (.ok b : Except ε' α) = .ok a ↔ _
      rw [Except.ok.injEq, Except.ok.injEq]

/-- **One check per entry** passes when all of them pass. -/
theorem forM_eq_ok_iff {f : α → Except ε PUnit} {xs : List α} :
    xs.forM f = .ok () ↔ ∀ a ∈ xs, f a = .ok () := by
  induction xs with
  | nil => simp [pure, Except.pure]
  | cons x xs ih =>
      rw [List.forM_eq_forM, List.forM_cons, check_bind_eq_ok_iff, List.forall_mem_cons]
      exact and_congr_right fun _ => ih

/-- **One look-up per entry.** When every entry's look-up has a result exactly if `found` holds of
    it, and then the result that `value?` names, all look-ups together have the list of those. -/
theorem mapM_eq_ok_iff {f : α → Except ε β} {found : α → Prop} {value? : α → Option β}
    (hf : ∀ a b, f a = .ok b ↔ found a ∧ value? a = some b)
    (hvalue : ∀ a, found a → (value? a).isSome) {xs : List α} {ys : List β} :
    xs.mapM f = .ok ys ↔ (∀ a ∈ xs, found a) ∧ xs.filterMap value? = ys := by
  induction xs generalizing ys with
  | nil => simp [pure, Except.pure]
  | cons x xs ih =>
      simp only [List.mapM_cons, bind_eq_ok_iff, ih, hf, List.forall_mem_cons]
      constructor
      · rintro ⟨y, ⟨hx, hy⟩, zs, ⟨hxs, rfl⟩, h⟩
        cases h
        exact ⟨⟨hx, hxs⟩, by rw [List.filterMap_cons, hy]⟩
      · rintro ⟨⟨hx, hxs⟩, rfl⟩
        obtain ⟨y, hy⟩ := Option.isSome_iff_exists.mp (hvalue x hx)
        exact ⟨y, ⟨hx, hy⟩, _, ⟨hxs, rfl⟩, by rw [List.filterMap_cons, hy]; rfl⟩

/-- **The first look-up that fails** is the one that is answered for. -/
theorem mapM_eq_error_iff {f : α → Except ε β} {xs : List α} {e : ε} :
    xs.mapM f = .error e ↔ ∃ before x after, xs = before ++ x :: after ∧
      (∀ b ∈ before, ∃ y, f b = .ok y) ∧ f x = .error e := by
  induction xs with
  | nil => simp [pure, Except.pure]
  | cons x xs ih =>
      have hcons : (x :: xs).mapM f = .error e ↔
          f x = .error e ∨ (∃ y, f x = .ok y) ∧ xs.mapM f = .error e := by
        rw [List.mapM_cons]
        cases f x with
        | error e' => simp [bind, Except.bind]
        | ok y => cases xs.mapM f <;> simp [bind, Except.bind, pure, Except.pure]
      rw [hcons, ih]
      constructor
      · rintro (hx | ⟨hx, before, z, after, rfl, hbefore, hz⟩)
        · exact ⟨[], x, xs, rfl, List.forall_mem_nil _, hx⟩
        · exact ⟨x :: before, z, after, rfl, List.forall_mem_cons.mpr ⟨hx, hbefore⟩, hz⟩
      · rintro ⟨before, z, after, hsplit, hbefore, hz⟩
        cases before with
        | nil =>
            cases hsplit
            exact Or.inl hz
        | cons b before =>
            cases hsplit
            obtain ⟨hb, hrest⟩ := List.forall_mem_cons.mp hbefore
            exact Or.inr ⟨hb, before, z, after, rfl, hrest, hz⟩

/-- A list of look-ups fails where one of them does. -/
theorem exists_of_mapM_eq_error {f : α → Except ε β} {xs : List α} {e : ε}
    (h : xs.mapM f = .error e) : ∃ x ∈ xs, f x = .error e := by
  obtain ⟨before, x, after, rfl, -, hx⟩ := mapM_eq_error_iff.mp h
  exact ⟨x, List.mem_append_right _ List.mem_cons_self, hx⟩

theorem length_of_mapM_eq_ok {f : α → Except ε β} {xs : List α} {ys : List β}
    (h : xs.mapM f = .ok ys) : ys.length = xs.length := by
  induction xs generalizing ys with
  | nil =>
      cases h
      rfl
  | cons x xs ih =>
      rw [List.mapM_cons] at h
      obtain ⟨y, -, hrest⟩ := bind_eq_ok_iff.mp h
      obtain ⟨zs, hzs, hdone⟩ := bind_eq_ok_iff.mp hrest
      cases hdone
      rw [List.length_cons, List.length_cons, ih hzs]

/-- Look-ups that agree on all entries agree on the list. -/
theorem mapM_congr {f f' : α → Except ε β} {xs : List α}
    (h : ∀ a ∈ xs, f a = f' a) : xs.mapM f = xs.mapM f' := by
  induction xs with
  | nil => rfl
  | cons a xs ih =>
      rw [List.mapM_cons, List.mapM_cons, h a List.mem_cons_self,
        ih fun b hb => h b (List.mem_cons_of_mem a hb)]

/-- A shape rule that succeeds gives one shape, as there is one output slot. -/
theorem outputShapes_eq_ok {p : Params} {inputs ys : List Shape}
    (h : p.outputShapes inputs = .ok ys) : ∃ y, ys = [y] := by
  unfold Params.outputShapes at h
  dsimp only at h
  split at h
  all_goals
    obtain ⟨y, -, hy⟩ := bind_eq_ok_iff.mp h
    cases hy
    exact ⟨y, rfl⟩

/-! ## Carried over -/

section Carried

variable {α' β' γ σ τ : Type}

/-- A success that is carried over was one before. -/
theorem map_eq_ok_iff {x : Except ε α} {f : α → β} {b : β} :
    x.map f = .ok b ↔ ∃ a, x = .ok a ∧ f a = b := by
  cases x with
  | error e => exact ⟨nofun, fun ⟨_, h, _⟩ => nomatch h⟩
  | ok a => simp [Except.map]

/-- An error is not changed by being carried over. -/
theorem map_eq_error_iff {x : Except ε α} {f : α → β} {e : ε} :
    x.map f = .error e ↔ x = .error e := by
  cases x with
  | error e' => simp [Except.map]
  | ok a => simp [Except.map]

variable {h : β → β'}

/-- A step carried over, and what follows it. -/
theorem map_bind_eq {x : Except ε α} {f : α → α'} {next : α → Except ε β}
    {next' : α' → Except ε β'} (hnext : ∀ a, next' (f a) = (next a).map h) :
    (x.map f >>= next') = (x >>= next).map h := by
  cases x with
  | error e => rfl
  | ok a => exact hnext a

/-- A step not carried over yet, and what follows it. -/
theorem bind_eq_map {x : Except ε α} {k : α → α'} {next : α' → Except ε β}
    {next' : α → Except ε β'} (hnext : ∀ a, next' a = (next (k a)).map h) :
    (x >>= next') = (x.map k >>= next).map h := by
  cases x with
  | error e => rfl
  | ok a => exact hnext a

/-- The same step on both sides, and what follows it. -/
theorem bind_eq_map_self {x : Except ε γ} {next : γ → Except ε β} {next' : γ → Except ε β'}
    (hnext : ∀ c, next' c = (next c).map h) : (x >>= next') = (x >>= next).map h := by
  cases x with
  | error e => rfl
  | ok c => exact hnext c

/-- Both a step and what follows it are carried over. -/
theorem bind_map_eq {x : Except ε α} {k : α → α'} {next : α' → Except ε β'}
    {next' : α → Except ε β} (hnext : ∀ a, (next' a).map h = next (k a)) :
    (x >>= next').map h = x.map k >>= next := by
  cases x with
  | error e => rfl
  | ok a => exact hnext a

/-- A demand, and what follows it. -/
theorem unless_eq_map {p : Prop} [Decidable p] {e : ε} {next : PUnit → Except ε β}
    {next' : PUnit → Except ε β'} (hnext : next' ⟨⟩ = (next ⟨⟩).map h) :
    (if p then next' ⟨⟩ else (throw e : Except ε PUnit) >>= next') =
      (if p then next ⟨⟩ else (throw e : Except ε PUnit) >>= next).map h := by
  by_cases hp : p
  · rw [if_pos hp, if_pos hp]
    exact hnext
  · rw [if_neg hp, if_neg hp]
    rfl

/-- **A loop** commutes with a map of states that its steps commute with. -/
theorem map_foldlM {m : Type → Type} [Monad m] [LawfulMonad m] {h : σ → τ} {k : α → β}
    {step : σ → α → m σ} {step' : τ → β → m τ}
    (hstep : ∀ s a, h <$> step s a = step' (h s) (k a)) (xs : List α) (s : σ) :
    h <$> xs.foldlM step s = (xs.map k).foldlM step' (h s) := by
  induction xs generalizing s with
  | nil => exact map_pure h s
  | cons a xs ih =>
      rw [List.map_cons, List.foldlM_cons, List.foldlM_cons, ← hstep, map_bind, bind_map_left]
      exact bind_congr fun s => ih s

/-- One look-up per entry, each carried over. -/
theorem map_mapM {h : σ → τ} {k : α → β} {f : α → Except ε σ} {f' : β → Except ε τ}
    (hf : ∀ a, (f a).map h = f' (k a)) (xs : List α) :
    (xs.mapM f).map (List.map h) = (xs.map k).mapM f' := by
  induction xs with
  | nil => rfl
  | cons a xs ih =>
      rw [List.map_cons, List.mapM_cons, List.mapM_cons, ← hf, ← ih]
      cases f a with
      | error e => rfl
      | ok s => cases xs.mapM f <;> rfl

end Carried

end TensorGraph.Checks

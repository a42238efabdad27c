import TensorGraph.Operator.AttributeReader

/-!
# `TensorGraph.Proofs.AttributeReading` — **which names a reading asks for**

A reader that notes what it was asked for refuses the rest. The names that it notes do not depend on
the attributes: as long as a reading goes on, it asks for the same names in the same sequence, and
answers as if nothing were noted. For the parameters of a kind these names are the fields of the
kind, so refusing what nobody asked for is refusing what is no field.

## Contents
- **`Asks`**, and how it goes along with one reading after another.
- **Questions**, one lemma each.
- **Parameters**: `asks_params`, and `answer_eq` for the whole reading.
-/

namespace TensorGraph

namespace AttributeReader

variable {α β : Type} {fields more : List String}

/-- **A reading asks for fields**, whatever else was asked for, and answers as a function of the
    attributes does. -/
def Asks (x : Reading α) (fields : List String) (f : Attributes → Except ParamFault α) : Prop :=
  ∀ attrs asked, x.run ⟨attrs, asked⟩ = (f attrs).map fun a => (a, ⟨attrs, asked ++ fields⟩)

theorem asks_pure (a : α) : Asks (pure a) [] fun _ => .ok a := by
  intro attrs asked
  rw [List.append_nil]
  rfl

/-- What asks nothing may fail. -/
theorem asks_lift (r : Except ParamFault α) : Asks (liftM r) [] fun _ => r := by
  intro attrs asked
  rw [List.append_nil]
  cases r <;> rfl

/-- Questions after questions. -/
theorem Asks.bind {x : Reading α} {k : α → Reading β} {f : Attributes → Except ParamFault α}
    {g : α → Attributes → Except ParamFault β} (hx : Asks x fields f)
    (hk : ∀ a, Asks (k a) more (g a)) :
    Asks (x >>= k) (fields ++ more) fun attrs => f attrs >>= fun a => g a attrs := by
  intro attrs asked
  rw [StateT.run_bind, hx attrs asked]
  dsimp only
  cases f attrs with
  | error e => rfl
  | ok a =>
      show (k a).run ⟨attrs, asked ++ fields⟩ = (g a attrs).map _
      rw [hk a, List.append_assoc]

/-- Something made of the answer. -/
theorem Asks.bind_lift {x : Reading α} {k : α → Reading β} {f : Attributes → Except ParamFault α}
    {g : α → Except ParamFault β} (hx : Asks x fields f)
    (hk : ∀ a, Asks (k a) [] fun _ => g a) :
    Asks (x >>= k) fields fun attrs => f attrs >>= g := by
  have h := hx.bind hk
  rwa [List.append_nil] at h

/-! ## Questions -/

theorem asks_require (field : String) :
    Asks (require field) [field] fun attrs => Params.require attrs field := by
  intro attrs asked
  simp only [require, Params.require, StateT.run_bind, StateT.run_modify, StateT.run_get, pure_bind]
  cases attrs.find? field <;> rfl

/-- Two words of a size, none asked for. -/
theorem asks_words (field : String) (a b : Int64) :
    Asks (do return (⟨← Params.readWord field a, ← Params.readWord field b⟩ : Spatial)) []
      fun _ => do return ⟨← Params.readWord field a, ← Params.readWord field b⟩ :=
  (asks_lift _).bind_lift fun _ => (asks_lift _).bind_lift fun _ => asks_pure _

theorem asks_size (field : String) :
    Asks (size field) [field] fun attrs => Params.readSize attrs field := by
  refine (asks_require field).bind_lift fun v => ?_
  cases v with
  | int n => exact asks_words field n n
  | pair a b => exact asks_words field a b
  | axis a => exact asks_lift _

theorem asks_axis (field : String) :
    Asks (axis field) [field] fun attrs => Params.readAxis attrs field := by
  refine (asks_require field).bind_lift fun v => ?_
  cases v with
  | axis a => exact asks_pure a
  | int n => exact asks_lift _
  | pair a b => exact asks_lift _

theorem asks_window : Asks window ["ksize", "stride", "padding"] Params.readWindow := by
  refine (asks_size "ksize").bind fun kernel => (asks_size "stride").bind fun stride =>
    (asks_size "padding").bind_lift fun padding => ?_
  cases h : Window.fault? ⟨kernel, stride, padding⟩ with
  | some fault =>
      simp only [h]
      exact asks_lift _
  | none =>
      simp only [h]
      exact asks_pure _

/-! ## Parameters -/

/-- **A kind asks for its fields**, each once and in their order. -/
theorem asks_params (kind : OperatorKind) :
    Asks (params kind) kind.fields (Params.readFields kind) := by
  cases kind with
  | convolution => exact asks_window.bind_lift fun w => asks_pure _
  | pooling v => exact asks_window.bind_lift fun w => asks_pure _
  | axiswise v => exact (asks_axis "axis").bind_lift fun a => asks_pure _
  | reduce v => exact (asks_axis "axis").bind_lift fun a => asks_pure _
  | linear => exact asks_pure _
  | activation v => exact asks_pure _
  | elementwiseSum => exact asks_pure _

/-- At the end the names are refused that were not asked for. -/
theorem run_finish (attrs : Attributes) (asked : List String) :
    finish.run ⟨attrs, asked⟩ =
      (Params.refuseOthers attrs asked).map fun u => (u, ⟨attrs, asked⟩) := by
  simp only [finish, Params.refuseOthers, StateT.run_bind, StateT.run_get, pure_bind]
  cases attrs.keys.find? (· ∉ asked) <;> rfl

/-- **A reader of its own** finds what `ofAttributes` finds. -/
theorem answer_eq (kind : OperatorKind) (attrs : Attributes) :
    answer kind attrs = Params.ofAttributes kind attrs := by
  unfold answer readAll Params.ofAttributes
  rw [StateT.run'_eq, StateT.run_bind, asks_params kind attrs []]
  cases Params.readFields kind attrs with
  | error e => rfl
  | ok p =>
      show Prod.fst <$> (finish.run ⟨attrs, kind.fields⟩ >>= fun q => pure (p, q.2)) =
        (Params.refuseOthers attrs kind.fields >>= fun _ => pure p)
      rw [run_finish]
      cases Params.refuseOthers attrs kind.fields <;> rfl

end AttributeReader

end TensorGraph

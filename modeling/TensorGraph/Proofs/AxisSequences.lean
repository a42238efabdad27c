import Mathlib.Data.Set.List
import TensorGraph.Proofs.JsonRoundTrip
import TensorGraph.Proofs.StoredRules

/-!
# `TensorGraph.Proofs.AxisSequences` — **orders among sequences of axes and of letters**

Not every sequence of axes is an order, nor does every text spell one. Which do, and what is wrong
with the others, is said here without the table that an order is made with: a sequence repeats an
axis where a beginning of it without repetition goes on with one of its own axes. Comparing an order
with a sequence is less strict. It looks at lengths and at one inclusion, which is the same axes in
some order as long as the sequence repeats none.

## Contents
- **Comparing** an order with a sequence, and where that is not having the same axes.
- **First repetitions**, and what making an order refuses.
- **Letters.** `Spells` and `Misspells` say what letters make and what is wrong with them.
- **Texts and JSON** of stored orders: `parse_exact`.
-/

namespace TensorGraph

open Checks

/-! ## Comparing -/

namespace StoredOrder

/-- **What comparing looks at**: as many axes as the order has, and only axes of the order. -/
theorem sameAxes_eq_true_iff {o : StoredOrder} (ho : o.Obtainable) {axes : List Axis} :
    o.sameAxes axes = true ↔ axes.length = o.rank ∧ ∀ a ∈ axes, a ∈ o.axes := by
  obtain ⟨p, rfl⟩ := obtainable_iff.mp ho
  rw [eq_comm (a := axes.length), sameAxes]
  simp only [AxisOrder.contains_stored, AxisOrder.axes_stored, Bool.and_eq_true, beq_iff_eq,
    List.all_eq_true, AxisOrder.contains_iff]

/-- A sequence that repeats no axis is rearranged from the order if it compares equal. -/
theorem sameAxes_iff_perm {o : StoredOrder} (ho : o.Obtainable) {axes : List Axis}
    (hdistinct : axes.Nodup) : o.sameAxes axes = true ↔ axes.Perm o.axes := by
  obtain ⟨q, rfl⟩ := obtainable_iff.mp ho
  rw [AxisOrder.sameAxes_stored, AxisOrder.sameAxes_iff_perm hdistinct, List.perm_comm]
  exact Iff.rfl

/-- **Comparing an order with a sequence** is asking whether the two have the same axes, in some
    order, if the sequence repeats no axis, as the axes of another order do not. It is never
    too strict. It is too lenient exactly on the sequences that are as long as the order, name only
    axes of it, and repeat one of them. -/
theorem sameAxes_exact {o : StoredOrder} (ho : o.Obtainable) (axes : List Axis) :
    (axes.Nodup → (o.sameAxes axes = true ↔ axes.Perm o.axes)) ∧
      (∀ p : StoredOrder, p.Obtainable → (o.sameAxes p.axes = true ↔ p.axes.Perm o.axes)) ∧
      (axes.Perm o.axes → o.sameAxes axes = true) ∧
      (o.sameAxes axes = true ∧ ¬ axes.Perm o.axes ↔
        (axes.length = o.rank ∧ ∀ a ∈ axes, a ∈ o.axes) ∧ ¬ axes.Nodup) ∧
      ∀ q : AxisOrder, q.stored = o → q.sameAxes axes = o.sameAxes axes := by
  have hperm : axes.Perm o.axes ↔ o.sameAxes axes = true ∧ axes.Nodup := by
    constructor
    · intro h
      have hdistinct : axes.Nodup := h.nodup_iff.mpr ho.sound.nodup
      exact ⟨(sameAxes_iff_perm ho hdistinct).mpr h, hdistinct⟩
    · rintro ⟨hsame, hdistinct⟩
      exact (sameAxes_iff_perm ho hdistinct).mp hsame
  refine ⟨sameAxes_iff_perm ho, fun p hp => sameAxes_iff_perm ho hp.sound.nodup,
    fun h => (hperm.mp h).1, ?_, ?_⟩
  · rw [hperm, ← sameAxes_eq_true_iff ho, not_and, and_congr_right_iff]
    intro hsame
    exact imp_iff_right hsame
  · rintro q rfl
    exact (q.sameAxes_stored axes).symm

/-- A rearrangement of four axes, and the axes of an order with one more. -/
theorem sameAxes_exact_images :
    AxisOrder.nchw.stored.sameAxes [.width, .channel, .batch, .height] = true ∧
      AxisOrder.nchw.stored.sameAxes [.width, .channel, .batch] = false := by
  have hnchw : AxisOrder.nchw.stored.Obtainable := obtainable_iff.mpr ⟨.nchw, rfl⟩
  obtain ⟨hfour, -⟩ := sameAxes_exact hnchw [.width, .channel, .batch, .height]
  obtain ⟨hthree, -⟩ := sameAxes_exact hnchw [.width, .channel, .batch]
  refine ⟨(hfour (by decide)).mpr (by decide), ?_⟩
  rw [Bool.eq_false_iff, ne_eq, hthree (by decide)]
  decide

/-- The batch twice is taken for batch and channel. -/
theorem sameAxes_batch_twice :
    AxisOrder.nc.stored.Obtainable ∧
      AxisOrder.nc.stored.sameAxes [.batch, .batch] = true ∧
      AxisOrder.nc.sameAxes [.batch, .batch] = true ∧
      ¬ [Axis.batch, .batch].Perm AxisOrder.nc.stored.axes :=
  ⟨obtainable_iff.mpr ⟨.nc, rfl⟩, by decide, by decide, by decide⟩

end StoredOrder

/-! ## First repetitions -/

namespace AxisOrder

variable {axes : List Axis} {a : Axis} {e : ShapeError}

theorem firstRepeatAfter?_eq_some_iff {seen : List Axis} :
    firstRepeatAfter? seen axes = some a ↔
      ∃ before after, axes = before ++ a :: after ∧ firstRepeatAfter? seen before = none ∧
        (a ∈ seen ∨ a ∈ before) := by
  induction axes generalizing seen with
  | nil => simp [firstRepeatAfter?]
  | cons first rest ih =>
      rw [firstRepeatAfter?]
      by_cases hseen : first ∈ seen
      · rw [if_pos hseen, Option.some.injEq]
        constructor
        · rintro rfl
          exact ⟨[], rest, rfl, rfl, Or.inl hseen⟩
        · rintro ⟨before, after, hsplit, hbefore, -⟩
          cases before with
          | nil =>
              cases hsplit
              rfl
          | cons b before =>
              cases hsplit
              rw [firstRepeatAfter?, if_pos hseen] at hbefore
              cases hbefore
      · rw [if_neg hseen, ih]
        constructor
        · rintro ⟨before, after, rfl, hbefore, hrepeat⟩
          refine ⟨first :: before, after, rfl, ?_, ?_⟩
          · rw [firstRepeatAfter?, if_neg hseen]
            exact hbefore
          · simp only [List.mem_cons] at hrepeat ⊢
            tauto
        · rintro ⟨before, after, hsplit, hbefore, hrepeat⟩
          cases before with
          | nil =>
              cases hsplit
              exact absurd (hrepeat.resolve_right List.not_mem_nil) hseen
          | cons b before =>
              cases hsplit
              rw [firstRepeatAfter?, if_neg hseen] at hbefore
              refine ⟨before, after, rfl, hbefore, ?_⟩
              simp only [List.mem_cons] at hrepeat ⊢
              tauto

/-- **The first repetition** is where a beginning that repeats nothing goes on with one of its own
    axes. -/
theorem firstRepeat?_eq_some_iff :
    firstRepeat? axes = some a ↔
      ∃ before after, axes = before ++ a :: after ∧ before.Nodup ∧ a ∈ before := by
  unfold firstRepeat?
  simp only [firstRepeatAfter?_eq_some_iff, firstRepeatAfter?_eq_none_iff, List.not_mem_nil,
    not_false_eq_true, implies_true, and_true, false_or]

/-- **Making an order refuses** no axes at all, and the first repetition. -/
theorem ofAxes_eq_error_iff :
    ofAxes axes = .error e ↔
      axes = [] ∧ e = .emptyOrder ∨ ∃ a, firstRepeat? axes = some a ∧ e = .duplicateAxis a := by
  unfold ofAxes
  split
  · rename_i hempty
    subst hempty
    simp [firstRepeat?, firstRepeatAfter?, eq_comm]
  · rename_i hne
    split
    · rename_i b hb
      simp [hne, hb, eq_comm]
    · rename_i hnone
      simp [hne, hnone]

end AxisOrder

/-! ## Letters -/

namespace Axis

/-- The character stands for an axis. -/
def IsLetter (c : Char) : Prop := c ∈ ['N', 'C', 'H', 'W', 'T']

instance (c : Char) : Decidable (IsLetter c) := inferInstanceAs (Decidable (_ ∈ _))

theorem isLetter_iff {c : Char} : IsLetter c ↔ ∃ a : Axis, c = a.letter := by
  constructor
  · intro h
    simp only [IsLetter, List.mem_cons, List.not_mem_nil, or_false] at h
    rcases h with rfl | rfl | rfl | rfl | rfl
    · exact ⟨.batch, rfl⟩
    · exact ⟨.channel, rfl⟩
    · exact ⟨.height, rfl⟩
    · exact ⟨.width, rfl⟩
    · exact ⟨.time, rfl⟩
  · rintro ⟨a, rfl⟩
    cases a <;> decide

theorem letter_injective : Function.Injective letter := by
  intro a b h
  have hread := congrArg ofLetter? h
  rw [ofLetter?_letter, ofLetter?_letter] at hread
  exact Option.some.inj hread

/-- Letters are those of a sequence of axes. -/
theorem forall_isLetter_iff {cs : List Char} :
    (∀ c ∈ cs, IsLetter c) ↔ ∃ axes : List Axis, axes.map letter = cs := by
  constructor
  · intro h
    have hrange : cs ∈ Set.range (List.map letter) := by
      rw [Set.range_list_map]
      intro c hc
      obtain ⟨a, rfl⟩ := isLetter_iff.mp (h c hc)
      exact ⟨a, rfl⟩
    exact hrange
  · rintro ⟨axes, rfl⟩ c hc
    obtain ⟨a, -, rfl⟩ := List.mem_map.mp hc
    exact isLetter_iff.mpr ⟨a, rfl⟩

end Axis

namespace AxisOrder

open Axis (IsLetter letter isLetter_iff)

variable {cs : List Char} {c : Char} {axes : List Axis} {e : ShapeError}

/-- **Letters that spell an order**: at least one, each of an axis, and none twice. -/
structure Spells (cs : List Char) : Prop where
  ne_nil : cs ≠ []
  isLetter : ∀ c ∈ cs, IsLetter c
  nodup : cs.Nodup

/-- **What is wrong with letters that spell none.** A foreign character counts before all else. -/
inductive Misspells (cs : List Char) : ShapeError → Prop where
  /-- The first foreign character, anywhere. -/
  | foreign {before after : List Char} {c : Char} (hsplit : cs = before ++ c :: after)
      (hbefore : ∀ b ∈ before, IsLetter b) (hforeign : ¬ IsLetter c) :
      Misspells cs (.unknownLetter c)
  | empty (hempty : cs = []) : Misspells cs .emptyOrder
  /-- Among letters, the one at the earliest place that repeats one before it. -/
  | repeated {before after : List Char} {a : Axis} (hsplit : cs = before ++ a.letter :: after)
      (hletters : ∀ c ∈ cs, IsLetter c) (hbefore : before.Nodup) (hrepeat : a.letter ∈ before) :
      Misspells cs (.duplicateAxis a)

theorem readLetter_eq_ok_iff {a : Axis} : readLetter c = .ok a ↔ c = a.letter := by
  rw [← Axis.ofLetter?_eq_some_iff, readLetter]
  cases Axis.ofLetter? c <;> simp

theorem exists_readLetter_iff : (∃ a, readLetter c = .ok a) ↔ IsLetter c := by
  simp only [readLetter_eq_ok_iff, isLetter_iff]

theorem readLetter_eq_error_iff :
    readLetter c = .error e ↔ ¬ IsLetter c ∧ e = .unknownLetter c := by
  rw [← exists_readLetter_iff, readLetter]
  cases Axis.ofLetter? c <;> simp [eq_comm]

theorem mapM_readLetter_eq_ok_iff :
    cs.mapM readLetter = .ok axes ↔ axes.map letter = cs := by
  constructor
  · intro h
    induction cs generalizing axes with
    | nil =>
        cases h
        rfl
    | cons c cs ih =>
        rw [List.mapM_cons] at h
        obtain ⟨a, ha, hrest⟩ := bind_eq_ok_iff.mp h
        obtain ⟨rest, hread, hdone⟩ := bind_eq_ok_iff.mp hrest
        cases hdone
        rw [List.map_cons, ih hread, readLetter_eq_ok_iff.mp ha]
  · rintro rfl
    exact mapM_readLetter axes

/-- **The letters of an order** are read as the order, and no others. -/
theorem ofLetters_eq_ok_iff {o : AxisOrder} : ofLetters cs = .ok o ↔ o.letters = cs := by
  unfold ofLetters
  simp only [bind_eq_ok_iff, mapM_readLetter_eq_ok_iff, ofAxes_eq_ok_iff]
  constructor
  · rintro ⟨_, hcs, rfl⟩
    exact hcs
  · intro hcs
    exact ⟨_, hcs, rfl⟩

theorem exists_letters_eq_iff : (∃ o : AxisOrder, o.letters = cs) ↔ Spells cs := by
  constructor
  · rintro ⟨o, rfl⟩
    exact
      { ne_nil := mt List.map_eq_nil_iff.mp o.axes_ne_nil
        isLetter := Axis.forall_isLetter_iff.mpr ⟨o.axes, rfl⟩
        nodup := o.nodup.map Axis.letter_injective }
  · intro h
    obtain ⟨axes, rfl⟩ := Axis.forall_isLetter_iff.mp h.isLetter
    exact ⟨⟨axes, mt List.map_eq_nil_iff.mpr h.ne_nil, h.nodup.of_map⟩, rfl⟩

/-- **Reading letters refuses** what is wrong with them. -/
theorem ofLetters_eq_error_iff : ofLetters cs = .error e ↔ Misspells cs e := by
  unfold ofLetters
  rw [bind_eq_error_iff]
  constructor
  · rintro (hread | ⟨axes, hread, hmade⟩)
    · obtain ⟨before, c, after, hsplit, hbefore, hc⟩ := mapM_eq_error_iff.mp hread
      obtain ⟨hforeign, rfl⟩ := readLetter_eq_error_iff.mp hc
      exact .foreign hsplit (fun b hb => exists_readLetter_iff.mp (hbefore b hb)) hforeign
    · obtain rfl := mapM_readLetter_eq_ok_iff.mp hread
      rcases ofAxes_eq_error_iff.mp hmade with ⟨rfl, rfl⟩ | ⟨a, ha, rfl⟩
      · exact .empty rfl
      · obtain ⟨before, after, rfl, hnodup, hmem⟩ := firstRepeat?_eq_some_iff.mp ha
        exact .repeated (List.map_append ..) (Axis.forall_isLetter_iff.mpr ⟨_, rfl⟩)
          (hnodup.map Axis.letter_injective) (List.mem_map_of_mem hmem)
  · intro h
    cases h with
    | foreign hsplit hbefore hforeign =>
        refine Or.inl (mapM_eq_error_iff.mpr ⟨_, _, _, hsplit, fun b hb => ?_, ?_⟩)
        · exact exists_readLetter_iff.mpr (hbefore b hb)
        · exact readLetter_eq_error_iff.mpr ⟨hforeign, rfl⟩
    | empty hempty =>
        subst hempty
        exact Or.inr ⟨[], rfl, rfl⟩
    | repeated hsplit hletters hbefore hrepeat =>
        obtain ⟨axes, rfl⟩ := Axis.forall_isLetter_iff.mp hletters
        obtain ⟨before, rest, rfl, rfl, hrest⟩ := List.map_eq_append_iff.mp hsplit
        obtain ⟨b, after, rfl, hb, -⟩ := List.map_eq_cons_iff.mp hrest
        obtain rfl := Axis.letter_injective hb
        refine Or.inr ⟨_, mapM_readLetter_eq_ok_iff.mpr rfl, ofAxes_eq_error_iff.mpr (Or.inr ?_)⟩
        refine ⟨_, firstRepeat?_eq_some_iff.mpr ⟨before, after, rfl, hbefore.of_map, ?_⟩, rfl⟩
        exact (List.mem_map_of_injective Axis.letter_injective).mp hrepeat

end AxisOrder

/-! ## Texts and JSON -/

namespace Json

variable {α β : Type}

/-- **A reader that makes a value of a part** makes it of the part that it reads off the text. -/
theorem readAll_readInto {part : Reader α} {make : α → Except ShapeError β} {json : String} {a : α}
    (h : readAll part json = .ok a) :
    readAll (readInto part make) json = (make a).mapError .invalid := by
  obtain ⟨rest, hpart, hblank⟩ := readAll_eq_ok_iff.mp h
  cases hmade : make a with
  | ok b =>
      refine readAll_eq_ok_iff.mpr ⟨rest, bind_eq_ok_iff.mpr ⟨(a, rest), hpart, ?_⟩, hblank⟩
      dsimp only
      rw [hmade]
      rfl
  | error e =>
      have hinto : readInto part make json.toList = .error (.invalid e) := by
        refine bind_eq_error_iff.mpr (Or.inr ⟨(a, rest), hpart, ?_⟩)
        dsimp only
        rw [hmade]
        rfl
      exact bind_eq_error_iff.mpr (Or.inl hinto)

/-- **What such a reader makes** was made of a part that is all of the text. -/
theorem readAll_readInto_eq_ok_iff {part : Reader α} {make : α → Except ShapeError β}
    {json : String} {b : β} :
    readAll (readInto part make) json = .ok b ↔
      ∃ a, readAll part json = .ok a ∧ make a = .ok b := by
  constructor
  · intro h
    obtain ⟨rest, hinto, hblank⟩ := readAll_eq_ok_iff.mp h
    obtain ⟨⟨a, rest'⟩, hpart, hmake⟩ := bind_eq_ok_iff.mp hinto
    obtain ⟨b', hb, hpair⟩ := bind_eq_ok_iff.mp hmake
    cases hpair
    exact ⟨a, readAll_eq_ok_iff.mpr ⟨rest, hpart, hblank⟩, mapError_eq_ok_iff.mp hb⟩
  · rintro ⟨a, hpart, hmake⟩
    rw [readAll_readInto hpart, hmake]
    rfl

end Json

namespace StoredOrder

open AxisOrder (Spells Misspells)

variable {text : String} {o : StoredOrder} {e : ShapeError}

theorem text_stored (p : AxisOrder) : p.stored.text = p.text := rfl

/-- **A text is read as the order whose letters it has.** -/
theorem parse_eq_ok_iff :
    parse text = .ok o ↔ ∃ p : AxisOrder, p.letters = text.toList ∧ p.stored = o := by
  rw [AxisOrder.parse_eq, map_eq_ok_iff]
  simp only [AxisOrder.parse, AxisOrder.ofLetters_eq_ok_iff]

/-- **Reading a text refuses** what is wrong with its letters. -/
theorem parse_eq_error_iff : parse text = .error e ↔ Misspells text.toList e := by
  rw [AxisOrder.parse_eq, map_eq_error_iff, AxisOrder.parse, AxisOrder.ofLetters_eq_error_iff]

/-- **Orders as texts.** A text is read as an order exactly if it spells one, and then it is the
    written form of what was read; every order is read back from its written form. A text is refused
    with what is wrong with it. In JSON orders are strings: whatever string stands there, escapes or
    not, is read as the text it means, with the same order or the same error, and every text can
    stand there. -/
theorem parse_exact :
    (∀ text, (∃ o, parse text = .ok o) ↔ Spells text.toList) ∧
      (∀ text o, parse text = .ok o → o.Obtainable ∧ o.text = text) ∧
      (∀ o : StoredOrder, o.Obtainable → parse o.text = .ok o) ∧
      (∀ text e, parse text = .error e ↔ Misspells text.toList e) ∧
      (∀ json text, Json.Codec.text.decode json = .ok text →
        Json.readAll read json = (parse text).mapError .invalid) ∧
      (∀ json o, Json.readAll read json = .ok o ↔
        ∃ text, Json.Codec.text.decode json = .ok text ∧ parse text = .ok o) ∧
      ∀ text, Json.Codec.text.decode (Json.Codec.text.encode text) = .ok text := by
  refine ⟨fun text => ?_, fun text o h => ?_, fun o ho => ?_, fun text e => parse_eq_error_iff,
    fun json text => Json.readAll_readInto, fun json o => Json.readAll_readInto_eq_ok_iff,
    Json.Codec.faithful_text.decode_encode⟩
  · rw [← AxisOrder.exists_letters_eq_iff]
    constructor
    · rintro ⟨o, ho⟩
      obtain ⟨p, hp, -⟩ := parse_eq_ok_iff.mp ho
      exact ⟨p, hp⟩
    · rintro ⟨p, hp⟩
      exact ⟨p.stored, parse_eq_ok_iff.mpr ⟨p, hp, rfl⟩⟩
  · obtain ⟨p, hp, rfl⟩ := parse_eq_ok_iff.mp h
    refine ⟨.parse h, ?_⟩
    rw [text_stored, AxisOrder.text, hp, String.ofList_toList]
  · obtain ⟨p, rfl⟩ := obtainable_iff.mp ho
    rw [text_stored]
    exact parse_eq_ok_iff.mpr ⟨p, String.toList_ofList.symm, rfl⟩

/-- A foreign letter after repetitions, in a text and in JSON, two axes that are repeated, and the
    written form of an order. -/
theorem parse_exact_images :
    parse "NCNCé" = .error (.unknownLetter 'é') ∧
      Json.readAll read (Json.Codec.text.encode "NCNCé") =
        .error (.invalid (.unknownLetter 'é')) ∧
      parse "NCHCN" = .error (.duplicateAxis .channel) ∧
      parse AxisOrder.nchw.stored.text = .ok AxisOrder.nchw.stored := by
  obtain ⟨-, -, hback, herror, hjson, -, hencode⟩ := parse_exact
  have hforeign : "NCNCé".toList = ['N', 'C', 'N', 'C'] ++ 'é' :: [] := by decide
  have hrepeated : "NCHCN".toList = ['N', 'C', 'H'] ++ Axis.channel.letter :: ['N'] := by decide
  have hletters : ∀ axes : List Axis, ∀ c ∈ axes.map Axis.letter, Axis.IsLetter c := fun axes =>
    Axis.forall_isLetter_iff.mpr ⟨axes, rfl⟩
  have hfault : parse "NCNCé" = .error (.unknownLetter 'é') :=
    (herror _ _).mpr (.foreign hforeign (hletters [.batch, .channel, .batch, .channel]) (by decide))
  refine ⟨hfault, ?_, (herror _ _).mpr ?_, ?_⟩
  · rw [hjson _ _ (hencode "NCNCé"), hfault]
    rfl
  · exact .repeated hrepeated (hletters [.batch, .channel, .height, .channel, .batch]) (by decide)
      (by decide)
  · exact hback _ (obtainable_iff.mpr ⟨.nchw, rfl⟩)

end StoredOrder

end TensorGraph

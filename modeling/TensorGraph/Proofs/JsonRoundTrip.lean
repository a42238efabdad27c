import TensorGraph.Json.Forms
import TensorGraph.Proofs.Checks
import TensorGraph.Proofs.JsonText

/-!
# `TensorGraph.Proofs.JsonRoundTrip` — **no data is lost in JSON**

Every codec of the library is faithful: what it writes it reads back, with nothing left over and
whatever stands behind. Faithfulness goes up from words and names to lists, maps and records. For
readers that check what they make it says that they accept all that their writers write.

## Contents
- **Words, texts and names.**
- **Maps**: entries in order build the map again.
- **Orders and parameters.**
- **Records**: shapes, options, regions, layouts.
- **Whole texts**, `codecs_lose_nothing`.
-/

namespace TensorGraph

open Json Checks

/-! ## Words, texts and names -/

namespace Json.Codec

variable {α β : Type}

theorem opens_writeString (s : String) : ∃ x xs, writeString s = x :: xs ∧ Opens x :=
  ⟨'"', _, rfl, by decide, by decide, by decide, by decide⟩

theorem faithful_text : text.Faithful where
  opens := opens_writeString
  read_write s rest _ := readString_write s rest

theorem faithful_word : word.Faithful where
  opens n := opens_writeInteger n.toNat
  read_write n rest h := by
    have hlow : (0 : Int) ≤ n.toNat := Int.natCast_nonneg _
    have hhigh : (n.toNat : Int) ≤ Int.ofNat (UInt64.size - 1) := by
      have hlt : n.toNat < UInt64.size := n.toNat_lt
      exact Int.ofNat_le.mpr (Nat.le_sub_one_of_lt hlt)
    show (readInteger 0 (Int.ofNat (UInt64.size - 1)) (writeInteger n.toNat ++ rest) >>= _) = _
    rw [readInteger_write hlow hhigh h]
    show Except.ok (UInt64.ofNat (n.toNat : Int).toNat, rest) = _
    rw [Int.toNat_natCast, UInt64.ofNat_toNat]

theorem faithful_signed : signed.Faithful where
  opens n := opens_writeInteger n.toInt
  read_write n rest h := by
    show (readInteger _ _ (writeInteger n.toInt ++ rest) >>= _) = _
    rw [readInteger_write n.minValue_le_toInt n.toInt_le h]
    show Except.ok (Int64.ofInt n.toInt, rest) = _
    rw [Int64.ofInt_toInt]

/-- **Values that go by a name** are read back if their names are. -/
theorem faithful_named {name : α → String} {ofName? : String → Option α}
    (hname : ∀ a, ofName? (name a) = some a) : (named name ofName?).Faithful where
  opens a := opens_writeString (name a)
  read_write a rest _ := by
    -- A written name opens with a quote, so it is not taken for an object.
    show (readString (writeString (name a) ++ rest) >>= _) = _
    rw [readString_write]
    show (ofName ofName? (name a) >>= _) = _
    rw [ofName, hname]
    rfl

/-! ## Lists and maps -/

theorem opens_writeArray (parts : List (List Char)) :
    ∃ x xs, writeArray parts = x :: xs ∧ Opens x :=
  ⟨'[', _, rfl, by decide, by decide, by decide, by decide⟩

theorem opens_writeObject (ms : List (String × List Char)) :
    ∃ x xs, writeObject ms = x :: xs ∧ Opens x :=
  ⟨'\x7b', _, rfl, by decide, by decide, by decide, by decide⟩

variable {c : Codec α}

theorem Faithful.list (h : c.Faithful) : c.list.Faithful where
  opens _ := opens_writeArray _
  read_write as rest _ := h.readArray as rest

end Json.Codec

namespace NameMap

variable {α : Type}

/-- Entries in order are found where they are, in front of what was there before. -/
theorem find?_foldl_insert {es : List (String × α)} (hs : es.Pairwise (fun a b => a.1 < b.1))
    (m : NameMap α) (q : String) :
    (es.foldl (fun m e => m.insert e.1 e.2) m).find? q = (lookup q es).or (m.find? q) := by
  induction es generalizing m with
  | nil => rfl
  | cons e es ih =>
      obtain ⟨he, hes⟩ := List.pairwise_cons.mp hs
      rw [List.foldl_cons, ih hes, find?_insert, lookup]
      by_cases hq : q = e.1
      · -- Later entries have later names.
        have hnone : lookup q es = none := lookup_eq_none_iff.mpr fun f hf heq =>
          String.lt_irrefl _ (heq.trans hq ▸ he f hf)
        rw [hnone, if_pos hq, if_pos hq]
        rfl
      · rw [if_neg hq, if_neg hq]

/-- **A map is built again** from its entries. -/
theorem ofList_entries (m : NameMap α) : ofList m.entries = m := by
  refine ext_find? fun q => ?_
  rw [ofList, find?_foldl_insert m.sorted, find?_empty, Option.or_none]
  rfl

end NameMap

namespace Json.Codec

variable {α : Type} {c : Codec α}

/-- A map's members are put into a map one after another. -/
theorem Faithful.absorbs_entries (h : c.Faithful) (es : List (String × α)) (m : NameMap α) :
    Absorbs (fun m name cs => do
        let (a, rest) ← c.read cs
        return (NameMap.insert m name a, rest))
      m (es.map fun e => (e.1, c.write e.2)) (es.foldl (fun m e => m.insert e.1 e.2) m) := by
  induction es generalizing m with
  | nil => exact .nil m
  | cons e es ih =>
      refine .cons (m.insert e.1 e.2) (fun rest hrest => ?_) (ih _)
      show (c.read (c.write e.2 ++ rest) >>= _) = _
      rw [h.read_write e.2 rest hrest]
      rfl

theorem Faithful.map (h : c.Faithful) : c.map.Faithful where
  opens _ := opens_writeObject _
  read_write m rest _ := by
    have hentries : m.entries.foldl (fun m e => m.insert e.1 e.2) .empty = m := m.ofList_entries
    have hread := readObject_write (h.absorbs_entries m.entries .empty) rest
    rw [hentries] at hread
    exact hread

end Json.Codec

/-! ## Orders, sets and parameters -/

theorem AxisOrder.mapM_readLetter (axes : List Axis) :
    (axes.map Axis.letter).mapM readLetter = .ok axes := by
  induction axes with
  | nil => rfl
  | cons a axes ih =>
      rw [List.map_cons, List.mapM_cons, readLetter, Axis.ofLetter?_letter, ih]
      rfl

/-- The letters of an order spell it. -/
theorem AxisOrder.parse_text (o : AxisOrder) : parse o.text = .ok o := by
  rw [parse, text, String.toList_ofList, ofLetters, letters, mapM_readLetter]
  exact ofAxes_axes o

theorem AxisOrder.faithful_codec : AxisOrder.codec.Faithful where
  opens o := Codec.opens_writeString o.text
  read_write o rest _ := by
    show (readString (writeString o.text ++ rest) >>= _) = _
    rw [readString_write]
    show ((AxisOrder.parse o.text).mapError ReadFault.invalid >>= _) = _
    rw [o.parse_text]
    rfl

theorem Axis.ofText?_text (a : Axis) : ofText? a.text = some a := by cases a <;> decide

theorem Axis.faithful_codec : Axis.codec.Faithful := Codec.faithful_named ofText?_text

theorem Capability.faithful_codec : Capability.codec.Faithful :=
  Codec.faithful_named fun c => by cases c <;> decide

theorem OperatorKind.faithful_codec : OperatorKind.codec.Faithful :=
  Codec.faithful_named ofName?_name

theorem Variable.Role.faithful_codec : Variable.Role.codec.Faithful :=
  Codec.faithful_named fun r => by cases r <;> decide

theorem CapabilitySet.faithful_codec : CapabilitySet.codec.Faithful where
  opens s := opens_writeInteger s.bits.toNat
  read_write s rest h := by
    have hlt : s.bits.toNat < 256 := s.bits.isLt
    show (readInteger 0 255 (writeInteger s.bits.toNat ++ rest) >>= _) = _
    rw [readInteger_write (by omega) (by omega) h]
    show Except.ok ((⟨BitVec.ofNat 8 (s.bits.toNat : Int).toNat⟩ : CapabilitySet), rest) = _
    rw [Int.toNat_natCast, BitVec.ofNat_toNat, BitVec.setWidth_eq]

namespace Attribute

theorem opens_write (a : Attribute) : ∃ x xs, codec.write a = x :: xs ∧ Opens x := by
  cases a with
  | int n => exact Codec.faithful_signed.opens n
  | pair m n => exact Codec.opens_writeArray _
  | axis a => exact Axis.faithful_codec.opens a

/-- A sign or a digit tells an integer from a pair and an axis. -/
theorem read_eq_of_skipBlanks {cs xs : List Char} {x : Char} (hskip : skipBlanks cs = x :: xs)
    (hx : x.isDigit = true ∨ x = '-') :
    read cs = (do
      let (n, rest) ← Codec.signed.read cs
      return (.int n, rest)) := by
  have hmark : ∀ {mark : Char} {cs : List Char}, x :: xs = mark :: cs → mark.isDigit = false →
      mark ≠ '-' → False := by
    rintro mark cs hcons hdigit hsign
    obtain ⟨rfl, -⟩ := List.cons.inj hcons
    rcases hx with hx | hx
    · rw [hdigit] at hx
      cases hx
    · exact hsign hx
  unfold read
  rw [hskip]
  split
  · rename_i hbracket
    exact (hmark hbracket (by decide) (by decide)).elim
  · rename_i hquote
    exact (hmark hquote (by decide) (by decide)).elim
  · rename_i hbrace
    exact (hmark hbrace (by decide) (by decide)).elim
  · rfl

theorem read_int (n : Int64) {rest : List Char} (h : Ends rest) :
    read (codec.write (int n) ++ rest) = .ok (int n, rest) := by
  obtain ⟨x, xs, hx, hdigit⟩ := writeInteger_eq_cons n.toInt
  have hskip : skipBlanks (writeInteger n.toInt ++ rest) = x :: (xs ++ rest) := by
    rw [hx, List.cons_append, skipBlanks_cons (opens_of_isDigit_or_sign hdigit).1]
  show read (writeInteger n.toInt ++ rest) = _
  rw [read_eq_of_skipBlanks hskip hdigit]
  show (Codec.signed.read (Codec.signed.write n ++ rest) >>= _) = _
  rw [Codec.faithful_signed.read_write n rest h]
  rfl

theorem read_pair (m n : Int64) (rest : List Char) :
    read (codec.write (pair m n) ++ rest) = .ok (pair m n, rest) := by
  have htext : codec.write (pair m n) ++ rest =
      '[' :: (Codec.signed.write m ++ ',' :: (Codec.signed.write n ++ ']' :: rest)) := by
    simp [codec, writeArray, writeSequence]
  rw [htext]
  show readPair _ = _
  rw [readPair, expect_cons (by decide)]
  show (Codec.signed.read (Codec.signed.write m ++ _) >>= _) = _
  rw [Codec.faithful_signed.read_write m _ (ends_comma _)]
  show (Codec.signed.read (Codec.signed.write n ++ _) >>= _) = _
  rw [Codec.faithful_signed.read_write n _ (ends_bracket rest)]
  rfl

theorem read_axis (a : Axis) {rest : List Char} (h : Ends rest) :
    read (codec.write (axis a) ++ rest) = .ok (axis a, rest) := by
  show (Axis.codec.read (Axis.codec.write a ++ rest) >>= _) = _
  rw [Axis.faithful_codec.read_write a rest h]
  rfl

theorem faithful_codec : codec.Faithful where
  opens := opens_write
  read_write a rest h := by
    cases a with
    | int n => exact read_int n h
    | pair m n => exact read_pair m n rest
    | axis a => exact read_axis a h

/-! ### Telling the forms apart -/

theorem skipBlanks_of_signed {cs rest : List Char} {n : Int64}
    (h : Codec.signed.read cs = .ok (n, rest)) :
    ∃ x xs, skipBlanks cs = x :: xs ∧ (x.isDigit = true ∨ x = '-') := by
  obtain ⟨_, hinteger, -⟩ := bind_eq_ok_iff.mp h
  obtain ⟨_, hnumeral, -⟩ := bind_eq_ok_iff.mp hinteger
  obtain ⟨m, hm, -⟩ := bind_eq_ok_iff.mp hnumeral
  have hmagnitude : readMagnitude (readSign (skipBlanks cs)).2 = .ok m := hm
  cases hskip : skipBlanks cs with
  | nil =>
      rw [hskip] at hmagnitude
      cases hmagnitude
  | cons x xs =>
      refine ⟨x, xs, rfl, ?_⟩
      by_cases hsign : x = '-'
      · exact Or.inr hsign
      · by_cases hdigit : x.isDigit = true
        · exact Or.inl hdigit
        · rw [hskip, readSign_of_ne hsign, readMagnitude_of_not_isDigit hdigit] at hmagnitude
          cases hmagnitude

theorem skipBlanks_of_readPair {cs : List Char} {r : Attribute × List Char}
    (h : readPair cs = .ok r) : ∃ xs, skipBlanks cs = '[' :: xs := by
  obtain ⟨xs, hxs, -⟩ := bind_eq_ok_iff.mp h
  exact ⟨xs, expect_eq_ok_iff.mp hxs⟩

theorem skipBlanks_of_axis {cs rest : List Char} {a : Axis}
    (h : Axis.codec.read cs = .ok (a, rest)) :
    ∃ x xs, skipBlanks cs = x :: xs ∧ (x = '"' ∨ x = '\x7b') := by
  replace h : Codec.readNamed Axis.ofText? cs = .ok (a, rest) := h
  unfold Codec.readNamed at h
  split at h
  · rename_i xs hskip
    exact ⟨_, xs, hskip, Or.inr rfl⟩
  · obtain ⟨_, hstring, -⟩ := bind_eq_ok_iff.mp h
    obtain ⟨xs, hquote, -⟩ := bind_eq_ok_iff.mp hstring
    rw [expect_eq_ok_iff, skipBlanks_skipBlanks] at hquote
    exact ⟨_, xs, hquote, Or.inl rfl⟩

/-- **The first character decides as well as trying does.** A text is read as one of the three forms
    reads it, and no two forms read the same text. -/
theorem read_eq_ok_iff {cs : List Char} {r : Attribute × List Char} :
    read cs = .ok r ↔
      (∃ n rest, Codec.signed.read cs = .ok (n, rest) ∧ r = (int n, rest)) ∨
      readPair cs = .ok r ∨
      (∃ a rest, Axis.codec.read cs = .ok (a, rest) ∧ r = (axis a, rest)) := by
  constructor
  · intro h
    unfold read at h
    split at h
    · exact Or.inr (Or.inl h)
    · obtain ⟨⟨a, rest⟩, haxis, hr⟩ := bind_eq_ok_iff.mp h
      cases hr
      exact Or.inr (Or.inr ⟨a, rest, haxis, rfl⟩)
    · obtain ⟨⟨a, rest⟩, haxis, hr⟩ := bind_eq_ok_iff.mp h
      cases hr
      exact Or.inr (Or.inr ⟨a, rest, haxis, rfl⟩)
    · obtain ⟨⟨n, rest⟩, hint, hr⟩ := bind_eq_ok_iff.mp h
      cases hr
      exact Or.inl ⟨n, rest, hint, rfl⟩
  · rintro (⟨n, rest, hint, rfl⟩ | hpair | ⟨a, rest, haxis, rfl⟩)
    · obtain ⟨x, xs, hskip, hx⟩ := skipBlanks_of_signed hint
      rw [read_eq_of_skipBlanks hskip hx]
      exact bind_eq_ok_iff.mpr ⟨_, hint, rfl⟩
    · obtain ⟨xs, hskip⟩ := skipBlanks_of_readPair hpair
      rw [read, hskip]
      exact hpair
    · obtain ⟨x, xs, hskip, rfl | rfl⟩ := skipBlanks_of_axis haxis
      all_goals
        rw [read, hskip]
        exact bind_eq_ok_iff.mpr ⟨_, haxis, rfl⟩

/-- So it is with whole texts. -/
theorem decode_eq_ok_iff {json : String} {a : Attribute} :
    codec.decode json = .ok a ↔
      (∃ n, Codec.signed.decode json = .ok n ∧ a = int n) ∨
      readAll readPair json = .ok a ∨
      (∃ x, Axis.codec.decode json = .ok x ∧ a = axis x) := by
  simp only [Codec.decode, readAll_eq_ok_iff]
  constructor
  · rintro ⟨rest, hread, hblank⟩
    rcases read_eq_ok_iff.mp hread with ⟨n, _, hint, hr⟩ | hpair | ⟨x, _, haxis, hr⟩
    · cases hr
      exact Or.inl ⟨n, ⟨rest, hint, hblank⟩, rfl⟩
    · exact Or.inr (Or.inl ⟨rest, hpair, hblank⟩)
    · cases hr
      exact Or.inr (Or.inr ⟨x, ⟨rest, haxis, hblank⟩, rfl⟩)
  · rintro (⟨n, ⟨rest, hint, hblank⟩, rfl⟩ | ⟨rest, hpair, hblank⟩ |
      ⟨x, ⟨rest, haxis, hblank⟩, rfl⟩)
    · exact ⟨rest, read_eq_ok_iff.mpr (Or.inl ⟨n, rest, hint, rfl⟩), hblank⟩
    · exact ⟨rest, read_eq_ok_iff.mpr (Or.inr (Or.inl hpair)), hblank⟩
    · exact ⟨rest, read_eq_ok_iff.mpr (Or.inr (Or.inr ⟨x, rest, haxis, rfl⟩)), hblank⟩

end Attribute

theorem Attributes.faithful_codec : Attributes.codec.Faithful := Attribute.faithful_codec.map

/-! ## Records -/

/-- **A record of two fields** is read back from its object if the fields are. -/
theorem Json.readFields_write {α β : Type} (first : String × Reader α) (second : String × Reader β)
    (hne : second.1 ≠ first.1) (other : Reader Unit) {a : α} {b : β} {wa wb : List Char}
    (hfirst : ∀ rest, Ends rest → first.2 (wa ++ rest) = .ok (a, rest))
    (hsecond : ∀ rest, Ends rest → second.2 (wb ++ rest) = .ok (b, rest)) (rest : List Char) :
    readFields first second other (writeObject [(first.1, wa), (second.1, wb)] ++ rest) =
      .ok ((some a, some b), rest) := by
  show readObject readString _ (none, none) (writeObject _ ++ rest) = _
  refine readObject_write (.cons (some a, none) ?_ (.cons (some a, some b) ?_ (.nil _))) rest
  · intro tail htail
    rw [if_pos rfl, readOnce, hfirst tail htail]
    rfl
  · intro tail htail
    rw [if_neg hne, if_pos rfl, readOnce, hsecond tail htail]
    rfl

/-- An extent is not larger than the number of elements. -/
theorem Count.le_product_of_mem {ns : List Nat} (hpos : ∀ n ∈ ns, 0 < n) {n : Nat} (hn : n ∈ ns) :
    n ≤ product ns := by
  induction ns with
  | nil => exact absurd hn List.not_mem_nil
  | cons m ns ih =>
      obtain ⟨hm, hns⟩ := List.forall_mem_cons.mp hpos
      rw [product_cons]
      rcases List.mem_cons.mp hn with rfl | hn
      · exact Nat.le_mul_of_pos_right n (product_pos hns)
      · exact Nat.le_trans (ih hns hn) (Nat.le_mul_of_pos_left _ hm)

namespace Shape

/-- The extents of a shape as words. -/
def words (s : Shape) : List UInt64 := s.dims.map UInt64.ofNat

/-- No extent is too large for a word. -/
theorem map_toNat_words (s : Shape) : s.words.map UInt64.toNat = s.dims := by
  rw [words, List.map_map]
  refine (List.map_congr_left fun d hd => ?_).trans (List.map_id _)
  have hle := Count.le_product_of_mem s.dims_pos hd
  exact UInt64.toNat_ofNat_of_lt' (Nat.lt_of_le_of_lt hle s.product_lt)

theorem codec_write (s : Shape) :
    codec.write s = writeObject [("order", AxisOrder.codec.write s.order),
      ("dims", Codec.word.list.write s.words)] := by
  have hdims : s.dims.map (fun (d : Nat) => writeInteger d) = s.words.map Codec.word.write := by
    rw [← s.map_toNat_words, List.map_map]
    rfl
  show writeObject [_, ("dims", writeArray (s.dims.map fun (d : Nat) => writeInteger d))] = _
  rw [hdims]
  rfl

theorem faithful_codec : codec.Faithful where
  opens _ := Codec.opens_writeObject _
  read_write s rest _ := by
    rw [codec_write]
    have hfields := readFields_write ("order", AxisOrder.codec.read)
      ("dims", Codec.word.list.read) (by decide) skim
      (AxisOrder.faithful_codec.read_write s.order)
      (Codec.faithful_word.list.read_write s.words) rest
    show (readFields ("order", AxisOrder.codec.read) ("dims", Codec.word.list.read) skim _ >>= _) =
      _
    rw [hfields]
    show ((ofDims s.order (s.words.map UInt64.toNat)).mapError ReadFault.invalid >>= _) = _
    rw [map_toNat_words, ofDims_dims]
    rfl

end Shape

namespace Options

theorem faithful_codec : codec.Faithful where
  opens _ := Codec.opens_writeObject _
  read_write o rest _ := by
    have hfields := readFields_write ("auto_name_prefix", Codec.text.read)
      ("max_rank", Codec.word.read) (by decide) refuse
      (Codec.faithful_text.read_write o.autoName) (Codec.faithful_word.read_write o.maxRank) rest
    show (readFields ("auto_name_prefix", Codec.text.read) ("max_rank", Codec.word.read) refuse
      (writeObject _ ++ rest) >>= _) = _
    rw [hfields]
    rfl

end Options

namespace Region

/-- The members of a region's object fill in its parts. -/
theorem absorbs_members (a : Region) :
    Absorbs readMember {}
      [("name", Codec.text.write a.name), ("offset", Codec.word.write a.offset),
        ("size", Codec.word.write a.size)]
      ⟨some a.name, some a.offset, some a.size⟩ := by
  refine .cons ⟨some a.name, none, none⟩ ?_
    (.cons ⟨some a.name, some a.offset, none⟩ ?_ (.cons _ ?_ (.nil _)))
  · intro rest hrest
    show (Codec.text.read (Codec.text.write a.name ++ rest) >>= _) = _
    rw [Codec.faithful_text.read_write a.name rest hrest]
    rfl
  · intro rest hrest
    show (Codec.word.read (Codec.word.write a.offset ++ rest) >>= _) = _
    rw [Codec.faithful_word.read_write a.offset rest hrest]
    rfl
  · intro rest hrest
    show (Codec.word.read (Codec.word.write a.size ++ rest) >>= _) = _
    rw [Codec.faithful_word.read_write a.size rest hrest]
    rfl

theorem faithful_codec : codec.Faithful where
  opens _ := Codec.opens_writeObject _
  read_write a rest _ := by
    show (readObject readString readMember {} (writeObject _ ++ rest) >>= _) = _
    rw [readObject_write a.absorbs_members rest]
    rfl

end Region

theorem WeightLayout.faithful_codec : WeightLayout.codec.Faithful where
  opens _ := Codec.opens_writeObject _
  read_write l rest _ := by
    have hfields := readFields_write ("total_size", Codec.word.read)
      ("allocations", Region.codec.map.read) (by decide) skim
      (Codec.faithful_word.read_write l.totalSize) (Region.faithful_codec.map.read_write l.regions)
      rest
    show (readFields ("total_size", Codec.word.read) ("allocations", Region.codec.map.read) skim
      (writeObject _ ++ rest) >>= _) = _
    rw [hfields]
    rfl

/-! ## Whole texts -/

/-- **A faithful codec reads back what it writes**, with nothing left over. -/
theorem Json.Codec.Faithful.decode_encode {α : Type} {c : Codec α} (h : c.Faithful) (a : α) :
    c.decode (c.encode a) = .ok a := by
  have hread : c.read (c.write a) = .ok (a, []) := by
    have hend := h.read_write a [] ends_nil
    rwa [List.append_nil] at hend
  rw [Codec.decode, Codec.encode, readAll, String.toList_ofList, hread]
  rfl

/-- Options are read back from their text exactly if a graph can be created with them. -/
theorem Options.ofJson_encode (o : Options) :
    ofJson (codec.encode o) = (o.validate.mapError ConfigError.invalid).map fun _ => o := by
  rw [ofJson, faithful_codec.decode_encode o]
  dsimp only
  cases o.validate <;> rfl

/-- **No data is lost in JSON.** Attributes and their values, orders, shapes, layouts of weights and
    options are read back from their texts as they were, and so is all that they are made of.
    A text makes a value of an attribute exactly if it makes an integer, a pair or an axis; it is
    that value, so that trying the three one after another comes to the same.
    Options are accepted from their text exactly if they are valid. -/
theorem codecs_lose_nothing :
    (∀ attrs : Attributes, Attributes.codec.decode (Attributes.codec.encode attrs) = .ok attrs) ∧
    (∀ a : Attribute, Attribute.codec.decode (Attribute.codec.encode a) = .ok a) ∧
    (∀ (json : String) (a : Attribute), Attribute.codec.decode json = .ok a ↔
      (∃ n, Codec.signed.decode json = .ok n ∧ a = .int n) ∨
      readAll Attribute.readPair json = .ok a ∨
      ∃ x, Axis.codec.decode json = .ok x ∧ a = .axis x) ∧
    (∀ o : AxisOrder, AxisOrder.codec.decode (AxisOrder.codec.encode o) = .ok o) ∧
    (∀ s : Shape, Shape.codec.decode (Shape.codec.encode s) = .ok s) ∧
    (∀ l : WeightLayout, WeightLayout.codec.decode (WeightLayout.codec.encode l) = .ok l) ∧
    (∀ a : Region, Region.codec.decode (Region.codec.encode a) = .ok a) ∧
    (∀ a : Axis, Axis.codec.decode (Axis.codec.encode a) = .ok a) ∧
    (∀ c : Capability, Capability.codec.decode (Capability.codec.encode c) = .ok c) ∧
    (∀ s : CapabilitySet, CapabilitySet.codec.decode (CapabilitySet.codec.encode s) = .ok s) ∧
    (∀ k : OperatorKind, OperatorKind.codec.decode (OperatorKind.codec.encode k) = .ok k) ∧
    (∀ r : Variable.Role,
      Variable.Role.codec.decode (Variable.Role.codec.encode r) = .ok r) ∧
    (∀ o : Options, Options.codec.decode (Options.codec.encode o) = .ok o ∧
      (Options.ofJson (Options.codec.encode o) = .ok o ↔ o.validate = .ok ()) ∧
      ∀ fault, o.validate = .error fault →
        Options.ofJson (Options.codec.encode o) = .error (.invalid fault)) := by
  refine ⟨Attributes.faithful_codec.decode_encode, Attribute.faithful_codec.decode_encode,
    fun _ _ => Attribute.decode_eq_ok_iff, AxisOrder.faithful_codec.decode_encode,
    Shape.faithful_codec.decode_encode, WeightLayout.faithful_codec.decode_encode,
    Region.faithful_codec.decode_encode, Axis.faithful_codec.decode_encode,
    Capability.faithful_codec.decode_encode, CapabilitySet.faithful_codec.decode_encode,
    OperatorKind.faithful_codec.decode_encode, Variable.Role.faithful_codec.decode_encode, fun o =>
      ⟨Options.faithful_codec.decode_encode o, ?_, fun fault hfault => ?_⟩⟩
  · rw [o.ofJson_encode]
    cases o.validate with
    | error fault => exact ⟨nofun, nofun⟩
    | ok _ => exact ⟨fun _ => rfl, fun _ => rfl⟩
  · rw [o.ofJson_encode, hfault]
    rfl

end TensorGraph

import Mathlib.Data.List.DropRight
import Mathlib.Tactic.SplitIfs
import TensorGraph.Json.Codec
import TensorGraph.Proofs.Checks

/-!
# `TensorGraph.Proofs.JsonText` — **reading what was written**

Readers take a value off the front of a text, so what they make of a written value is said of the
value with any text behind it that may stand there. `Opens` and `Ends` are all that a value and the
text behind it have to know of each other.

## Contents
- **Where values stand**: `Opens`, `Ends`.
- **Strings.** Each character is read back from its escape.
- **Integers.** No zero leads, and no digit follows.
- **Arrays and objects**, element by element and member by member (`Absorbs`).
- **Whole texts.**
-/

namespace TensorGraph.Json

open Checks

/-! ## Where values stand -/

/-- A value may open with the character. -/
def Opens (c : Char) : Prop := isBlank c = false ∧ c ≠ ',' ∧ c ≠ ']' ∧ c ≠ '\x7d'

/-- The text may stand behind a value: it is empty or goes on with a mark. -/
def Ends (rest : List Char) : Prop := ∀ c ∈ rest.head?, c = ',' ∨ c = ']' ∨ c = '\x7d'

theorem ends_nil : Ends [] := nofun

theorem ends_comma (cs : List Char) : Ends (',' :: cs) := by simp [Ends]

theorem ends_bracket (cs : List Char) : Ends (']' :: cs) := by simp [Ends]

theorem ends_brace (cs : List Char) : Ends ('\x7d' :: cs) := by simp [Ends]

theorem skipBlanks_cons {c : Char} (h : isBlank c = false) (cs : List Char) :
    skipBlanks (c :: cs) = c :: cs := by
  simp [skipBlanks, h]

theorem skipBlanks_skipBlanks (cs : List Char) : skipBlanks (skipBlanks cs) = skipBlanks cs :=
  List.dropWhile_idempotent isBlank cs

theorem expect_cons {mark : Char} (h : isBlank mark = false) (cs : List Char) :
    expect mark (mark :: cs) = .ok cs := by
  rw [expect, skipBlanks_cons h]
  simp

theorem expect_eq_ok_iff {mark : Char} {cs rest : List Char} :
    expect mark cs = .ok rest ↔ skipBlanks cs = mark :: rest := by
  unfold expect
  split
  · rename_i c cs' hskip
    by_cases hc : c = mark <;> simp [hskip, hc]
  · rename_i hskip
    simp [hskip]

/-- **A codec loses nothing**: its texts open as values do, and each is read back to where it
    ends. -/
structure Codec.Faithful {α : Type} (c : Codec α) : Prop where
  opens : ∀ a, ∃ x xs, c.write a = x :: xs ∧ Opens x
  read_write : ∀ a rest, Ends rest → c.read (c.write a ++ rest) = .ok (a, rest)

/-! ## Strings -/

/-- Codes of control characters, as four hexadecimal digits. -/
theorem hex4?_hexChar :
    ∀ n < 0x20, hex4? '0' '0' (hexChar (n / 16)) (hexChar (n % 16)) = some n := by
  decide

/-- **A character is read back** from what it is written as. -/
theorem readStringBody_escapeChar (c : Char) (cs : List Char) :
    readStringBody (escapeChar c ++ cs) = consChar c (readStringBody cs) := by
  unfold escapeChar
  split_ifs with hquote hsolidus hb hf hn hr ht hcontrol
  · subst hquote
    rfl
  · subst hsolidus
    rfl
  · subst hb
    rfl
  · subst hf
    rfl
  · subst hn
    rfl
  · subst hr
    rfl
  · subst ht
    rfl
  · -- No control character is half of a pair of surrogates.
    have hhigh : isHighSurrogate c.toNat = false := by simp [isHighSurrogate]; omega
    have hlow : isLowSurrogate c.toNat = false := by simp [isLowSurrogate]; omega
    simp only [List.cons_append, List.nil_append]
    rw [readStringBody]
    simp only [hex4?_hexChar c.toNat hcontrol, hhigh, hlow, Bool.false_eq_true, if_false,
      Char.ofNat_toNat]
  · -- All else stands for itself, since it opens no escape and ends no string.
    rw [List.singleton_append, readStringBody, if_neg hcontrol]
    · exact hquote
    · intro _ _ _ _ _ hescape
      exact absurd hescape hsolidus
    · intro _ _ hescape
      exact absurd hescape hsolidus

theorem readStringBody_write (body rest : List Char) :
    readStringBody (body.flatMap escapeChar ++ '"' :: rest) = .ok (body, rest) := by
  induction body with
  | nil => rfl
  | cons c body ih =>
      rw [List.flatMap_cons, List.append_assoc, readStringBody_escapeChar, ih]
      rfl

/-- **A string is read back**, whatever stands behind it. -/
theorem readString_write (s : String) (rest : List Char) :
    readString (writeString s ++ rest) = .ok (s, rest) := by
  have htext : writeString s ++ rest = '"' :: (s.toList.flatMap escapeChar ++ '"' :: rest) := by
    simp [writeString]
  rw [htext, readString, expect_cons (by decide)]
  show (readStringBody _ >>= _) = _
  rw [readStringBody_write]
  show Except.ok (String.ofList s.toList, rest) = _
  rw [String.ofList_toList]

/-! ## Integers -/

theorem Ends.takeWhile_isDigit {rest : List Char} (h : Ends rest) :
    rest.takeWhile Char.isDigit = [] ∧ rest.dropWhile Char.isDigit = rest := by
  cases rest with
  | nil => exact ⟨rfl, rfl⟩
  | cons c cs =>
      obtain rfl | rfl | rfl := h c rfl <;> exact ⟨rfl, rfl⟩

theorem readFraction_of_ends {rest : List Char} (h : Ends rest) :
    readFraction rest = .ok (false, rest) := by
  cases rest with
  | nil => rfl
  | cons c cs =>
      obtain rfl | rfl | rfl := h c rfl <;> rfl

theorem readExponent_of_ends {rest : List Char} (h : Ends rest) :
    readExponent rest = .ok (false, rest) := by
  cases rest with
  | nil => rfl
  | cons c cs =>
      obtain rfl | rfl | rfl := h c rfl <;> rfl

theorem toDigits_eq_cons (n : Nat) : ∃ d ds, Nat.toDigits 10 n = d :: ds ∧ d.isDigit = true := by
  obtain ⟨d, ds, hds⟩ := List.exists_cons_of_ne_nil (Nat.toDigits_ne_nil (n := n) (b := 10))
  refine ⟨d, ds, hds, Nat.isDigit_of_mem_toDigits (b := 10) (n := n) (by decide) (by decide) ?_⟩
  rw [hds]
  exact List.mem_cons_self

theorem digitChar_ne_zero : ∀ n < 10, n ≠ 0 → Nat.digitChar n ≠ '0' := by decide

/-- No zero leads the digits of a number other than zero. -/
theorem toDigits_ne_zero_cons {n : Nat} (hn : n ≠ 0) (ds : List Char) :
    Nat.toDigits 10 n ≠ '0' :: ds := by
  induction n using Nat.strongRecOn generalizing ds with
  | ind n ih =>
      rcases Nat.lt_or_ge n 10 with hlt | hge
      · rw [Nat.toDigits_of_lt_base hlt]
        intro h
        exact digitChar_ne_zero n hlt hn (List.cons.inj h).1
      · -- The first digit is that of the number without its last digit.
        rw [Nat.toDigits_of_base_le (by decide) hge]
        intro h
        obtain ⟨d, ds', hds, -⟩ := toDigits_eq_cons (n / 10)
        rw [hds, List.cons_append] at h
        refine ih (n / 10) (by omega) (by omega) ds' ?_
        rw [hds, (List.cons.inj h).1]

theorem spanDigits_toDigits (n : Nat) {rest : List Char} (h : Ends rest) :
    spanDigits (Nat.toDigits 10 n ++ rest) = (Nat.toDigits 10 n, rest) := by
  have hdigits : ∀ c ∈ Nat.toDigits 10 n, c.isDigit = true := fun c hc =>
    Nat.isDigit_of_mem_toDigits (by decide) (by decide) hc
  rw [spanDigits, List.takeWhile_append_of_pos hdigits, List.dropWhile_append_of_pos hdigits,
    h.takeWhile_isDigit.1, h.takeWhile_isDigit.2, List.append_nil]

theorem readMagnitude_toDigits (n : Nat) {rest : List Char} (h : Ends rest) :
    readMagnitude (Nat.toDigits 10 n ++ rest) = .ok (n, rest) := by
  have hvalue : Nat.ofDigitChars 10 (Nat.toDigits 10 n) 0 = n := Nat.ofDigitChars_ten_toDigits
  have hread : readDigits (Nat.toDigits 10 n ++ rest) = .ok (Nat.toDigits 10 n, rest) := by
    obtain ⟨d, ds, hds, -⟩ := toDigits_eq_cons n
    rw [readDigits, spanDigits_toDigits n h, hds]
  unfold readMagnitude
  rw [bind_eq_ok_iff]
  refine ⟨_, hread, ?_⟩
  dsimp only
  split
  · rename_i hds
    have hn : n ≠ 0 := by
      rintro rfl
      cases hds
    exact absurd hds (toDigits_ne_zero_cons hn _)
  · rw [hvalue]

/-- A sign is told from a digit. -/
theorem readSign_toDigits (n : Nat) (rest : List Char) :
    readSign (Nat.toDigits 10 n ++ rest) = (false, Nat.toDigits 10 n ++ rest) := by
  obtain ⟨d, ds, hds, hdigit⟩ := toDigits_eq_cons n
  rw [hds, List.cons_append, readSign]
  intro cs hcons
  rw [(List.cons.inj hcons).1] at hdigit
  cases hdigit

theorem readSign_of_ne {c : Char} (h : c ≠ '-') (cs : List Char) :
    readSign (c :: cs) = (false, c :: cs) := by
  rw [readSign]
  intro cs' hcons
  exact h (List.cons.inj hcons).1

theorem readMagnitude_of_not_isDigit {c : Char} (h : ¬ c.isDigit = true) (cs : List Char) :
    readMagnitude (c :: cs) = .error .malformed := by
  have hspan : spanDigits (c :: cs) = ([], c :: cs) := by simp [spanDigits, h]
  rw [readMagnitude, readDigits, hspan]
  rfl

theorem opens_of_isDigit {c : Char} (h : c.isDigit = true) : Opens c := by
  refine ⟨?_, ?_, ?_, ?_⟩
  · cases hblank : isBlank c with
    | false => rfl
    | true =>
        simp only [isBlank, Bool.or_eq_true, beq_iff_eq] at hblank
        obtain ((rfl | rfl) | rfl) | rfl := hblank <;> cases h
  all_goals
    rintro rfl
    cases h

/-- A number opens with a digit or the sign. -/
theorem writeInteger_eq_cons (n : Int) :
    ∃ c cs, writeInteger n = c :: cs ∧ (c.isDigit = true ∨ c = '-') := by
  obtain ⟨d, ds, hds, hdigit⟩ := toDigits_eq_cons n.natAbs
  unfold writeInteger
  split
  · exact ⟨'-', _, rfl, Or.inr rfl⟩
  · exact ⟨d, ds, hds, Or.inl hdigit⟩

theorem opens_of_isDigit_or_sign {c : Char} (h : c.isDigit = true ∨ c = '-') : Opens c := by
  rcases h with hdigit | rfl
  · exact opens_of_isDigit hdigit
  · exact ⟨by decide, by decide, by decide, by decide⟩

theorem opens_writeInteger (n : Int) : ∃ c cs, writeInteger n = c :: cs ∧ Opens c := by
  obtain ⟨c, cs, hcs, hopens⟩ := writeInteger_eq_cons n
  exact ⟨c, cs, hcs, opens_of_isDigit_or_sign hopens⟩

theorem readSign_writeInteger (n : Int) (rest : List Char) :
    readSign (writeInteger n ++ rest) = (decide (n < 0), Nat.toDigits 10 n.natAbs ++ rest) := by
  unfold writeInteger
  by_cases hneg : n < 0
  · simp [hneg, readSign]
  · simp [hneg, readSign_toDigits]

/-- **A number is read back** where it ends. -/
theorem readNumeral_write (n : Int) {rest : List Char} (h : Ends rest) :
    readNumeral (writeInteger n ++ rest) = .ok (.whole (n < 0) n.natAbs, rest) := by
  obtain ⟨c, cs, hcs, hopens⟩ := opens_writeInteger n
  have hskip : skipBlanks (writeInteger n ++ rest) = writeInteger n ++ rest := by
    rw [hcs, List.cons_append, skipBlanks_cons hopens.1]
  rw [readNumeral, hskip, readSign_writeInteger]
  dsimp only
  rw [readMagnitude_toDigits n.natAbs h]
  show (readFraction rest >>= _) = _
  rw [readFraction_of_ends h]
  show (readExponent rest >>= _) = _
  rw [readExponent_of_ends h]
  rfl

theorem integer?_whole (n : Int) : (Numeral.whole (n < 0) n.natAbs).integer? = some n := by
  by_cases hneg : n < 0
  · obtain ⟨m, hm⟩ : ∃ m, n.natAbs = m + 1 := Nat.exists_eq_succ_of_ne_zero (by omega)
    simp only [hneg, decide_true, hm, Numeral.integer?]
    congr 1
    omega
  · simp only [hneg, decide_false, Numeral.integer?]
    congr 1
    omega

/-- **An integer is read back** if it is among those that are looked for. -/
theorem readInteger_write {low high n : Int} (hlow : low ≤ n) (hhigh : n ≤ high)
    {rest : List Char} (h : Ends rest) :
    readInteger low high (writeInteger n ++ rest) = .ok (n, rest) := by
  unfold readInteger
  rw [bind_eq_ok_iff]
  refine ⟨_, readNumeral_write n h, ?_⟩
  dsimp only
  rw [integer?_whole]
  exact if_pos ⟨hlow, hhigh⟩

/-! ## Arrays -/

/-- There are no more parts than characters. -/
theorem length_le_writeSequence {parts : List (List Char)} (h : ∀ part ∈ parts, part ≠ []) :
    parts.length ≤ (writeSequence parts).length := by
  induction parts with
  | nil => exact Nat.zero_le _
  | cons part parts ih =>
      obtain ⟨hpart, hparts⟩ := List.forall_mem_cons.mp h
      have hpos : 0 < part.length := List.length_pos_iff.mpr hpart
      have hle := ih hparts
      cases parts with
      | nil => exact hpos
      | cons next parts =>
          simp only [writeSequence, List.length_append, List.length_cons] at hle ⊢
          omega

/-- So characters suffice to count the parts behind the first one. -/
theorem length_lt_writeSequence {part : List Char} {parts : List (List Char)}
    (h : ∀ p ∈ part :: parts, p ≠ []) (rest : List Char) :
    parts.length < (writeSequence (part :: parts) ++ rest).length := by
  have hle := length_le_writeSequence h
  rw [List.length_cons] at hle
  rw [List.length_append]
  omega

theorem writeSequence_cons_cons (part next : List Char) (parts : List (List Char)) :
    writeSequence (part :: next :: parts) = part ++ ',' :: writeSequence (next :: parts) := rfl

/-- A sequence opens as its first part does. -/
theorem writeSequence_cons_eq_cons (x : Char) (xs : List Char) (parts : List (List Char)) :
    ∃ ys, writeSequence ((x :: xs) :: parts) = x :: ys := by
  cases parts with
  | nil => exact ⟨xs, rfl⟩
  | cons next parts => exact ⟨_, rfl⟩

section Arrays

variable {α : Type} {c : Codec α}

theorem Codec.Faithful.readElements (h : c.Faithful) (a : α) (as : List α) {most : Nat}
    (hmost : as.length < most) (rest : List Char) :
    readElements c.read most (writeSequence ((a :: as).map c.write) ++ ']' :: rest) =
      .ok (a :: as, rest) := by
  induction as generalizing a most with
  | nil =>
      obtain ⟨most, rfl⟩ := Nat.exists_eq_add_of_lt hmost
      show (c.read (c.write a ++ ']' :: rest) >>= _) = _
      rw [h.read_write a _ (ends_bracket rest)]
      rfl
  | cons b bs ih =>
      obtain ⟨most, rfl⟩ := Nat.exists_eq_succ_of_ne_zero (Nat.ne_of_gt (Nat.zero_lt_of_lt hmost))
      have hlater := ih b (Nat.lt_of_succ_lt_succ hmost)
      rw [List.map_cons, List.map_cons, writeSequence_cons_cons, List.append_assoc]
      show (c.read (c.write a ++
        ',' :: (writeSequence ((b :: bs).map c.write) ++ ']' :: rest)) >>= _) = _
      rw [h.read_write a _ (ends_comma _)]
      show (Json.readElements c.read most _ >>= _) = _
      rw [hlater]
      rfl

/-- **An array is read back** if its elements are. -/
theorem Codec.Faithful.readArray (h : c.Faithful) (as : List α) (rest : List Char) :
    readArray c.read (writeArray (as.map c.write) ++ rest) = .ok (as, rest) := by
  have hopen : writeArray (as.map c.write) ++ rest =
      '[' :: (writeSequence (as.map c.write) ++ ']' :: rest) := by simp [writeArray]
  rw [hopen, Json.readArray, expect_cons (by decide)]
  cases as with
  | nil => rfl
  | cons a as =>
      -- The first element is no closing bracket, and there is a character for each element.
      obtain ⟨x, xs, hx, hopens⟩ := h.opens a
      obtain ⟨ys, hys⟩ := writeSequence_cons_eq_cons x xs (as.map c.write)
      rw [← hx, ← List.map_cons] at hys
      have hne : ∀ part ∈ (a :: as).map c.write, part ≠ [] := by
        intro part hpart hnil
        obtain ⟨b, -, rfl⟩ := List.mem_map.mp hpart
        obtain ⟨z, zs, hz, -⟩ := h.opens b
        rw [hnil] at hz
        cases hz
      have hlength : as.length <
          (writeSequence ((a :: as).map c.write) ++ ']' :: rest).length := by
        rw [← List.length_map c.write]
        exact length_lt_writeSequence hne _
      have helements := h.readElements a as hlength rest
      rw [hys] at helements ⊢
      rw [bind_eq_ok_iff]
      refine ⟨_, rfl, ?_⟩
      rw [List.cons_append, skipBlanks_cons hopens.1]
      split
      · rename_i hcons
        exact absurd (List.cons.inj hcons).1 hopens.2.2.1
      · exact helements

end Arrays

/-! ## Objects -/

section Objects

variable {σ : Type} {member : σ → String → Reader σ}

/-- Members with written values are taken in one after another, from a state to a state. -/
inductive Absorbs (member : σ → String → Reader σ) : σ → List (String × List Char) → σ → Prop where
  | nil (s : σ) : Absorbs member s [] s
  | cons {s s'' : σ} {m : String × List Char} {ms : List (String × List Char)} (s' : σ)
      (first : ∀ rest, Ends rest → member s m.1 (m.2 ++ rest) = .ok (s', rest))
      (later : Absorbs member s' ms s'') : Absorbs member s (m :: ms) s''

theorem writeMember_eq_cons (m : String × List Char) : ∃ cs, writeMember m = '"' :: cs := ⟨_, rfl⟩

theorem writeMember_append (m : String × List Char) (rest : List Char) :
    writeMember m ++ rest = writeString m.1 ++ ':' :: (m.2 ++ rest) := by
  simp [writeMember]

theorem readMembers_write {s s' : σ} {m : String × List Char} {ms : List (String × List Char)}
    (h : Absorbs member s (m :: ms) s') {most : Nat} (hmost : ms.length < most)
    (rest : List Char) :
    readMembers readString member most s
      (writeSequence ((m :: ms).map writeMember) ++ '\x7d' :: rest) = .ok (s', rest) := by
  induction ms generalizing s m most with
  | nil =>
      obtain ⟨most, rfl⟩ := Nat.exists_eq_succ_of_ne_zero (Nat.ne_of_gt (Nat.zero_lt_of_lt hmost))
      cases h with
      | cons s' first later =>
          cases later
          show (readString (writeMember m ++ '\x7d' :: rest) >>= _) = _
          rw [writeMember_append, readString_write]
          show (member s m.1 (m.2 ++ '\x7d' :: rest) >>= _) = _
          rw [first _ (ends_brace rest)]
          rfl
  | cons next ms ih =>
      obtain ⟨most, rfl⟩ := Nat.exists_eq_succ_of_ne_zero (Nat.ne_of_gt (Nat.zero_lt_of_lt hmost))
      cases h with
      | cons s' first later =>
          rw [List.map_cons, List.map_cons, writeSequence_cons_cons, List.append_assoc]
          show (readString (writeMember m ++
            ',' :: (writeSequence ((next :: ms).map writeMember) ++ '\x7d' :: rest)) >>= _) = _
          rw [writeMember_append, readString_write]
          show (member s m.1 (m.2 ++ ',' :: (writeSequence ((next :: ms).map writeMember) ++
            '\x7d' :: rest)) >>= _) = _
          rw [first _ (ends_comma _)]
          exact ih later (Nat.lt_of_succ_lt_succ hmost)

/-- **An object is read back** into what its members come to. -/
theorem readObject_write {s s' : σ} {ms : List (String × List Char)} (h : Absorbs member s ms s')
    (rest : List Char) :
    readObject readString member s (writeObject ms ++ rest) = .ok (s', rest) := by
  have hopen : writeObject ms ++ rest =
      '\x7b' :: (writeSequence (ms.map writeMember) ++ '\x7d' :: rest) := by simp [writeObject]
  rw [hopen, readObject, expect_cons (by decide)]
  cases ms with
  | nil =>
      cases h
      rfl
  | cons m ms =>
      obtain ⟨xs, hx⟩ := writeMember_eq_cons m
      obtain ⟨ys, hys⟩ := writeSequence_cons_eq_cons '"' xs (ms.map writeMember)
      rw [← hx, ← List.map_cons] at hys
      have hne : ∀ part ∈ (m :: ms).map writeMember, part ≠ [] := by
        intro part hpart
        obtain ⟨n, -, rfl⟩ := List.mem_map.mp hpart
        exact List.cons_ne_nil _ _
      have hlength : ms.length <
          (writeSequence ((m :: ms).map writeMember) ++ '\x7d' :: rest).length := by
        rw [← List.length_map writeMember]
        exact length_lt_writeSequence hne _
      have hmembers := readMembers_write h hlength rest
      rw [hys] at hmembers ⊢
      exact hmembers

end Objects

/-! ## Whole texts -/

/-- **A text is read** where a reader takes a value off it and leaves no more than blanks. -/
theorem readAll_eq_ok_iff {α : Type} {item : Reader α} {json : String} {a : α} :
    readAll item json = .ok a ↔
      ∃ rest, item json.toList = .ok (a, rest) ∧ skipBlanks rest = [] := by
  unfold readAll
  rw [bind_eq_ok_iff]
  constructor
  · rintro ⟨⟨b, rest⟩, hitem, hend⟩
    dsimp only at hend
    split at hend
    · rename_i hblank
      cases hend
      exact ⟨rest, hitem, hblank⟩
    · cases hend
  · rintro ⟨rest, hitem, hblank⟩
    refine ⟨(a, rest), hitem, ?_⟩
    dsimp only
    rw [hblank]
    rfl

end TensorGraph.Json

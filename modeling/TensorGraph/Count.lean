/-!
# `TensorGraph.Count` — **64-bit counts**

Element counts, extents and offsets are natural numbers that have to stay below `Count.limit`.
The arithmetic here is exact and *checked*: an operation whose true result does not fit has no
result. Nothing wraps.

## Contents
- **Checked operations.** `fit?`, `add?`, `sub?`, `mul?`, each pinned by when it has a result.
- **Checked product.** `product?` multiplies from the left and stops at the first overflow; on
  positive factors that is the same as asking whether the whole product fits
  (`product?_of_pos`), so the order of the factors does not matter.
-/

namespace TensorGraph.Count

/-- One past the largest count. -/
def limit : Nat := UInt64.size

/-- The number itself, if it is a count. -/
def fit? (n : Nat) : Option Nat :=
  if n < limit then some n else none

/-- Checked sum. -/
def add? (a b : Nat) : Option Nat := fit? (a + b)

/-- Checked product. -/
def mul? (a b : Nat) : Option Nat := fit? (a * b)

/-- Checked difference: there is none below zero. -/
def sub? (a b : Nat) : Option Nat :=
  if b ≤ a then some (a - b) else none

/-- Exact product of a list. -/
def product (ns : List Nat) : Nat := ns.foldr (· * ·) 1

/-- Checked product of a list, multiplied from the left. -/
def product? (ns : List Nat) : Option Nat :=
  ns.foldlM mul? 1

/-! ## When there is a result -/

theorem fit?_eq_some {n m : Nat} : fit? n = some m ↔ n = m ∧ m < limit := by
  unfold fit?
  split <;> simp_all
  · rintro rfl; assumption
  · rintro rfl; assumption

theorem fit?_eq_none {n : Nat} : fit? n = none ↔ limit ≤ n := by
  unfold fit?
  split <;> simp_all

theorem sub?_eq_some {a b c : Nat} : sub? a b = some c ↔ a = c + b := by
  unfold sub?
  split <;> simp_all <;> omega

/-! ## The checked product -/

@[simp] theorem product_nil : product [] = 1 := rfl

@[simp] theorem product_cons (n : Nat) (ns : List Nat) : product (n :: ns) = n * product ns := rfl

theorem product_pos {ns : List Nat} (hpos : ∀ n ∈ ns, 0 < n) : 0 < product ns := by
  induction ns with
  | nil => exact Nat.one_pos
  | cons n ns ih =>
      exact Nat.mul_pos (hpos n List.mem_cons_self)
        (ih fun m hm => hpos m (List.mem_cons_of_mem _ hm))

/-- Continuing a checked product from `acc`: there is a result exactly when the exact product fits,
    once every factor is positive. -/
theorem foldlM_mul?_of_pos {ns : List Nat} (hpos : ∀ n ∈ ns, 0 < n) :
    ∀ {acc : Nat}, 0 < acc → acc < limit → ns.foldlM mul? acc = fit? (acc * product ns) := by
  induction ns with
  | nil =>
      intro acc _ hlt
      simp [fit?, hlt]
  | cons n ns ih =>
      intro acc hacc hlt
      have hn : 0 < n := hpos n List.mem_cons_self
      have hrest : ∀ m ∈ ns, 0 < m := fun m hm => hpos m (List.mem_cons_of_mem _ hm)
      rw [List.foldlM_cons, product_cons, ← Nat.mul_assoc]
      by_cases hfit : acc * n < limit
      · rw [mul?, fit?, if_pos hfit]
        exact ih hrest (Nat.mul_pos hacc hn) hfit
      · have hover : ¬ acc * n * product ns < limit := fun h =>
          hfit (Nat.lt_of_le_of_lt (Nat.le_mul_of_pos_right _ (product_pos hrest)) h)
        rw [mul?, fit?, if_neg hfit, fit?, if_neg hover]
        rfl

/-- **The checked product of positive factors** has a result exactly when the product fits. -/
theorem product?_of_pos {ns : List Nat} (hpos : ∀ n ∈ ns, 0 < n) :
    product? ns = fit? (product ns) := by
  rw [product?, foldlM_mul?_of_pos hpos (by decide) (by decide), Nat.one_mul]

/-- A checked product of positive factors that has a result is below the limit. -/
theorem product_lt_of_product? {ns : List Nat} {p : Nat} (hpos : ∀ n ∈ ns, 0 < n)
    (h : product? ns = some p) : product ns < limit := by
  rw [product?_of_pos hpos, fit?_eq_some] at h
  exact h.1 ▸ h.2

end TensorGraph.Count

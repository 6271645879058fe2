import Mathlib.Algebra.BigOperators.Ring.Finset
import Mathlib.Algebra.BigOperators.Group.Finset.Basic
import Mathlib.Algebra.BigOperators.Intervals
import Mathlib.Tactic.Ring

/-!
# Accumulator loops as sums

Counted loops that add, and two ways of contracting a bilinear form.
-/

namespace Kvl

set_option autoImplicit false

namespace Sums

open Finset

variable {K : Type*}

theorem foldl_range_add [AddCommMonoid K] (f : Nat → K) (start : K) (n : Nat) :
    (List.range n).foldl (fun acc i => acc + f i) start = start + ∑ i ∈ range n, f i := by
  induction n with
  | zero => exact (add_zero start).symm
  | succ n ih =>
    rw [List.range_succ, List.foldl_append, ih, sum_range_succ, ← add_assoc]
    rfl

/-- A loop that adds, over terms that are all there. -/
theorem foldlM_add {α : Type*} [AddMonoid K] {f : K → α → Option K} {g : α → K} {xs : List α}
    {acc : K} (h : ∀ x ∈ xs, ∀ acc, f acc x = some (acc + g x)) :
    xs.foldlM f acc = some (acc + (xs.map g).sum) := by
  induction xs generalizing acc with
  | nil => rw [List.map_nil, List.sum_nil, add_zero]; rfl
  | cons first rest ih =>
    rw [List.foldlM_cons, h first List.mem_cons_self acc]
    show rest.foldlM f (acc + g first) = _
    rw [ih fun x hx => h x (List.mem_cons_of_mem _ hx), List.map_cons, List.sum_cons, add_assoc]

theorem foldlM_range_add [AddCommMonoid K] {f : K → Nat → Option K} {g : Nat → K} {n : Nat}
    {acc : K} (h : ∀ i < n, ∀ acc, f acc i = some (acc + g i)) :
    (List.range n).foldlM f acc = some (acc + ∑ i ∈ range n, g i) := by
  rw [foldlM_add fun i hi => h i (List.mem_range.mp hi), ← List.sum_toFinset _ List.nodup_range,
    List.toFinset_range]

theorem mapM_some {α β : Type*} {f : α → Option β} {g : α → β} {xs : List α}
    (h : ∀ x ∈ xs, f x = some (g x)) : xs.mapM f = some (xs.map g) := by
  induction xs with
  | nil => rfl
  | cons first rest ih =>
    rw [List.mapM_cons, h first List.mem_cons_self, ih fun x hx => h x (List.mem_cons_of_mem _ hx)]
    rfl

theorem mapM_forall₂ {α β : Type*} {f : α → Option β} :
    ∀ {l : List α} {out : List β}, l.mapM f = some out →
      List.Forall₂ (fun a b => f a = some b) l out := by
  intro l
  induction l with
  | nil =>
    intro out h
    rw [List.mapM_nil] at h
    cases h
    exact .nil
  | cons a l ih =>
    intro out h
    rw [List.mapM_cons] at h
    obtain ⟨first, hfirst, h⟩ := Option.bind_eq_some_iff.mp h
    obtain ⟨rest, hrest, h⟩ := Option.bind_eq_some_iff.mp h
    cases h
    exact .cons hfirst (ih hrest)

theorem mem_of_forall₂ {α β : Type*} {f : α → Option β} {l : List α} {out : List β}
    (h : List.Forall₂ (fun a b => f a = some b) l out) (b : β) :
    b ∈ out ↔ ∃ a ∈ l, f a = some b := by
  induction h with
  | nil => simp
  | cons hfirst hrest ih =>
    simp only [List.mem_cons, exists_eq_or_imp, ih, hfirst, Option.some_inj]
    rw [eq_comm]

/-- A sum in blocks of `n` terms. -/
theorem sum_range_mul_add [AddCommMonoid K] (f : Nat → K) (m n : Nat) :
    ∑ i ∈ range (n * m), f i = ∑ j ∈ range m, ∑ l ∈ range n, f (n * j + l) := by
  induction m with
  | zero => rfl
  | succ m ih => rw [Nat.mul_succ, sum_range_add, ih, sum_range_succ]

/-- A matrix moved from one side of a product to the other. -/
theorem contract_left [CommSemiring K] (a : Nat → Nat → K) (q l : Nat → K) (n m : Nat) :
    ∑ r ∈ range m, (∑ d ∈ range n, a d r * q d) * l r =
      ∑ d ∈ range n, q d * ∑ r ∈ range m, a d r * l r := by
  calc ∑ r ∈ range m, (∑ d ∈ range n, a d r * q d) * l r
      = ∑ r ∈ range m, ∑ d ∈ range n, q d * (a d r * l r) := by
        apply sum_congr rfl
        intro r _
        rw [sum_mul]
        apply sum_congr rfl
        intro d _
        ring
    _ = ∑ d ∈ range n, ∑ r ∈ range m, q d * (a d r * l r) := sum_comm
    _ = ∑ d ∈ range n, q d * ∑ r ∈ range m, a d r * l r := by
        apply sum_congr rfl
        intro d _
        rw [mul_sum]

/-- A weighted sum of products is the product with the weighted sum. -/
theorem contract_weights [CommSemiring K] (a : Nat → K) (p : Nat → K) (l : Nat → Nat → K)
    (n m : Nat) :
    ∑ r ∈ range m, a r * ∑ j ∈ range n, p j * l j r =
      ∑ j ∈ range n, p j * ∑ r ∈ range m, a r * l j r := by
  calc ∑ r ∈ range m, a r * ∑ j ∈ range n, p j * l j r
      = ∑ r ∈ range m, ∑ j ∈ range n, p j * (a r * l j r) := by
        apply sum_congr rfl
        intro r _
        rw [mul_sum]
        apply sum_congr rfl
        intro j _
        ring
    _ = ∑ j ∈ range n, ∑ r ∈ range m, p j * (a r * l j r) := sum_comm
    _ = ∑ j ∈ range n, p j * ∑ r ∈ range m, a r * l j r := by
        apply sum_congr rfl
        intro j _
        rw [mul_sum]

end Sums

end Kvl

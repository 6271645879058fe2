import Mathlib

/-!
# The first best index

A scan of a finite sequence keeps the first index that no later one beats.
-/

namespace Kvl.ArgBest

set_option autoImplicit false

section
variable {α : Type*} [LinearOrder α]

/-- The index of the first smallest of `n` values. -/
def argMin (f : Nat → α) (n : Nat) : Nat :=
  (List.range' 1 (n - 1)).foldl (fun best i => if f i < f best then i else best) 0

/-- The index of the first largest of `n` values. -/
def argMax (f : Nat → α) (n : Nat) : Nat :=
  (List.range' 1 (n - 1)).foldl (fun best i => if f best < f i then i else best) 0

theorem argMin_succ (f : Nat → α) (n : Nat) :
    argMin f (n + 2) =
      if f (n + 1) < f (argMin f (n + 1)) then n + 1 else argMin f (n + 1) := by
  unfold argMin
  rw [show n + 2 - 1 = n + 1 from rfl, show n + 1 - 1 = n from rfl, List.range'_1_concat,
    List.foldl_append, Nat.add_comm 1 n]
  rfl

/-- No value before it is as small, and none after it is smaller. -/
structure FirstLeast (f : Nat → α) (n best : Nat) : Prop where
  lt : best < n
  le : ∀ i < n, f best ≤ f i
  first : ∀ i < best, f best < f i

theorem argMin_spec (f : Nat → α) {n : Nat} (hn : 0 < n) : FirstLeast f n (argMin f n) := by
  obtain ⟨n, rfl⟩ := Nat.exists_eq_succ_of_ne_zero (Nat.ne_of_gt hn)
  induction n with
  | zero =>
    refine ⟨Nat.one_pos, fun i hi => ?_, fun i hi => absurd hi (Nat.not_lt_zero i)⟩
    rw [Nat.lt_one_iff.mp hi]
    exact le_refl _
  | succ n ih =>
    obtain ⟨hlt, hle, hfirst⟩ := ih (Nat.succ_pos n)
    rw [Nat.succ_eq_add_one, argMin_succ]
    rw [Nat.succ_eq_add_one] at hlt hle hfirst
    split
    · rename_i hbeats
      refine ⟨Nat.lt_succ_self _, fun i hi => ?_, fun i hi => lt_of_lt_of_le hbeats (hle i hi)⟩
      rcases Nat.lt_succ_iff_lt_or_eq.mp hi with hbefore | rfl
      · exact le_of_lt (lt_of_lt_of_le hbeats (hle i hbefore))
      · exact le_refl _
    · rename_i hkept
      refine ⟨Nat.lt_succ_of_lt hlt, fun i hi => ?_, hfirst⟩
      rcases Nat.lt_succ_iff_lt_or_eq.mp hi with hbefore | rfl
      · exact hle i hbefore
      · exact not_lt.mp hkept

/-- The first largest is the first least of the opposite order. -/
theorem argMax_spec (f : Nat → α) {n : Nat} (hn : 0 < n) :
    argMax f n < n ∧ (∀ i < n, f i ≤ f (argMax f n)) ∧ ∀ i < argMax f n, f i < f (argMax f n) := by
  obtain ⟨hlt, hle, hfirst⟩ := argMin_spec (fun i => OrderDual.toDual (f i)) hn
  exact ⟨hlt, hle, hfirst⟩

end

end Kvl.ArgBest

import Mathlib

/-!
# Mutually inverse tables

Two partial tables `f : α → Option β` and `g : β → Option α` that undo each
other, and the two point updates which keep them so: clearing one entry in
both, and entering a fresh pair in both.
-/

namespace Kvl.Tables

set_option autoImplicit false

variable {α β : Type*}

/-- Each table is the inverse of the other, as partial functions. -/
def Inverse (f : α → Option β) (g : β → Option α) : Prop :=
  ∀ a b, f a = some b ↔ g b = some a

theorem Inverse.symm {f : α → Option β} {g : β → Option α} (h : Inverse f g) : Inverse g f :=
  fun b a => (h a b).symm

theorem Inverse.injective {f : α → Option β} {g : β → Option α} (h : Inverse f g)
    {a a' : α} {b : β} (ha : f a = some b) (ha' : f a' = some b) : a = a' := by
  have hb := (h a b).mp ha
  have hb' := (h a' b).mp ha'
  exact Option.some.inj (hb.symm.trans hb')

theorem inverse_empty : Inverse (fun _ : α => (none : Option β)) (fun _ => none) := by
  intro a b
  simp

variable [DecidableEq α] [DecidableEq β]

/-- An entry disappears from both tables at once. -/
theorem Inverse.unbind {f : α → Option β} {g : β → Option α} (h : Inverse f g)
    {a : α} {b : β} (hab : f a = some b) :
    Inverse (Function.update f a none) (Function.update g b none) := by
  intro x y
  simp only [Function.update_apply]
  by_cases hx : x = a
  · subst x
    simp only [if_true, reduceCtorEq, false_iff]
    split
    · simp
    · rename_i hy
      intro hg
      have := (h a y).mpr hg
      rw [hab] at this
      exact hy (Option.some.inj this).symm
  · rw [if_neg hx]
    by_cases hy : y = b
    · subst y
      simp only [if_true, reduceCtorEq, iff_false]
      intro hf
      exact hx (h.injective hf hab)
    · rw [if_neg hy]
      exact h x y

/-- A fresh pair enters both tables at once. -/
theorem Inverse.bind {f : α → Option β} {g : β → Option α} (h : Inverse f g)
    {a : α} {b : β} (ha : f a = none) (hb : g b = none) :
    Inverse (Function.update f a (some b)) (Function.update g b (some a)) := by
  intro x y
  simp only [Function.update_apply]
  by_cases hx : x = a
  · subst x
    by_cases hy : y = b
    · subst y
      simp
    · simp only [if_true, if_neg hy, Option.some.injEq]
      constructor
      · exact fun he => absurd he.symm hy
      · intro hg
        rw [(h a y).mpr hg] at ha
        simp at ha
  · rw [if_neg hx]
    by_cases hy : y = b
    · subst y
      simp only [if_true, Option.some.injEq]
      constructor
      · intro hf
        rw [(h x b).mp hf] at hb
        simp at hb
      · exact fun he => absurd he.symm hx
    · rw [if_neg hy]
      exact h x y

end Kvl.Tables

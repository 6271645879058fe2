import Mathlib

/-!
# Who owns an allocation

Allocations are numbered in order. Each of them is at one place, has been
released, or was lost when its place was overwritten. The operations move an
allocation from one owner to the next, so that no two places share one and none
is released twice.
-/

namespace Kvl.Ownership

set_option autoImplicit false

variable {κ : Type*}

inductive Owner (κ : Type*) where
  | place (k : κ)
  | released
  | lost
  deriving DecidableEq

/-- The places and the log of releases agree with the owner of each allocation. -/
structure Owners (places : κ → Option Nat) (next : Nat) (freed : List Nat)
    (owner : Nat → Owner κ) : Prop where
  held : ∀ k b, places k = some b ↔ b < next ∧ owner b = .place k
  released : ∀ b, b ∈ freed ↔ b < next ∧ owner b = .released
  once : freed.Nodup

/-- No allocation was lost. -/
def NoneLost (next : Nat) (owner : Nat → Owner κ) : Prop := ∀ b < next, owner b ≠ .lost

variable {places : κ → Option Nat} {next : Nat} {freed : List Nat} {owner : Nat → Owner κ}

theorem owners_empty : Owners (fun _ : κ => none) 0 [] fun _ => .lost := by
  constructor
  · intro k b
    constructor
    · intro h
      cases h
    · intro h
      exact absurd h.1 (Nat.not_lt_zero b)
  · intro b
    constructor
    · intro h
      cases h
    · intro h
      exact absurd h.1 (Nat.not_lt_zero b)
  · exact List.nodup_nil

theorem Owners.not_freed (h : Owners places next freed owner) {k : κ} {b : Nat}
    (hk : places k = some b) : b ∉ freed := by
  intro hb
  have hplace := ((h.held k b).mp hk).2
  have hreleased := ((h.released b).mp hb).2
  rw [hplace] at hreleased
  cases hreleased

theorem Owners.place_unique (h : Owners places next freed owner) {k k' : κ} {b : Nat}
    (hk : places k = some b) (hk' : places k' = some b) : k = k' := by
  have hplace := ((h.held k b).mp hk).2
  rw [((h.held k' b).mp hk').2] at hplace
  exact (Owner.place.inj hplace).symm

/-- A new allocation that is released at once. -/
theorem Owners.scrap (h : Owners places next freed owner) :
    Owners places (next + 1) (freed ++ [next]) (Function.update owner next .released) := by
  constructor
  · intro k b
    by_cases hb : b = next
    · rw [hb, Function.update_self]
      constructor
      · intro hplace
        exact absurd ((h.held k next).mp hplace).1 (Nat.lt_irrefl next)
      · intro howner
        cases howner.2
    · rw [Function.update_of_ne hb, h.held k b]
      exact and_congr_left fun _ => by omega
  · intro b
    rw [List.mem_append, List.mem_singleton]
    by_cases hb : b = next
    · rw [hb, Function.update_self]
      exact ⟨fun _ => ⟨Nat.lt_succ_self next, rfl⟩, fun _ => .inr rfl⟩
    · rw [Function.update_of_ne hb, or_iff_left hb, h.released b]
      exact and_congr_left fun _ => by omega
  · apply List.Nodup.append h.once (List.nodup_singleton next)
    intro b hb hnext
    rw [List.mem_singleton.mp hnext] at hb
    exact Nat.lt_irrefl next ((h.released next).mp hb).1

theorem NoneLost.allocate (hnone : NoneLost next owner) {o : Owner κ} (ho : o ≠ .lost) :
    NoneLost (next + 1) (Function.update owner next o) := by
  intro b hb
  by_cases heq : b = next
  · rw [heq, Function.update_self]
    exact ho
  · rw [Function.update_of_ne heq]
    exact hnone b (by omega)

theorem NoneLost.release (hnone : NoneLost next owner) (b : Nat) :
    NoneLost next (Function.update owner b .released) := by
  intro c hc
  by_cases heq : c = b
  · rw [heq, Function.update_self]
    intro hlost
    cases hlost
  · rw [Function.update_of_ne heq]
    exact hnone c hc

/-- Once every place is empty, whatever was not lost has been released. -/
theorem Owners.all_released (h : Owners places next freed owner) (hnone : NoneLost next owner)
    (hempty : ∀ k, places k = none) {b : Nat} (hb : b < next) : b ∈ freed := by
  rw [h.released b]
  refine ⟨hb, ?_⟩
  cases howner : owner b with
  | place k =>
    have hplace := (h.held k b).mpr ⟨hb, howner⟩
    rw [hempty k] at hplace
    cases hplace
  | released => rfl
  | lost => exact absurd howner (hnone b hb)

variable [DecidableEq κ]

/-- A new allocation at an empty place. -/
theorem Owners.allocate (h : Owners places next freed owner) {k : κ} (hk : places k = none) :
    Owners (Function.update places k (some next)) (next + 1) freed
      (Function.update owner next (.place k)) := by
  constructor
  · intro k' b
    by_cases hb : b = next
    · rw [hb, Function.update_self]
      by_cases hkk : k' = k
      · rw [hkk, Function.update_self]
        exact ⟨fun _ => ⟨Nat.lt_succ_self next, rfl⟩, fun _ => rfl⟩
      · rw [Function.update_of_ne hkk]
        constructor
        · intro hplace
          exact absurd ((h.held k' next).mp hplace).1 (Nat.lt_irrefl next)
        · intro howner
          exact absurd (Owner.place.inj howner.2).symm hkk
    · rw [Function.update_of_ne hb]
      by_cases hkk : k' = k
      · rw [hkk, Function.update_self]
        constructor
        · intro heq
          exact absurd (Option.some.inj heq).symm hb
        · intro howner
          have hplace := (h.held k b).mpr ⟨by omega, howner.2⟩
          rw [hk] at hplace
          cases hplace
      · rw [Function.update_of_ne hkk, h.held k' b]
        exact and_congr_left fun _ => by omega
  · intro b
    by_cases hb : b = next
    · rw [hb, Function.update_self]
      constructor
      · intro hfreed
        exact absurd ((h.released next).mp hfreed).1 (Nat.lt_irrefl next)
      · intro howner
        cases howner.2
    · rw [Function.update_of_ne hb, h.released b]
      exact and_congr_left fun _ => by omega
  · exact h.once

/-- The allocation at a place is released. -/
theorem Owners.release (h : Owners places next freed owner) {k : κ} {b : Nat}
    (hk : places k = some b) :
    Owners (Function.update places k none) next (freed ++ [b])
      (Function.update owner b .released) := by
  obtain ⟨hlt, howner⟩ := (h.held k b).mp hk
  constructor
  · intro k' c
    by_cases hkk : k' = k
    · rw [hkk, Function.update_self]
      constructor
      · intro hnone
        cases hnone
      · rintro ⟨hc, hplace⟩
        by_cases hcb : c = b
        · rw [hcb, Function.update_self] at hplace
          cases hplace
        · rw [Function.update_of_ne hcb] at hplace
          have hother := (h.held k c).mpr ⟨hc, hplace⟩
          rw [hk] at hother
          exact absurd (Option.some.inj hother).symm hcb
    · rw [Function.update_of_ne hkk, h.held k' c]
      by_cases hcb : c = b
      · rw [hcb, Function.update_self, howner]
        constructor
        · intro hplace
          exact absurd (Owner.place.inj hplace.2).symm hkk
        · intro hplace
          cases hplace.2
      · rw [Function.update_of_ne hcb]
  · intro c
    rw [List.mem_append, List.mem_singleton]
    by_cases hcb : c = b
    · rw [hcb, Function.update_self]
      exact ⟨fun _ => ⟨hlt, rfl⟩, fun _ => .inr rfl⟩
    · rw [Function.update_of_ne hcb, or_iff_left hcb, h.released c]
  · apply List.Nodup.append h.once (List.nodup_singleton b)
    intro c hc hb
    rw [List.mem_singleton.mp hb] at hc
    exact h.not_freed hk hc

/-- A place is overwritten: what was there is lost. -/
theorem Owners.forget (h : Owners places next freed owner) (k : κ) :
    Owners (Function.update places k none) next freed
      (fun b => if owner b = .place k then .lost else owner b) := by
  constructor
  · intro k' b
    by_cases hkk : k' = k
    · rw [hkk, Function.update_self]
      constructor
      · intro hnone
        cases hnone
      · rintro ⟨-, hplace⟩
        split at hplace
        · cases hplace
        · exact absurd hplace ‹_›
    · rw [Function.update_of_ne hkk, h.held k' b]
      apply and_congr_right
      intro _
      split
      · rename_i hb
        rw [hb]
        constructor
        · intro hplace
          exact absurd (Owner.place.inj hplace).symm hkk
        · intro hplace
          cases hplace
      · rfl
  · intro b
    rw [h.released b]
    apply and_congr_right
    intro _
    split
    · rename_i hb
      rw [hb]
      constructor
      · intro hreleased
        cases hreleased
      · intro hreleased
        cases hreleased
    · rfl
  · exact h.once

theorem NoneLost.forget (hnone : NoneLost next owner) (h : Owners places next freed owner) {k : κ}
    (hk : places k = none) :
    NoneLost next fun b => if owner b = .place k then .lost else owner b := by
  intro b hb
  dsimp only
  split
  · rename_i howner
    have hplace := (h.held k b).mpr ⟨hb, howner⟩
    rw [hk] at hplace
    cases hplace
  · exact hnone b hb

end Kvl.Ownership

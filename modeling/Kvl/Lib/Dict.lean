import Mathlib.Data.List.Basic

/-!
# Dictionaries in insertion order

A dictionary is the list of its items. A key that is set again keeps its place.
-/

namespace Kvl

set_option autoImplicit false

namespace Dict

variable {κ ν : Type*} [DecidableEq κ]

def get (k : κ) : List (κ × ν) → Option ν
  | [] => none
  | (k', v) :: d => if k' = k then some v else get k d

/-- The value of `k` becomes `f` of what it was. -/
def modify (k : κ) (f : Option ν → ν) : List (κ × ν) → List (κ × ν)
  | [] => [(k, f none)]
  | (k', v) :: d => if k' = k then (k', f (some v)) :: d else (k', v) :: modify k f d

def set (k : κ) (v : ν) (d : List (κ × ν)) : List (κ × ν) := modify k (fun _ => v) d

variable {k k' : κ} {f : Option ν → ν} {d : List (κ × ν)}

@[simp] theorem get_modify_self : get k (modify k f d) = some (f (get k d)) := by
  induction d with
  | nil => exact if_pos rfl
  | cons item d ih =>
    obtain ⟨k', v⟩ := item
    unfold modify get
    by_cases h : k' = k
    · rw [if_pos h, if_pos h]
      exact if_pos h
    · rw [if_neg h, if_neg h]
      exact (if_neg h).trans ih

theorem get_modify_of_ne (hne : k' ≠ k) : get k' (modify k f d) = get k' d := by
  induction d with
  | nil => exact if_neg hne.symm
  | cons item d ih =>
    obtain ⟨k₁, v⟩ := item
    unfold modify
    by_cases h : k₁ = k
    · rw [if_pos h]
      unfold get
      rw [if_neg (fun heq => hne (heq.symm.trans h)), if_neg (fun heq => hne (heq.symm.trans h))]
    · rw [if_neg h]
      unfold get
      rw [ih]

@[simp] theorem get_set_self {v : ν} : get k (set k v d) = some v := get_modify_self

theorem get_set_of_ne {v : ν} (hne : k' ≠ k) : get k' (set k v d) = get k' d :=
  get_modify_of_ne hne

theorem get_eq_none_iff : get k d = none ↔ k ∉ d.map Prod.fst := by
  induction d with
  | nil => simp [get]
  | cons item d ih =>
    obtain ⟨k', v⟩ := item
    unfold get
    by_cases h : k' = k
    · simp [h]
    · simp [h, Ne.symm h, ih]

/-- A new key comes last. -/
theorem modify_new (hnew : k ∉ d.map Prod.fst) : modify k f d = d ++ [(k, f none)] := by
  induction d with
  | nil => rfl
  | cons item d ih =>
    obtain ⟨k', v⟩ := item
    rw [List.map_cons, List.mem_cons, not_or] at hnew
    unfold modify
    rw [if_neg (Ne.symm hnew.1), ih hnew.2]
    rfl

theorem modify_last {v : ν} (hnew : k ∉ d.map Prod.fst) :
    modify k f (d ++ [(k, v)]) = d ++ [(k, f (some v))] := by
  induction d with
  | nil => exact if_pos rfl
  | cons item d ih =>
    obtain ⟨k', v'⟩ := item
    rw [List.map_cons, List.mem_cons, not_or] at hnew
    rw [List.cons_append]
    unfold modify
    rw [if_neg (Ne.symm hnew.1), ih hnew.2]
    rfl

theorem mem_keys_modify : k' ∈ (modify k f d).map Prod.fst ↔ k' = k ∨ k' ∈ d.map Prod.fst := by
  induction d with
  | nil => simp [modify]
  | cons item d ih =>
    obtain ⟨k₁, v⟩ := item
    unfold modify
    by_cases h : k₁ = k
    · simp [h]
    · rw [if_neg h, List.map_cons, List.mem_cons, ih, List.map_cons, List.mem_cons]
      exact or_left_comm

/-- The keys of a dictionary differ. -/
theorem nodup_modify (h : (d.map Prod.fst).Nodup) : ((modify k f d).map Prod.fst).Nodup := by
  induction d with
  | nil => simp [modify]
  | cons item d ih =>
    obtain ⟨k₁, v⟩ := item
    obtain ⟨hnew, hnodup⟩ := List.nodup_cons.mp h
    unfold modify
    by_cases h : k₁ = k
    · rw [if_pos h]
      exact List.nodup_cons.mpr ⟨hnew, hnodup⟩
    · rw [if_neg h]
      refine List.nodup_cons.mpr ⟨fun hmem => ?_, ih hnodup⟩
      cases mem_keys_modify.mp hmem with
      | inl heq => exact h heq
      | inr hold => exact hnew hold

/-- Items of other keys come and go beside a change. -/
theorem filter_modify (keep : κ → Bool) :
    (modify k f d).filter (fun item => keep item.1) =
      if keep k then modify k f (d.filter fun item => keep item.1)
      else d.filter fun item => keep item.1 := by
  induction d with
  | nil => cases h : keep k <;> simp [modify, h]
  | cons item d ih =>
    obtain ⟨k₁, v⟩ := item
    rw [modify]
    by_cases h : k₁ = k
    · rw [if_pos h, h]
      cases hk : keep k with
      | true => simp [hk, modify]
      | false => simp [hk]
    · rw [if_neg h, List.filter_cons, List.filter_cons, ih]
      cases hk₁ : keep k₁ with
      | true =>
        cases hk : keep k with
        | true => simp [modify, h]
        | false => simp
      | false => simp

theorem mem_of_get {v : ν} (h : get k d = some v) : (k, v) ∈ d := by
  induction d with
  | nil => cases h
  | cons item d ih =>
    obtain ⟨k', v'⟩ := item
    unfold get at h
    split at h
    · rename_i heq
      rw [heq, Option.some.inj h]
      exact List.mem_cons_self
    · exact List.mem_cons_of_mem _ (ih h)

theorem get_eq_some_of_mem (hnodup : (d.map Prod.fst).Nodup) {v : ν} (h : (k, v) ∈ d) :
    get k d = some v := by
  induction d with
  | nil => cases h
  | cons item d ih =>
    obtain ⟨k₁, v₁⟩ := item
    obtain ⟨hnew, hnodup⟩ := List.nodup_cons.mp hnodup
    unfold get
    cases List.mem_cons.mp h with
    | inl heq =>
      obtain ⟨rfl, rfl⟩ := Prod.mk.inj heq
      exact if_pos rfl
    | inr hrest =>
      have hne : k₁ ≠ k := fun heq => hnew (heq ▸ List.mem_map.mpr ⟨_, hrest, rfl⟩)
      rw [if_neg hne]
      exact ih hnodup hrest

end Dict

end Kvl

import Mathlib

/-!
# Insertion into a bounded list of places

A list of places, each free or taken, into which candidates are inserted in
front of the first place that is free or holds a worse one. The last place
falls off. Nothing is assumed of the comparison here, so these facts also hold
where it is no order.
-/

namespace Kvl.TopK

set_option autoImplicit false

variable {α κ : Type*} (better : α → α → Bool)

def yields (a : α) : Option α → Bool
  | none => true
  | some b => better a b

def insertTop (a : α) : List (Option α) → List (Option α)
  | [] => []
  | b :: bs => if yields better a b then some a :: (b :: bs).dropLast else b :: insertTop a bs

def insertAll (places : List (Option α)) (xs : List α) : List (Option α) :=
  xs.foldl (fun places a => insertTop better a places) places

theorem insertTop_length (a : α) (places : List (Option α)) :
    (insertTop better a places).length = places.length := by
  induction places with
  | nil => rfl
  | cons b bs ih =>
    unfold insertTop
    split
    · simp
    · simp [ih]

theorem mem_insertTop {a c : α} {places : List (Option α)}
    (h : some c ∈ insertTop better a places) : c = a ∨ some c ∈ places := by
  induction places with
  | nil => simp [insertTop] at h
  | cons b bs ih =>
    unfold insertTop at h
    split at h
    · rcases List.mem_cons.mp h with h | h
      · exact .inl (Option.some.inj h)
      · exact .inr (List.mem_of_mem_dropLast h)
    · rcases List.mem_cons.mp h with h | h
      · exact .inr (h ▸ List.mem_cons_self)
      · exact (ih h).imp_right (List.mem_cons_of_mem b)

/-- Taken places hold candidates with different keys. -/
def Distinct (key : α → κ) (places : List (Option α)) : Prop :=
  places.Pairwise fun p q => ∀ a ∈ p, ∀ b ∈ q, key a ≠ key b

theorem Distinct.insertTop {key : α → κ} {a : α} {places : List (Option α)}
    (h : Distinct key places) (hnew : ∀ b, some b ∈ places → key b ≠ key a) :
    Distinct key (insertTop better a places) := by
  induction places with
  | nil => exact h
  | cons b bs ih =>
    have hcons := List.pairwise_cons.mp h
    unfold TopK.insertTop
    split
    · refine List.pairwise_cons.mpr ⟨?_, h.sublist (List.dropLast_sublist _)⟩
      intro q hq x hx y hy
      obtain rfl := Option.some.inj hx
      obtain rfl : q = some y := hy
      exact (hnew y (List.mem_of_mem_dropLast hq)).symm
    · have hrest := ih hcons.2 fun c hc => hnew c (List.mem_cons_of_mem b hc)
      refine List.pairwise_cons.mpr ⟨?_, hrest⟩
      intro q hq x hx y hy
      obtain rfl : b = some x := hx
      obtain rfl : q = some y := hy
      rcases mem_insertTop better hq with rfl | hmem
      · exact hnew x List.mem_cons_self
      · exact hcons.1 _ hmem x rfl y rfl

theorem insertAll_length (places : List (Option α)) (xs : List α) :
    (insertAll better places xs).length = places.length := by
  induction xs generalizing places with
  | nil => rfl
  | cons a xs ih =>
    change (insertAll better (insertTop better a places) xs).length = _
    rw [ih, insertTop_length]

theorem mem_insertAll {c : α} {places : List (Option α)} {xs : List α}
    (h : some c ∈ insertAll better places xs) : c ∈ xs ∨ some c ∈ places := by
  induction xs generalizing places with
  | nil => exact .inr h
  | cons a xs ih =>
    rcases ih h with h | h
    · exact .inl (List.mem_cons_of_mem a h)
    · rcases mem_insertTop better h with rfl | h
      · exact .inl List.mem_cons_self
      · exact .inr h

theorem Distinct.insertAll {key : α → κ} {xs : List α} {places : List (Option α)}
    (h : Distinct key places) (hnd : (xs.map key).Nodup)
    (hnew : ∀ b, some b ∈ places → key b ∉ xs.map key) :
    Distinct key (insertAll better places xs) := by
  induction xs generalizing places with
  | nil => exact h
  | cons a xs ih =>
    rw [List.map_cons, List.nodup_cons] at hnd
    refine ih (h.insertTop better fun b hb he => ?_) hnd.2 fun b hb => ?_
    · exact hnew b hb (he ▸ List.mem_cons_self)
    · rcases mem_insertTop better hb with rfl | hb
      · exact hnd.1
      · exact fun hm => hnew b hb (List.mem_cons_of_mem _ hm)

theorem distinct_free (key : α → κ) (k : Nat) : Distinct key (List.replicate k none) := by
  apply List.pairwise_replicate.mpr
  right
  simp

/-- The keys of the taken places, all of them taken. -/
theorem Distinct.nodup_map {key : α → κ} {places : List (Option α)} {as : List α}
    (h : Distinct key places) (has : places = as.map some) : (as.map key).Nodup := by
  subst has
  rw [List.Nodup, List.pairwise_map]
  refine (List.pairwise_map.mp h).imp ?_
  exact fun hne => hne _ rfl _ rfl

end Kvl.TopK

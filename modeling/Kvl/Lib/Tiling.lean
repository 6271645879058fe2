import Mathlib

/-!
# Pieces that fill a range

Pieces of a range of natural numbers that share nothing and whose sizes add up
to the range follow each other without a gap, in some order.
-/

namespace Kvl

set_option autoImplicit false

section Tiling
variable {α : Type*} (start size : α → Nat)

def piece (a : α) : Set Nat := Set.Ico (start a) (start a + size a)

/-- Each piece starts where the one before it ends, the first at `lo`. -/
def LaidFrom (lo : Nat) : List α → Prop
  | [] => True
  | a :: l => start a = lo ∧ LaidFrom (lo + size a) l

instance : (lo : Nat) → (l : List α) → Decidable (LaidFrom start size lo l)
  | _, [] => inferInstanceAs (Decidable True)
  | lo, a :: l =>
    have : Decidable (LaidFrom start size (lo + size a) l) := instDecidableLaidFrom _ l
    inferInstanceAs (Decidable (start a = lo ∧ LaidFrom start size (lo + size a) l))

variable {start size}

theorem piece_disjoint_iff {a b : α} (ha : 0 < size a) (hb : 0 < size b) :
    Disjoint (piece start size a) (piece start size b) ↔
      start a + size a ≤ start b ∨ start b + size b ≤ start a := by
  unfold piece
  rw [Set.Ico_disjoint_Ico]
  omega

theorem LaidFrom.inside {lo : Nat} {l : List α} (h : LaidFrom start size lo l) {a : α}
    (ha : a ∈ l) : lo ≤ start a ∧ start a + size a ≤ lo + (l.map size).sum := by
  induction l generalizing lo with
  | nil => cases ha
  | cons b l ih =>
    obtain ⟨hb, hl⟩ := h
    rw [List.map_cons, List.sum_cons]
    rcases List.mem_cons.mp ha with rfl | ha
    · constructor <;> omega
    · obtain ⟨hlow, hhigh⟩ := ih hl ha
      constructor <;> omega

theorem LaidFrom.disjoint {lo : Nat} {l : List α} (h : LaidFrom start size lo l) :
    l.Pairwise fun a b => Disjoint (piece start size a) (piece start size b) := by
  induction l generalizing lo with
  | nil => exact List.Pairwise.nil
  | cons a l ih =>
    obtain ⟨ha, hl⟩ := h
    apply List.Pairwise.cons _ (ih hl)
    intro b hb
    have hlow := (hl.inside hb).1
    apply Set.disjoint_left.mpr
    intro i hi hi'
    have hend := hi.2
    have hbegin := hi'.1
    omega

/-- Disjoint pieces of a finite set have no more elements than it. -/
theorem sum_size_le_card {l : List α} {S : Finset Nat}
    (hinside : ∀ a ∈ l, Finset.Ico (start a) (start a + size a) ⊆ S)
    (hdisjoint : l.Pairwise fun a b => Disjoint (piece start size a) (piece start size b)) :
    (l.map size).sum ≤ S.card := by
  induction l generalizing S with
  | nil => exact Nat.zero_le _
  | cons a l ih =>
    rw [List.pairwise_cons] at hdisjoint
    obtain ⟨hfirst, hrest⟩ := hdisjoint
    have hmem := hinside a List.mem_cons_self
    have hcard := Finset.card_sdiff_add_card_eq_card hmem
    rw [Nat.card_Ico, Nat.add_sub_cancel_left] at hcard
    have hrest := ih (S := S \ Finset.Ico (start a) (start a + size a)) (by
      intro b hb i hi
      rw [Finset.mem_sdiff]
      refine ⟨hinside b (List.mem_cons_of_mem a hb) hi, fun ha => ?_⟩
      exact Set.disjoint_left.mp (hfirst b hb) (Finset.mem_Ico.mp ha) (Finset.mem_Ico.mp hi)) hrest
    rw [List.map_cons, List.sum_cons]
    omega

/-- The range is full, so one of the pieces holds its first number. -/
theorem exists_start {lo : Nat} {l : List α} (hne : l ≠ []) (hpos : ∀ a ∈ l, 0 < size a)
    (hinside : ∀ a ∈ l, lo ≤ start a ∧ start a + size a ≤ lo + (l.map size).sum)
    (hdisjoint : l.Pairwise fun a b => Disjoint (piece start size a) (piece start size b)) :
    ∃ a ∈ l, start a = lo := by
  by_contra hnone
  push Not at hnone
  have hle := sum_size_le_card (S := Finset.Ico (lo + 1) (lo + (l.map size).sum)) (by
    intro a ha i hi
    have hi := Finset.mem_Ico.mp hi
    have hlow := (hinside a ha).1
    have hhigh := (hinside a ha).2
    have hstart := hnone a ha
    exact Finset.mem_Ico.mpr ⟨by omega, by omega⟩) hdisjoint
  rw [Nat.card_Ico] at hle
  obtain ⟨a, ha⟩ := List.exists_mem_of_ne_nil l hne
  have hsize := hpos a ha
  have hbound := hinside a ha
  omega

/-- Disjoint pieces that together have the size of their range fill it in order. -/
theorem exists_laidFrom {lo : Nat} {l : List α} (hpos : ∀ a ∈ l, 0 < size a)
    (hinside : ∀ a ∈ l, lo ≤ start a ∧ start a + size a ≤ lo + (l.map size).sum)
    (hdisjoint : l.Pairwise fun a b => Disjoint (piece start size a) (piece start size b)) :
    ∃ order : List α, order.Perm l ∧ LaidFrom start size lo order := by
  generalize hn : l.length = n
  induction n generalizing lo l with
  | zero => exact ⟨[], by rw [List.length_eq_zero_iff.mp hn], trivial⟩
  | succ n ih =>
    have hne : l ≠ [] := by
      intro hnil
      rw [hnil] at hn
      cases hn
    obtain ⟨a, ha, hstart⟩ := exists_start hne hpos hinside hdisjoint
    obtain ⟨before, after, rfl⟩ := List.append_of_mem ha
    have hperm : (before ++ a :: after).Perm (a :: (before ++ after)) := List.perm_middle
    have hsum : ((before ++ a :: after).map size).sum =
        size a + ((before ++ after).map size).sum := by
      rw [(hperm.map size).sum_eq, List.map_cons, List.sum_cons]
    have hpair := hdisjoint.perm hperm fun h => h.symm
    rw [List.pairwise_cons] at hpair
    obtain ⟨hfirst, hrest⟩ := hpair
    have hmem : ∀ b ∈ before ++ after, b ∈ before ++ a :: after := fun b hb =>
      hperm.mem_iff.mpr (List.mem_cons_of_mem a hb)
    have hlen : (before ++ after).length = n := by
      have hcount := hperm.length_eq
      rw [List.length_cons] at hcount
      omega
    obtain ⟨order, horder, hlaid⟩ := @ih (lo + size a) _ (fun b hb => hpos b (hmem b hb)) (by
      intro b hb
      have hbound := hinside b (hmem b hb)
      have hb0 := hpos b (hmem b hb)
      have hapart := (piece_disjoint_iff (hpos a ha) hb0).mp (hfirst b hb)
      rw [hsum] at hbound
      constructor <;> omega) hrest hlen
    exact ⟨a :: order, (horder.cons a).trans hperm.symm, hstart, hlaid⟩

end Tiling

end Kvl

import Mathlib

/-!
# Aligned extents of a file that grows

A file holds contents at aligned offsets, one after another. What is appended behind them
leaves them as they are, and a new content goes to the next aligned offset.
-/

namespace Kvl.Extents

set_option autoImplicit false

section
variable {β : Type*}

def slice (file : List β) (off n : Nat) : List β := (file.drop off).take n

def alignUp (a n : Nat) : Nat := (n + a - 1) / a * a

/-- A file padded to a multiple of `a`. -/
def pad (zero : β) (a : Nat) (file : List β) : List β :=
  file ++ List.replicate (alignUp a file.length - file.length) zero

theorem le_alignUp {a : Nat} (ha : 0 < a) (n : Nat) : n ≤ alignUp a n := by
  unfold alignUp
  have hmod := Nat.mod_lt (n + a - 1) ha
  have hdiv := Nat.div_add_mod' (n + a - 1) a
  omega

theorem dvd_alignUp (a n : Nat) : a ∣ alignUp a n := ⟨_, Nat.mul_comm _ _⟩

theorem alignUp_of_dvd {a n : Nat} (ha : 0 < a) (h : a ∣ n) : alignUp a n = n := by
  obtain ⟨k, rfl⟩ := h
  unfold alignUp
  rw [Nat.add_sub_assoc ha, Nat.mul_add_div ha, Nat.div_eq_of_lt (Nat.sub_lt ha Nat.one_pos),
    Nat.add_zero, Nat.mul_comm]

theorem length_pad {a : Nat} (ha : 0 < a) (zero : β) (file : List β) :
    (pad zero a file).length = alignUp a file.length := by
  unfold pad
  rw [List.length_append, List.length_replicate]
  exact Nat.add_sub_of_le (le_alignUp ha _)

theorem pad_of_dvd {a : Nat} (ha : 0 < a) (zero : β) {file : List β} (h : a ∣ file.length) :
    pad zero a file = file := by
  rw [pad, alignUp_of_dvd ha h, Nat.sub_self, List.replicate_zero, List.append_nil]

theorem alignUp_add {a m : Nat} (ha : 0 < a) (h : a ∣ m) (n : Nat) :
    alignUp a (m + n) = m + alignUp a n := by
  obtain ⟨k, rfl⟩ := h
  have hsum : a * k + n + a - 1 = a * k + (n + a - 1) := by omega
  unfold alignUp
  rw [hsum, Nat.mul_add_div ha, Nat.add_mul, Nat.mul_comm k a]

/-- Padding behind an aligned start. -/
theorem pad_append {a : Nat} (ha : 0 < a) (zero : β) {file : List β} (h : a ∣ file.length)
    (content : List β) : pad zero a (file ++ content) = file ++ pad zero a content := by
  unfold pad
  rw [List.append_assoc, List.length_append, alignUp_add ha h, Nat.add_sub_add_left]

theorem slice_append {file more : List β} {off n : Nat} (h : off + n ≤ file.length) :
    slice (file ++ more) off n = slice file off n := by
  unfold slice
  rw [List.drop_append_of_le_length (Nat.le_of_add_right_le h), List.take_append_of_le_length]
  rw [List.length_drop]
  omega

theorem length_slice_le (file : List β) (off n : Nat) : (slice file off n).length ≤ n :=
  List.length_take_le _ _

theorem slice_zero (file : List β) (off : Nat) : slice file off 0 = [] := List.take_zero

/-- A slice in two parts. -/
theorem slice_add (file : List β) (off m n : Nat) :
    slice file off (m + n) = slice file off m ++ slice file (off + m) n := by
  unfold slice
  rw [List.take_add, List.drop_drop]

theorem slice_length_self (file : List β) (off n : Nat) :
    slice file off (slice file off n).length = slice file off n := by
  unfold slice
  rw [List.length_take, ← List.take_take, List.take_length]

/-- A slice that is complete lies in the file. -/
theorem slice_inside {file : List β} {off n : Nat} (h : (slice file off n).length = n) (hn : 0 < n) :
    off + n ≤ file.length := by
  unfold slice at h
  rw [List.length_take, List.length_drop] at h
  omega

theorem length_slice_add {file : List β} {off m n : Nat} :
    (slice file off (m + n)).length = m + n ↔
      (slice file off m).length = m ∧ (slice file (off + m) n).length = n := by
  have hm := length_slice_le file off m
  have hn := length_slice_le file (off + m) n
  rw [slice_add, List.length_append]
  omega

theorem slice_last (file content : List β) :
    slice (file ++ content) file.length content.length = content := by
  unfold slice
  rw [List.drop_left, List.take_length]

theorem slice_length {file : List β} {off n : Nat} (h : off + n ≤ file.length) :
    (slice file off n).length = n := by
  unfold slice
  rw [List.length_take, List.length_drop]
  omega

/-- A slice of a slice. -/
theorem slice_slice {file : List β} {off n at' m : Nat} (h : at' + m ≤ n) :
    slice (slice file off n) at' m = slice file (off + at') m := by
  unfold slice
  rw [List.drop_take, List.drop_drop, List.take_take, Nat.min_eq_left (by omega)]

/-- A content and where it lies. -/
structure Extent (β : Type*) where
  offset : Nat
  content : List β

def Extent.stop (x : Extent β) : Nat := x.offset + x.content.length

/-- The contents lie in the file, aligned and one behind another. -/
structure Laid (a : Nat) (file : List β) (xs : List (Extent β)) : Prop where
  stored : ∀ x ∈ xs, slice file x.offset x.content.length = x.content
  inside : ∀ x ∈ xs, x.stop ≤ file.length
  aligned : ∀ x ∈ xs, a ∣ x.offset ∧ a ∣ x.content.length
  ordered : xs.Pairwise fun x y => x.stop ≤ y.offset

variable {a : Nat} {file : List β} {xs : List (Extent β)}

theorem Laid.nil : Laid a file [] :=
  ⟨fun _ h => absurd h List.not_mem_nil, fun _ h => absurd h List.not_mem_nil,
    fun _ h => absurd h List.not_mem_nil, .nil⟩

/-- What comes behind does not matter. -/
theorem Laid.append (h : Laid a file xs) (more : List β) : Laid a (file ++ more) xs where
  stored x hx := by rw [slice_append (h.inside x hx), h.stored x hx]
  inside x hx := (h.inside x hx).trans (by rw [List.length_append]; exact Nat.le_add_right _ _)
  aligned := h.aligned
  ordered := h.ordered

/-- A new content at the end of an aligned file. -/
theorem Laid.concat (h : Laid a file xs) (hfile : a ∣ file.length) {content : List β}
    (hcontent : a ∣ content.length) :
    Laid a (file ++ content) (xs ++ [⟨file.length, content⟩]) where
  stored x hx := by
    cases List.mem_append.mp hx with
    | inl hold => exact (h.append content).stored x hold
    | inr hnew =>
      rw [List.mem_singleton.mp hnew]
      exact slice_last file content
  inside x hx := by
    cases List.mem_append.mp hx with
    | inl hold => exact (h.append content).inside x hold
    | inr hnew =>
      rw [List.mem_singleton.mp hnew, Extent.stop, List.length_append]
  aligned x hx := by
    cases List.mem_append.mp hx with
    | inl hold => exact h.aligned x hold
    | inr hnew =>
      rw [List.mem_singleton.mp hnew]
      exact ⟨hfile, hcontent⟩
  ordered := by
    refine List.pairwise_append.mpr ⟨h.ordered, List.pairwise_singleton _ _, fun x hx y hy => ?_⟩
    rw [List.mem_singleton.mp hy]
    exact h.inside x hx

/-- Disjoint extents take no more than the file. -/
theorem Laid.total (h : Laid a file xs) :
    (xs.map fun x => x.content.length).sum ≤ file.length := by
  have hsum (n : Nat) (ys : List (Extent β)) (hin : ∀ y ∈ ys, y.stop ≤ n)
      (hord : ys.Pairwise fun x y => x.stop ≤ y.offset) :
      ∀ lo, (∀ y ∈ ys, lo ≤ y.offset) → lo ≤ n →
        lo + (ys.map fun x => x.content.length).sum ≤ n := by
    induction ys with
    | nil => intro lo _ hlo; exact hlo
    | cons y ys ih =>
      intro lo hlo _
      obtain ⟨hfirst, hord⟩ := List.pairwise_cons.mp hord
      have hstart := hlo y List.mem_cons_self
      have hstop := hin y List.mem_cons_self
      have hrest := ih (fun z hz => hin z (List.mem_cons_of_mem _ hz)) hord y.stop hfirst hstop
      rw [List.map_cons, List.sum_cons]
      unfold Extent.stop at hrest
      omega
  have := hsum file.length xs h.inside h.ordered 0 (fun _ _ => Nat.zero_le _) (Nat.zero_le _)
  rwa [Nat.zero_add] at this

/-- No two extents meet. -/
theorem Laid.disjoint (h : Laid a file xs) {i j : Nat} (hne : i ≠ j) (hi : i < xs.length)
    (hj : j < xs.length) : xs[i].stop ≤ xs[j].offset ∨ xs[j].stop ≤ xs[i].offset := by
  cases Nat.lt_or_gt_of_ne hne with
  | inl hlt => exact Or.inl (List.pairwise_iff_getElem.mp h.ordered i j hi hj hlt)
  | inr hgt => exact Or.inr (List.pairwise_iff_getElem.mp h.ordered j i hj hi hgt)

end

end Kvl.Extents

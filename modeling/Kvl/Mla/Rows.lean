import Kvl.Moe.Kernels

/-!
# Rows of a flat buffer

Row `t` of a buffer with rows of `n` values starts at `t * n`. A kernel that
reads `n` values takes them as a list, so it cannot see past them.
-/

namespace Kvl

set_option autoImplicit false

variable {F : Type*}

/-- The first `n` values at a pointer. -/
def row (n : Nat) (buf : Nat → F) : List F := (List.range n).map buf

def rowAt (n t : Nat) (buf : Nat → F) : List F := row n (readFrom (t * n) buf)

/-- The rows below `count`, one after another. -/
def writeRows (count n : Nat) (f : (Nat → F) → Nat → Nat → F) (buf : Nat → F) : Nat → F :=
  (List.range count).foldl (fun buf t => writeAt (t * n) n (f buf t) buf) buf

@[simp] theorem row_length (n : Nat) (buf : Nat → F) : (row n buf).length = n := by
  unfold row
  rw [List.length_map, List.length_range]

theorem row_eq_iff {n : Nat} {a b : Nat → F} : row n a = row n b ↔ ∀ i < n, a i = b i := by
  unfold row
  rw [List.map_inj_left]
  constructor
  · intro h i hi
    exact h i (List.mem_range.mpr hi)
  · intro h i hi
    exact h i (List.mem_range.mp hi)

theorem row_congr {n : Nat} {a b : Nat → F} (h : ∀ i < n, a i = b i) : row n a = row n b :=
  row_eq_iff.mpr h

theorem row_writeAt {n : Nat} {f buf : Nat → F} : row n (writeAt 0 n f buf) = row n f := by
  apply row_congr
  intro i hi
  unfold writeAt
  rw [if_pos (by omega), Nat.sub_zero]

theorem row_zipWith {n : Nat} (f : F → F → F) (a b : Nat → F) :
    List.zipWith f (row n a) (row n b) = row n fun i => f (a i) (b i) := by
  unfold row
  rw [List.zipWith_map, List.zipWith_self]

theorem rowAt_eq_iff {n t : Nat} {a b : Nat → F} :
    rowAt n t a = rowAt n t b ↔ ∀ i < n, a (t * n + i) = b (t * n + i) :=
  row_eq_iff

theorem row_offset_lt {n t t' i : Nat} (ht : t < t') (hi : i < n) : t * n + i < t' * n := by
  have hrow := Nat.mul_le_mul_right n (Nat.succ_le_of_lt ht)
  rw [Nat.succ_mul] at hrow
  omega

theorem rowAt_writeAt_self {n t : Nat} {f buf : Nat → F} :
    rowAt n t (writeAt (t * n) n f buf) = row n f := by
  apply row_congr
  intro i hi
  exact readFrom_writeAt hi

theorem rowAt_writeAt_of_ne {n t t' : Nat} {f buf : Nat → F} (h : t ≠ t') :
    rowAt n t (writeAt (t' * n) n f buf) = rowAt n t buf := by
  apply row_congr
  intro i hi
  apply readFrom_writeAt_of_disjoint
  rcases Nat.lt_or_gt_of_ne h with hlt | hgt
  · exact .inl (row_offset_lt hlt hi)
  · have hrow := Nat.mul_le_mul_right n (Nat.succ_le_of_lt hgt)
    rw [Nat.succ_mul] at hrow
    exact .inr (by omega)

theorem writeRows_succ {count n : Nat} {f : (Nat → F) → Nat → Nat → F} {buf : Nat → F} :
    writeRows (count + 1) n f buf =
      writeAt (count * n) n (f (writeRows count n f buf) count) (writeRows count n f buf) := by
  unfold writeRows
  rw [List.range_succ, List.foldl_append]
  rfl

/-- Rows that have not been reached yet. -/
theorem rowAt_writeRows_of_le {count n t : Nat} {f : (Nat → F) → Nat → Nat → F} {buf : Nat → F}
    (ht : count ≤ t) : rowAt n t (writeRows count n f buf) = rowAt n t buf := by
  induction count with
  | zero => rfl
  | succ count ih =>
    rw [writeRows_succ, rowAt_writeAt_of_ne (by omega)]
    exact ih (by omega)

/-- A loop whose body reads no row of the buffer but its own writes each row
from the one it found there. -/
theorem rowAt_writeRows {count n t : Nat} {f : (Nat → F) → Nat → Nat → F} {buf : Nat → F}
    (hlocal : ∀ b, rowAt n t b = rowAt n t buf → row n (f b t) = row n (f buf t))
    (ht : t < count) : rowAt n t (writeRows count n f buf) = row n (f buf t) := by
  induction count with
  | zero => omega
  | succ count ih =>
    rw [writeRows_succ]
    rcases Nat.lt_succ_iff_lt_or_eq.mp ht with hlt | heq
    · rw [rowAt_writeAt_of_ne (by omega)]
      exact ih hlt
    · subst heq
      rw [rowAt_writeAt_self]
      exact hlocal _ (rowAt_writeRows_of_le (Nat.le_refl t))

end Kvl

import Mathlib

/-!
# The heap use of a run

A run as the sequence of its allocations and releases, each with its size. The
peak of a run is the largest number of bytes that are live at once.
-/

namespace HeapTrace

set_option autoImplicit false

inductive HeapEvent
  | alloc (bytes : Nat)
  | free (bytes : Nat)
  deriving DecidableEq, Repr

def HeapEvent.after (live : Nat) : HeapEvent → Nat
  | .alloc bytes => live + bytes
  | .free bytes => live - bytes

def liveAfter (live : Nat) (run : List HeapEvent) : Nat := run.foldl HeapEvent.after live

def peak : Nat → List HeapEvent → Nat
  | live, [] => live
  | live, e :: run => max live (peak (e.after live) run)

def allocs (sizes : List Nat) : List HeapEvent := sizes.map .alloc

def frees (sizes : List Nat) : List HeapEvent := sizes.map .free

theorem liveAfter_append (live : Nat) (run next : List HeapEvent) :
    liveAfter live (run ++ next) = liveAfter (liveAfter live run) next := List.foldl_append

theorem start_le_peak (live : Nat) (run : List HeapEvent) : live ≤ peak live run := by
  cases run with
  | nil => exact Nat.le_refl _
  | cons e run => exact Nat.le_max_left _ _

theorem peak_append (live : Nat) (run next : List HeapEvent) :
    peak live (run ++ next) = max (peak live run) (peak (liveAfter live run) next) := by
  induction run generalizing live with
  | nil => exact (max_eq_right (start_le_peak live next)).symm
  | cons e run ih =>
    change max live (peak (e.after live) (run ++ next)) = _
    rw [ih, ← max_assoc]
    rfl

theorem peak_left (live : Nat) (run next : List HeapEvent) :
    peak live run ≤ peak live (run ++ next) := by
  rw [peak_append]
  exact Nat.le_max_left _ _

theorem peak_right (live : Nat) (run next : List HeapEvent) :
    peak (liveAfter live run) next ≤ peak live (run ++ next) := by
  rw [peak_append]
  exact Nat.le_max_right _ _

theorem liveAfter_le_peak (live : Nat) (run : List HeapEvent) :
    liveAfter live run ≤ peak live run := by
  have h := peak_right live run []
  rwa [List.append_nil] at h

@[simp] theorem liveAfter_allocs (live : Nat) (sizes : List Nat) :
    liveAfter live (allocs sizes) = live + sizes.sum := by
  induction sizes generalizing live with
  | nil => rfl
  | cons n sizes ih =>
    change liveAfter (live + n) (allocs sizes) = _
    rw [ih, List.sum_cons, Nat.add_assoc]

@[simp] theorem liveAfter_frees (live : Nat) (sizes : List Nat) :
    liveAfter live (frees sizes) = live - sizes.sum := by
  induction sizes generalizing live with
  | nil => rfl
  | cons n sizes ih =>
    change liveAfter (live - n) (frees sizes) = _
    rw [ih, List.sum_cons, Nat.sub_sub]

@[simp] theorem peak_allocs (live : Nat) (sizes : List Nat) :
    peak live (allocs sizes) = live + sizes.sum := by
  induction sizes generalizing live with
  | nil => rfl
  | cons n sizes ih =>
    change max live (peak (live + n) (allocs sizes)) = _
    rw [ih, List.sum_cons, Nat.add_assoc]
    exact max_eq_right (Nat.le_add_right _ _)

@[simp] theorem peak_frees (live : Nat) (sizes : List Nat) : peak live (frees sizes) = live := by
  induction sizes generalizing live with
  | nil => rfl
  | cons n sizes ih =>
    change max live (peak (live - n) (frees sizes)) = _
    rw [ih]
    exact max_eq_left (Nat.sub_le _ _)

/-- A stretch of a run that starts and ends with the given live bytes and stays below a bound. -/
structure Stretch (run : List HeapEvent) (live live' bound : Nat) : Prop where
  after : liveAfter live run = live'
  peak_le : peak live run ≤ bound

namespace Stretch

variable {run next : List HeapEvent} {live live' live'' bound : Nat}

theorem nil (h : live ≤ bound) : Stretch [] live live bound := ⟨rfl, h⟩

theorem append (h : Stretch run live live' bound) (h' : Stretch next live' live'' bound) :
    Stretch (run ++ next) live live'' bound := by
  constructor
  · rw [liveAfter_append, h.after, h'.after]
  · rw [peak_append, h.after]
    exact max_le h.peak_le h'.peak_le

theorem allocs {sizes : List Nat} (h : live + sizes.sum ≤ bound) :
    Stretch (allocs sizes) live (live + sizes.sum) bound :=
  ⟨liveAfter_allocs live sizes, by rwa [peak_allocs]⟩

theorem frees {sizes : List Nat} (h : live + sizes.sum ≤ bound) :
    Stretch (frees sizes) (live + sizes.sum) live bound := by
  constructor
  · rw [liveAfter_frees, Nat.add_sub_cancel]
  · rwa [peak_frees]

/-- Buffers that are taken at the start of a stretch and released at its end. -/
theorem within {sizes : List Nat}
    (h : Stretch run (live + sizes.sum) (live' + sizes.sum) bound) :
    Stretch (HeapTrace.allocs sizes ++ run ++ HeapTrace.frees sizes) live live' bound := by
  have hstart : live + sizes.sum ≤ bound := (start_le_peak _ run).trans h.peak_le
  have hend : live' + sizes.sum ≤ bound := by
    rw [← h.after]
    exact (liveAfter_le_peak _ run).trans h.peak_le
  exact ((allocs hstart).append h).append (frees hend)

end Stretch

end HeapTrace

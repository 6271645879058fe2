import Mathlib.Data.Nat.Digits.Lemmas

/-!
# Streams of fields

A list of fields of `w` bits is one number whose lowest bits are the first field. Two streams of
different widths carry the same data where they are the same number, and a field is read out of
the units of a stream by shifts.
-/

namespace Kvl.BitStream

set_option autoImplicit false

/-- The number of a stream of fields of `w` bits. -/
def streamValue (w : Nat) (fields : List Nat) : Nat := Nat.ofDigits (2 ^ w) fields

variable {w : Nat} {fields : List Nat}

theorem streamValue_nil : streamValue w [] = 0 := rfl

theorem streamValue_append (first rest : List Nat) :
    streamValue w (first ++ rest) =
      streamValue w first + 2 ^ (w * first.length) * streamValue w rest := by
  unfold streamValue
  rw [Nat.ofDigits_append, Nat.pow_mul]

theorem streamValue_singleton (f : Nat) : streamValue w [f] = f := by
  unfold streamValue
  exact Nat.ofDigits_singleton

theorem streamValue_lt (hw : 0 < w) (h : ∀ f ∈ fields, f < 2 ^ w) :
    streamValue w fields < 2 ^ (w * fields.length) := by
  unfold streamValue
  rw [Nat.pow_mul]
  exact Nat.ofDigits_lt_base_pow_length (Nat.one_lt_two_pow (by omega)) h

theorem streamValue_drop (h : ∀ f ∈ fields, f < 2 ^ w) (i : Nat) :
    streamValue w (fields.drop i) = streamValue w fields / 2 ^ (w * i) := by
  unfold streamValue
  rw [Nat.pow_mul, Nat.ofDigits_div_pow_eq_ofDigits_drop i (Nat.two_pow_pos w) fields h]

/-- A field is what stands at its place in the number. -/
theorem streamValue_field (h : ∀ f ∈ fields, f < 2 ^ w) {i : Nat}
    (hi : i < fields.length) :
    streamValue w fields / 2 ^ (w * i) % 2 ^ w = fields[i] := by
  rw [← streamValue_drop h, List.drop_eq_getElem_cons hi, streamValue, Nat.ofDigits_cons, Nat.add_mul_mod_self_left,
    Nat.mod_eq_of_lt (h _ (List.getElem_mem hi))]

/-- A number cut into `k` fields. -/
theorem streamValue_cut (n k : Nat) :
    streamValue w ((List.range k).map fun i => n >>> (w * i) % 2 ^ w) = n % 2 ^ (w * k) := by
  induction k with
  | zero => rw [Nat.mul_zero, Nat.pow_zero, Nat.mod_one]; rfl
  | succ k ih =>
    rw [List.range_succ, List.map_append, streamValue_append, ih, List.length_map,
      List.length_range, List.map_singleton, streamValue_singleton, Nat.shiftRight_eq_div_pow,
      Nat.mul_succ, Nat.pow_add, Nat.mod_mul]

/-! ### Reading a field out of units -/

section
variable {n u v i s : Nat}

/-- A field inside of one unit. -/
theorem field_in_unit (h : s + v ≤ u) :
    n / 2 ^ (u * i + s) % 2 ^ v = n / 2 ^ (u * i) % 2 ^ u / 2 ^ s % 2 ^ v := by
  have hsplit : 2 ^ u = 2 ^ s * 2 ^ (u - s) := by rw [← Nat.pow_add]; congr 1; omega
  have hdvd : 2 ^ v ∣ 2 ^ (u - s) := Nat.pow_dvd_pow 2 (by omega)
  rw [hsplit, Nat.mod_mul_right_div_self, Nat.mod_mod_of_dvd _ hdvd, Nat.div_div_eq_div_mul,
    ← Nat.pow_add]

/-- A field that begins in a unit and ends in the next. -/
theorem field_across_units (hs : s ≤ u) (hv : v ≤ u) :
    n / 2 ^ (u * i + s) % 2 ^ v =
      (n / 2 ^ (u * i) % 2 ^ u / 2 ^ s + n / 2 ^ (u * (i + 1)) % 2 ^ u * 2 ^ (u - s)) % 2 ^ v := by
  have hsplit : 2 ^ u = 2 ^ s * 2 ^ (u - s) := by rw [← Nat.pow_add]; congr 1; omega
  have hdvd : 2 ^ v ∣ 2 ^ u := Nat.pow_dvd_pow 2 hv
  have hnext : n / 2 ^ (u * (i + 1)) = n / 2 ^ (u * i) / 2 ^ u := by
    rw [Nat.mul_succ, Nat.pow_add, Nat.div_div_eq_div_mul]
  rw [hnext, Nat.pow_add, ← Nat.div_div_eq_div_mul]
  generalize n / 2 ^ (u * i) = m
  -- the part above the unit moves down by a whole number of units less the shift
  have hdiv : m / 2 ^ s = m % 2 ^ u / 2 ^ s + m / 2 ^ u * 2 ^ (u - s) := by
    conv_lhs => rw [← Nat.mod_add_div m (2 ^ u), hsplit, Nat.mul_assoc,
      Nat.add_mul_div_left _ _ (Nat.two_pow_pos s), ← hsplit]
    rw [Nat.mul_comm (2 ^ (u - s))]
  rw [hdiv]
  apply Nat.ModEq.add_left
  exact ((Nat.mod_modEq _ _).of_dvd hdvd).symm.mul_right _

end

/-- Or-ing a field above the bits of a number adds it. -/
theorem or_shiftLeft {a f s : Nat} (h : a < 2 ^ s) : a ||| f <<< s = a + f * 2 ^ s := by
  rw [Nat.or_comm, ← Nat.shiftLeft_add_eq_or_of_lt h, Nat.shiftLeft_eq, Nat.add_comm]

end Kvl.BitStream

import Kvl.Lib.BitStream
import Kvl.Store.Encode

/-!
# Packing signed five-bit weights

`pack_signed_q5` writes the weights of a matrix as one stream of five-bit fields: eight weights
at a time as five bytes, and what is left through an accumulator. The bytes are the stream of
the fields read as bytes.
-/

namespace Kvl.Q5

set_option autoImplicit false

open BitStream

/-- `& 31` of a signed byte. -/
def u5 (v : Int) : Nat := (v % 32).toNat

/-! ### The packer -/

def word8 (u : Nat → Nat) : Nat :=
  u 0 ||| (u 1 <<< 5) ||| (u 2 <<< 10) ||| (u 3 <<< 15) ||| (u 4 <<< 20) ||| (u 5 <<< 25) |||
    (u 6 <<< 30) ||| (u 7 <<< 35)

def wordBytes (word : Nat) : Bytes :=
  (List.range 5).map fun b => UInt8.ofNat ((word >>> (8 * b)) &&& 255)

/-- Eight weights a word. -/
def packWords (flat : List Int) : Bytes :=
  (List.range (flat.length / 8)).flatMap fun k => wordBytes (word8 fun j => u5 (flat.getD (8 * k + j) 0))

structure TailState where
  acc : Nat
  bits : Nat
  tail : Bytes

/-- `while bits >= 8`. -/
def flush (s : TailState) : TailState :=
  if 8 ≤ s.bits then flush ⟨s.acc >>> 8, s.bits - 8, s.tail ++ [UInt8.ofNat (s.acc &&& 255)]⟩ else s
termination_by s.bits

def tailStep (s : TailState) (value : Int) : TailState :=
  flush ⟨s.acc ||| (u5 value <<< s.bits), s.bits + 5, s.tail⟩

def packTail (values : List Int) : Bytes :=
  let s := values.foldl tailStep ⟨0, 0, []⟩
  if s.bits ≠ 0 then s.tail ++ [UInt8.ofNat (s.acc &&& 255)] else s.tail

/-- `none` where the length check raises. -/
def packSignedQ5 (flat : List Int) : Option Bytes :=
  let n8 := flat.length / 8 * 8
  let packed := (if n8 ≠ 0 then packWords flat else []) ++
    if n8 ≠ flat.length then packTail (flat.drop n8) else []
  if packed.length ≠ (flat.length * 5 + 7) / 8 then none else some packed

/-- `scales.tobytes(order="C")`, from the bits of the floats. -/
def scaleBytes (scales : List (List UInt32)) : Bytes :=
  scales.flatten.flatMap fun s => toLE 4 s.toNat

/-- What `quantize_g128` returns for its scales and weights. -/
def q5Blob (scales : List (List UInt32)) (q : List (List Int)) : Option Bytes :=
  (packSignedQ5 q.flatten).map fun packed => scaleBytes scales ++ packed

/-! ### Streams of bytes and of weights -/

def byteValue (b : Bytes) : Nat := streamValue 8 (b.map UInt8.toNat)

/-- The stream of the five-bit fields. -/
def weightValue (flat : List Int) : Nat := streamValue 5 (flat.map u5)

theorem u5_lt (v : Int) : u5 v < 2 ^ 5 := by
  unfold u5
  omega

theorem byteValue_append (first rest : Bytes) :
    byteValue (first ++ rest) = byteValue first + 2 ^ (8 * first.length) * byteValue rest := by
  unfold byteValue
  rw [List.map_append, streamValue_append, List.length_map]

theorem byteValue_singleton (n : Nat) : byteValue [UInt8.ofNat n] = n % 2 ^ 8 := by
  unfold byteValue
  rw [List.map_singleton, streamValue_singleton, UInt8.toNat_ofNat']

theorem byteValue_lt (b : Bytes) : byteValue b < 2 ^ (8 * b.length) := by
  unfold byteValue
  have hlen : (b.map UInt8.toNat).length = b.length := List.length_map _
  rw [← hlen]
  apply streamValue_lt (by decide)
  intro f hf
  obtain ⟨x, -, rfl⟩ := List.mem_map.mp hf
  exact x.toNat_lt

theorem byteValue_get {b : Bytes} {i : Nat} (hi : i < b.length) :
    byteValue b / 2 ^ (8 * i) % 2 ^ 8 = (b[i]).toNat := by
  have hlt : i < (b.map UInt8.toNat).length := by rw [List.length_map]; exact hi
  unfold byteValue
  rw [streamValue_field _ hlt, List.getElem_map]
  intro f hf
  obtain ⟨x, -, rfl⟩ := List.mem_map.mp hf
  exact x.toNat_lt

theorem weightValue_append (first rest : List Int) :
    weightValue (first ++ rest) = weightValue first + 2 ^ (5 * first.length) * weightValue rest := by
  unfold weightValue
  rw [List.map_append, streamValue_append, List.length_map]

theorem weightValue_singleton (v : Int) : weightValue [v] = u5 v := by
  unfold weightValue
  rw [List.map_singleton, streamValue_singleton]

theorem weightValue_lt (flat : List Int) : weightValue flat < 2 ^ (5 * flat.length) := by
  unfold weightValue
  have hlen : (flat.map u5).length = flat.length := List.length_map _
  rw [← hlen]
  apply streamValue_lt (by decide)
  intro f hf
  obtain ⟨v, -, rfl⟩ := List.mem_map.mp hf
  exact u5_lt v

theorem weightValue_get {flat : List Int} {i : Nat} (hi : i < flat.length) :
    weightValue flat / 2 ^ (5 * i) % 2 ^ 5 = u5 flat[i] := by
  have hlt : i < (flat.map u5).length := by rw [List.length_map]; exact hi
  unfold weightValue
  rw [streamValue_field _ hlt, List.getElem_map]
  intro f hf
  obtain ⟨v, -, rfl⟩ := List.mem_map.mp hf
  exact u5_lt v

/-! ### The words -/

theorem and_255 (n : Nat) : n &&& 255 = n % 2 ^ 8 := Nat.and_two_pow_sub_one_eq_mod n 8

theorem wordBytes_length (word : Nat) : (wordBytes word).length = 5 := rfl

theorem byteValue_wordBytes (word : Nat) : byteValue (wordBytes word) = word % 2 ^ 40 := by
  have hcut := streamValue_cut (w := 8) word 5
  unfold byteValue wordBytes
  rw [List.map_map, ← hcut]
  congr 1
  apply List.map_congr_left
  intro b _
  rw [Function.comp_apply, and_255, UInt8.toNat_ofNat', Nat.mod_mod]

theorem word8_eq {u : Nat → Nat} (h : ∀ j, u j < 2 ^ 5) :
    word8 u = streamValue 5 ((List.range 8).map u) := by
  have h0 := h 0
  have h1 := h 1
  have h2 := h 2
  have h3 := h 3
  have h4 := h 4
  have h5 := h 5
  have h6 := h 6
  have h7 := h 7
  unfold word8
  -- from the inside out, every field lies above the bits of those before it
  rw [or_shiftLeft (a := u 0) (by omega), or_shiftLeft (a := u 0 + u 1 * 2 ^ 5) (by omega),
    or_shiftLeft (a := u 0 + u 1 * 2 ^ 5 + u 2 * 2 ^ 10) (by omega),
    or_shiftLeft (a := u 0 + u 1 * 2 ^ 5 + u 2 * 2 ^ 10 + u 3 * 2 ^ 15) (by omega),
    or_shiftLeft (s := 25) (by omega), or_shiftLeft (s := 30) (by omega),
    or_shiftLeft (s := 35) (by omega)]
  simp only [streamValue, List.range_succ, List.range_zero, List.nil_append, List.cons_append,
    List.map_cons, List.map_nil, Nat.ofDigits_cons, Nat.ofDigits_nil]
  omega

theorem take_add_eight {flat : List Int} {k : Nat} (h : 8 * (k + 1) ≤ flat.length) :
    flat.take (8 * (k + 1)) =
      flat.take (8 * k) ++ (List.range 8).map fun j => flat.getD (8 * k + j) 0 := by
  apply List.ext_getElem
  · rw [List.length_append, List.length_take, List.length_take, List.length_map, List.length_range]
    omega
  · intro i hi hi'
    rw [List.length_take] at hi
    rw [List.getElem_take, List.getElem_append]
    split
    · rw [List.getElem_take]
    · rename_i hge
      rw [List.length_take] at hge
      have hmin : min (8 * k) flat.length = 8 * k := by omega
      rw [List.getElem_map, List.getElem_range, List.getD_eq_getElem?_getD,
        List.getElem?_eq_getElem (by rw [List.length_take]; omega)]
      simp only [List.length_take, hmin, Option.getD_some]
      congr 1
      omega

/-- The words of the first `k` octets. -/
theorem packWords_prefix {flat : List Int} {k : Nat} (h : 8 * k ≤ flat.length) :
    let bytes := (List.range k).flatMap fun k =>
      wordBytes (word8 fun j => u5 (flat.getD (8 * k + j) 0))
    bytes.length = 5 * k ∧ byteValue bytes = weightValue (flat.take (8 * k)) := by
  induction k with
  | zero => exact ⟨rfl, rfl⟩
  | succ k ih =>
    obtain ⟨hlen, hval⟩ := ih (by omega)
    dsimp only at hlen hval ⊢
    have hword : word8 (fun j => u5 (flat.getD (8 * k + j) 0)) =
        weightValue ((List.range 8).map fun j => flat.getD (8 * k + j) 0) := by
      rw [word8_eq fun j => u5_lt _, weightValue, List.map_map]
      rfl
    have hlt : weightValue ((List.range 8).map fun j => flat.getD (8 * k + j) 0) < 2 ^ 40 := by
      have hlt := weightValue_lt ((List.range 8).map fun j => flat.getD (8 * k + j) 0)
      rw [List.length_map, List.length_range] at hlt
      exact hlt
    rw [List.range_succ, List.flatMap_append, List.flatMap_singleton]
    refine ⟨by rw [List.length_append, hlen, wordBytes_length]; omega, ?_⟩
    rw [byteValue_append, hval, hlen, byteValue_wordBytes, hword, Nat.mod_eq_of_lt hlt,
      take_add_eight h, weightValue_append, List.length_take, Nat.min_eq_left (by omega)]
    congr 3
    omega

/-! ### The tail -/

/-- What has gone through the accumulator. -/
structure TailInv (done : List Int) (s : TailState) : Prop where
  acc : s.acc < 2 ^ s.bits
  total : 8 * s.tail.length + s.bits = 5 * done.length
  value : byteValue s.tail + 2 ^ (8 * s.tail.length) * s.acc = weightValue done

theorem flush_inv {done : List Int} {s : TailState} (h : TailInv done s) :
    TailInv done (flush s) ∧ (flush s).bits < 8 := by
  induction s using flush.induct with
  | case1 s hbits ih =>
    unfold flush
    rw [if_pos hbits]
    apply ih
    have hpow : 2 ^ s.bits = 2 ^ 8 * 2 ^ (s.bits - 8) := by rw [← Nat.pow_add]; congr 1; omega
    have hacc := h.acc
    rw [hpow] at hacc
    refine ⟨?_, ?_, ?_⟩
    · show s.acc >>> 8 < 2 ^ (s.bits - 8)
      rw [Nat.shiftRight_eq_div_pow]
      exact Nat.div_lt_of_lt_mul hacc
    · have htotal := h.total
      simp only [List.length_append, List.length_singleton]
      omega
    · show byteValue (s.tail ++ [_]) + 2 ^ (8 * (s.tail ++ [_]).length) * (s.acc >>> 8) = _
      rw [byteValue_append, and_255, byteValue_singleton, Nat.mod_mod, List.length_append,
        List.length_singleton, Nat.mul_succ, Nat.pow_add, Nat.shiftRight_eq_div_pow, ← h.value,
        Nat.mul_assoc, Nat.add_assoc, ← Nat.mul_add, Nat.mod_add_div]
  | case2 s hbits =>
    unfold flush
    rw [if_neg hbits]
    exact ⟨h, by omega⟩

theorem tailStep_inv {done : List Int} {s : TailState} (h : TailInv done s) (value : Int) :
    TailInv (done ++ [value]) (tailStep s value) ∧ (tailStep s value).bits < 8 := by
  have hu := u5_lt value
  unfold tailStep
  apply flush_inv
  refine ⟨?_, ?_, ?_⟩
  · show s.acc ||| (u5 value <<< s.bits) < 2 ^ (s.bits + 5)
    have hacc := h.acc
    rw [or_shiftLeft hacc, Nat.pow_add]
    nlinarith
  · have htotal := h.total
    simp only [List.length_append, List.length_singleton]
    omega
  · show byteValue s.tail + 2 ^ (8 * s.tail.length) * (s.acc ||| (u5 value <<< s.bits)) = _
    rw [or_shiftLeft h.acc, weightValue_append, weightValue_singleton, ← h.value, ← h.total,
      Nat.pow_add]
    ring

theorem tailSteps_inv {done : List Int} {s : TailState} (h : TailInv done s) (hbits : s.bits < 8)
    (values : List Int) :
    TailInv (done ++ values) (values.foldl tailStep s) ∧ (values.foldl tailStep s).bits < 8 := by
  induction values generalizing done s with
  | nil => exact ⟨by rw [List.append_nil]; exact h, hbits⟩
  | cons value values ih =>
    obtain ⟨hstep, hlt⟩ := tailStep_inv h value
    rw [List.foldl_cons, List.append_cons]
    exact ih hstep hlt

theorem packTail_spec (values : List Int) :
    (packTail values).length = (values.length * 5 + 7) / 8 ∧
      byteValue (packTail values) = weightValue values := by
  have hstart : TailInv [] ⟨0, 0, []⟩ := ⟨Nat.one_pos, rfl, rfl⟩
  obtain ⟨hinv, hlt⟩ := tailSteps_inv hstart (by decide) values
  rw [List.nil_append] at hinv
  have htotal := hinv.total
  unfold packTail
  dsimp only
  split
  · rename_i hbits
    have hacc : (values.foldl tailStep ⟨0, 0, []⟩).acc < 2 ^ 8 :=
      Nat.lt_of_lt_of_le hinv.acc (Nat.pow_le_pow_right (by decide) (by omega))
    refine ⟨by rw [List.length_append, List.length_singleton]; omega, ?_⟩
    rw [byteValue_append, and_255, byteValue_singleton, Nat.mod_mod, Nat.mod_eq_of_lt hacc]
    exact hinv.value
  · rename_i hbits
    have hzero : (values.foldl tailStep ⟨0, 0, []⟩).bits = 0 := Nat.eq_zero_of_not_pos fun h =>
      hbits (Nat.ne_of_gt h)
    have hacc := hinv.acc
    rw [hzero] at hacc
    refine ⟨by omega, ?_⟩
    have hvalue := hinv.value
    rw [Nat.lt_one_iff.mp hacc, Nat.mul_zero, Nat.add_zero] at hvalue
    exact hvalue

/-! ### The whole stream -/

/-- The length check passes, and the bytes are the stream of the weights. -/
theorem packSignedQ5_spec (flat : List Int) :
    ∃ packed, packSignedQ5 flat = some packed ∧ packed.length = (flat.length * 5 + 7) / 8 ∧
      byteValue packed = weightValue flat := by
  have hn : 8 * (flat.length / 8) ≤ flat.length := Nat.mul_div_le _ _
  obtain ⟨hwlen, hwval⟩ := packWords_prefix hn
  obtain ⟨htlen, htval⟩ := packTail_spec (flat.drop (flat.length / 8 * 8))
  have hwords : (if flat.length / 8 * 8 ≠ 0 then packWords flat else []) = packWords flat := by
    split
    · rfl
    · rename_i h
      have hzero : flat.length / 8 = 0 := by omega
      rw [packWords, hzero]
      rfl
  have htail : (if flat.length / 8 * 8 ≠ flat.length then packTail (flat.drop (flat.length / 8 * 8))
      else []) = packTail (flat.drop (flat.length / 8 * 8)) := by
    split
    · rfl
    · rename_i h
      rw [List.drop_of_length_le (by omega)]
      rfl
  have hlen : (packWords flat ++ packTail (flat.drop (flat.length / 8 * 8))).length =
      (flat.length * 5 + 7) / 8 := by
    rw [List.length_append, htlen, List.length_drop, packWords, hwlen]
    omega
  refine ⟨_, ?_, hlen, ?_⟩
  · unfold packSignedQ5
    dsimp only
    rw [hwords, htail, if_neg (by rw [hlen]; exact fun h => h rfl)]
  · rw [byteValue_append, htval, packWords, hwval, hwlen]
    conv_rhs => rw [← List.take_append_drop (flat.length / 8 * 8) flat, weightValue_append]
    rw [List.length_take, Nat.mul_comm 8, Nat.min_eq_left (by omega)]
    congr 3
    omega

/-! ### The scales -/

theorem scaleBytes_length (scales : List (List UInt32)) :
    (scaleBytes scales).length = 4 * scales.flatten.length := by
  unfold scaleBytes
  induction scales.flatten with
  | nil => rfl
  | cons s rest ih =>
    rw [List.flatMap_cons, List.length_append, ih, toLE_length, List.length_cons]
    omega

theorem u32At_scaleBytes {scales : List (List UInt32)} {packed : Bytes} {k : Nat}
    (hk : k < scales.flatten.length) :
    u32At (scaleBytes scales ++ packed) (4 * k) = scales.flatten[k] := by
  unfold scaleBytes
  generalize scales.flatten = flat at hk
  induction flat generalizing k with
  | nil => exact absurd hk (Nat.not_lt_zero _)
  | cons s rest ih =>
    rw [List.flatMap_cons, List.append_assoc]
    cases k with
    | zero =>
      unfold u32At
      rw [Nat.mul_zero, List.drop_zero, take_toLE_append, u32_ofLE_toLE, List.getElem_cons_zero]
    | succ k =>
      have hrest := ih (Nat.lt_of_succ_lt_succ hk)
      unfold u32At at hrest ⊢
      rw [drop_toLE_append (by omega), show 4 * (k + 1) - 4 = 4 * k by omega, hrest,
        List.getElem_cons_succ]

end Kvl.Q5

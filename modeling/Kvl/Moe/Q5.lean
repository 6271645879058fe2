import Kvl.Lib.Sums
import Kvl.Tools.PackQ5

/-!
# Five-bit weights

`kvl_matvec_q5_g128` reads a matrix of five-bit weights out of one stream, with a scale for
every 128 columns of a row. Rows and groups begin at any bit, and where a group begins at a
byte the vector path reads eight weights at a time. The arithmetic is that of a ring, and a
read outside of the matrix is an error.
-/

namespace Kvl.Q5

set_option autoImplicit false

open BitStream Finset

def q5Group : Nat := 128

def q5Sign5 (v : Nat) : Int :=
  let v := v &&& 31
  if v &&& 16 ≠ 0 then (v : Int) - 32 else v

def q5Read5 (q : Bytes) (bitpos : Nat) : Option Int :=
  let byte := bitpos >>> 3
  let shift := bitpos &&& 7
  q[byte]?.bind fun b =>
    let v := b.toNat >>> shift
    if 3 < shift then q[byte + 1]?.map fun b => q5Sign5 (v ||| (b.toNat <<< (8 - shift)))
    else some (q5Sign5 v)

/-- The forty bits that the vector path reads at byte `p`. -/
def q5Word (q : Bytes) (p : Nat) : Option Nat :=
  q[p]?.bind fun p0 => q[p + 1]?.bind fun p1 => q[p + 2]?.bind fun p2 => q[p + 3]?.bind fun p3 =>
    q[p + 4]?.map fun p4 => p0.toNat ||| (p1.toNat <<< 8) ||| (p2.toNat <<< 16) |||
      (p3.toNat <<< 24) ||| (p4.toNat <<< 32)

/-- The weight of lane `l`, the word cut to 32 bits before the sign. -/
def q5Lane (w l : Nat) : Int := q5Sign5 ((w >>> (5 * l)) % 2 ^ 32)

section
variable {K : Type*} [CommRing K]

def dotQ5Ref (q : Bytes) (bitpos : Nat) (x : Nat → K) (n : Nat) : Option K :=
  (List.range n).foldlM (fun acc i =>
    (q5Read5 q (bitpos + i * 5)).map fun (v : Int) => acc + (v : K) * x i) 0

/-- The eight lanes added: halves, then neighbours twice. -/
def addLanes (acc : Nat → K) : K :=
  ((acc 0 + acc 4) + (acc 1 + acc 5)) + ((acc 2 + acc 6) + (acc 3 + acc 7))

def dotQ5ByteAlignedAvx2 (q : Bytes) (x : Nat → K) (n : Nat) : Option K :=
  ((List.range (n / 8)).foldlM (fun (acc : Nat → K) j =>
    (q5Word q (5 * j)).map fun w l => acc l + (q5Lane w l : K) * x (8 * j + l)) 0).bind fun acc =>
  let i := n / 8 * 8
  if i < n then
    (dotQ5Ref q (i * 5) (fun k => x (i + k)) (n - i)).map fun dot => addLanes acc + dot
  else some (addLanes acc)

def q5Groups (inn : Nat) : Nat := (inn + q5Group - 1) / q5Group

def q5MatrixBytes (inn out : Nat) : Nat :=
  let scaleBytes := out * q5Groups inn * 4
  let weightBits := out * inn * 5
  scaleBytes + (weightBits + 7) / 8

/-- `scales[k]`, four bytes of the blob. -/
def q5Scale (f32 : UInt32 → K) (blob : Bytes) (k : Nat) : Option K :=
  if 4 * k + 4 ≤ blob.length then some (f32 (u32At blob (4 * k))) else none

/-- `n`, the columns of a group. -/
def groupColumns (inn g : Nat) : Nat :=
  if g * q5Group + q5Group ≤ inn then q5Group else inn - g * q5Group

def groupDot (avx2 : Bool) (q : Bytes) (bitpos : Nat) (x : Nat → K) (n : Nat) : Option K :=
  if avx2 ∧ bitpos &&& 7 = 0 then dotQ5ByteAlignedAvx2 (q.drop (bitpos >>> 3)) x n
  else dotQ5Ref q bitpos x n

def rowTotal (avx2 : Bool) (f32 : UInt32 → K) (x : Nat → K) (blob : Bytes) (inn out o : Nat) :
    Option K :=
  let q := blob.drop (4 * (out * q5Groups inn))
  (List.range (q5Groups inn)).foldlM (fun total g =>
    let start := g * q5Group
    let bitpos := (o * inn + start) * 5
    (groupDot avx2 q bitpos (fun i => x (start + i)) (groupColumns inn g)).bind fun dot =>
      (q5Scale f32 blob (o * q5Groups inn + g)).map fun scale => total + scale * dot) 0

/-- The vector after the call; `avx2` is `KVL_USE_AVX2`. -/
def kvlMatvecQ5G128 (avx2 : Bool) (f32 : UInt32 → K) (y x : Nat → K) (blob : Bytes)
    (inn out : Int) : Option (Nat → K) :=
  if inn ≤ 0 ∨ out ≤ 0 then some y
  else ((List.range out.toNat).mapM (rowTotal avx2 f32 x blob inn.toNat out.toNat)).map
    fun totals o => totals.getD o (y o)

end

/-! ### Reading one weight -/

theorem q5Sign5_mod (v : Nat) : q5Sign5 (v % 2 ^ 5) = q5Sign5 v := by
  unfold q5Sign5
  have hmask : ∀ n : Nat, n &&& 31 = n % 2 ^ 5 := fun n => Nat.and_two_pow_sub_one_eq_mod n 5
  rw [hmask, hmask, Nat.mod_mod]

theorem q5Sign5_u5 {v : Int} (hlo : -16 ≤ v) (hhi : v ≤ 15) : q5Sign5 (u5 v) = v := by
  have htable : ∀ i : Nat, i < 32 → q5Sign5 (u5 ((i : Int) - 16)) = (i : Int) - 16 := by decide
  have h := htable (v + 16).toNat (by omega)
  rw [show ((v + 16).toNat : Int) - 16 = v by omega] at h
  exact h

/-- The weight at a bit of a stream of bytes. -/
def weightAt (q : Bytes) (bitpos : Nat) : Int := q5Sign5 (byteValue q / 2 ^ bitpos)

theorem q5Read5_eq {q : Bytes} {bitpos : Nat} (h : bitpos + 5 ≤ 8 * q.length) :
    q5Read5 q bitpos = some (weightAt q bitpos) := by
  have hbyte : bitpos / 8 < q.length := by omega
  have hshift : bitpos % 8 < 8 := Nat.mod_lt _ (by decide)
  have hpos : 8 * (bitpos / 8) + bitpos % 8 = bitpos := Nat.div_add_mod bitpos 8
  have hmask : bitpos &&& 7 = bitpos % 8 := Nat.and_two_pow_sub_one_eq_mod bitpos 3
  unfold q5Read5 weightAt
  rw [Nat.shiftRight_eq_div_pow, show (2 : Nat) ^ 3 = 8 from rfl, hmask]
  dsimp only
  rw [List.getElem?_eq_getElem hbyte, Option.bind_some]
  have hget := byteValue_get hbyte
  split
  · rename_i hlt
    have hnext : bitpos / 8 + 1 < q.length := by omega
    have hget' := byteValue_get hnext
    have hfield := field_across_units (n := byteValue q) (u := 8) (v := 5) (i := bitpos / 8)
      (Nat.le_of_lt hshift) (by decide)
    have hlow : q[bitpos / 8].toNat / 2 ^ (bitpos % 8) < 2 ^ (8 - bitpos % 8) := by
      apply Nat.div_lt_of_lt_mul
      rw [← Nat.pow_add, Nat.add_sub_of_le (Nat.le_of_lt hshift)]
      exact q[bitpos / 8].toNat_lt
    rw [hpos, hget, hget'] at hfield
    rw [List.getElem?_eq_getElem hnext, Option.map_some, Nat.shiftRight_eq_div_pow,
      or_shiftLeft hlow, ← q5Sign5_mod, ← hfield, q5Sign5_mod]
  · rename_i hle
    have hfield := field_in_unit (n := byteValue q) (u := 8) (v := 5) (i := bitpos / 8)
      (s := bitpos % 8) (by omega)
    rw [hpos, hget] at hfield
    rw [Nat.shiftRight_eq_div_pow, ← q5Sign5_mod, ← hfield, q5Sign5_mod]

theorem byteValue_drop (q : Bytes) (k : Nat) : byteValue (q.drop k) = byteValue q / 2 ^ (8 * k) := by
  unfold byteValue
  rw [List.map_drop, streamValue_drop]
  intro f hf
  obtain ⟨x, -, rfl⟩ := List.mem_map.mp hf
  exact x.toNat_lt

theorem weightAt_drop (q : Bytes) (k bitpos : Nat) :
    weightAt (q.drop k) bitpos = weightAt q (8 * k + bitpos) := by
  unfold weightAt
  rw [byteValue_drop, Nat.div_div_eq_div_mul, ← Nat.pow_add]

/-! ### Reading eight weights -/

theorem q5Word_eq {q : Bytes} {p : Nat} (h : p + 5 ≤ q.length) :
    q5Word q p = some (byteValue q / 2 ^ (8 * p) % 2 ^ 40) := by
  have hcut := streamValue_cut (w := 8) (byteValue q / 2 ^ (8 * p)) 5
  have hbyte : ∀ b < 5, ∃ hlt : p + b < q.length,
      (byteValue q / 2 ^ (8 * p)) >>> (8 * b) % 2 ^ 8 = q[p + b].toNat := by
    intro b hb
    refine ⟨by omega, ?_⟩
    rw [Nat.shiftRight_eq_div_pow, Nat.div_div_eq_div_mul, ← Nat.pow_add, ← Nat.mul_add]
    exact byteValue_get (by omega)
  obtain ⟨h0, e0⟩ := hbyte 0 (by decide)
  obtain ⟨h1, e1⟩ := hbyte 1 (by decide)
  obtain ⟨h2, e2⟩ := hbyte 2 (by decide)
  obtain ⟨h3, e3⟩ := hbyte 3 (by decide)
  obtain ⟨h4, e4⟩ := hbyte 4 (by decide)
  have l0 := q[p + 0].toNat_lt
  have l1 := q[p + 1].toNat_lt
  have l2 := q[p + 2].toNat_lt
  have l3 := q[p + 3].toNat_lt
  have l4 := q[p + 4].toNat_lt
  simp only [List.range_succ, List.range_zero, List.nil_append, List.cons_append, List.map_cons,
    List.map_nil, e0, e1, e2, e3, e4, streamValue, Nat.ofDigits_cons, Nat.ofDigits_nil] at hcut
  unfold q5Word
  rw [← hcut, List.getElem?_eq_getElem (show p < q.length from h0), List.getElem?_eq_getElem h1,
    List.getElem?_eq_getElem h2, List.getElem?_eq_getElem h3, List.getElem?_eq_getElem h4]
  simp only [Option.bind_some, Option.map_some, Option.some.injEq, Nat.add_zero] at *
  rw [or_shiftLeft (a := q[p].toNat) (by omega), or_shiftLeft (s := 16) (by omega),
    or_shiftLeft (s := 24) (by omega), or_shiftLeft (s := 32) (by omega)]
  omega

/-- The lanes of a word are the weights that the scalar path reads there. -/
theorem q5Lane_eq {q : Bytes} {p l : Nat} (hl : l < 8) :
    q5Lane (byteValue q / 2 ^ (8 * p) % 2 ^ 40) l = weightAt q (8 * p + 5 * l) := by
  have hfield := field_in_unit (n := byteValue q / 2 ^ (8 * p)) (u := 40) (i := 0) (s := 5 * l)
    (v := 5) (by omega)
  rw [Nat.mul_zero, Nat.zero_add, Nat.pow_zero, Nat.div_one] at hfield
  unfold q5Lane weightAt
  rw [← q5Sign5_mod, Nat.mod_mod_of_dvd _ (Nat.pow_dvd_pow 2 (by decide : 5 ≤ 32)),
    Nat.shiftRight_eq_div_pow, ← hfield, q5Sign5_mod, Nat.div_div_eq_div_mul, ← Nat.pow_add]

/-! ### Dot products -/

section
variable {K : Type*} [CommRing K] {q : Bytes} {bitpos n : Nat} {x : Nat → K}

theorem dotQ5Ref_eq (h : bitpos + 5 * n ≤ 8 * q.length) :
    dotQ5Ref q bitpos x n = some (∑ i ∈ range n, (weightAt q (bitpos + 5 * i) : K) * x i) := by
  unfold dotQ5Ref
  rw [Sums.foldlM_range_add (g := fun i => (weightAt q (bitpos + 5 * i) : K) * x i), zero_add]
  intro i hi acc
  rw [q5Read5_eq (by omega), Nat.mul_comm i 5]
  rfl

theorem addLanes_eq (acc : Nat → K) : addLanes acc = ∑ l ∈ range 8, acc l := by
  unfold addLanes
  simp only [sum_range_succ, range_zero, sum_empty]
  ring

theorem laneSums_eq {m : Nat} (h : 5 * m ≤ q.length) :
    (List.range m).foldlM (fun (acc : Nat → K) j =>
      (q5Word q (5 * j)).map fun w l => acc l + (q5Lane w l : K) * x (8 * j + l)) 0 =
    some (∑ j ∈ range m, fun l =>
      (q5Lane (byteValue q / 2 ^ (8 * (5 * j)) % 2 ^ 40) l : K) * x (8 * j + l)) := by
  rw [Sums.foldlM_range_add (g := fun j l =>
    (q5Lane (byteValue q / 2 ^ (8 * (5 * j)) % 2 ^ 40) l : K) * x (8 * j + l)), zero_add]
  intro j hj acc
  rw [q5Word_eq (by omega)]
  rfl

/-- The vector path adds up what the scalar path adds up. -/
theorem dotQ5ByteAlignedAvx2_eq (h : 5 * n ≤ 8 * q.length) :
    dotQ5ByteAlignedAvx2 q x n = some (∑ i ∈ range n, (weightAt q (5 * i) : K) * x i) := by
  have hlanes : addLanes (∑ j ∈ range (n / 8), fun l =>
      (q5Lane (byteValue q / 2 ^ (8 * (5 * j)) % 2 ^ 40) l : K) * x (8 * j + l)) =
      ∑ i ∈ range (8 * (n / 8)), (weightAt q (5 * i) : K) * x i := by
    rw [addLanes_eq, Sums.sum_range_mul_add]
    simp only [Finset.sum_apply]
    rw [sum_comm]
    refine sum_congr rfl fun j _ => sum_congr rfl fun l hl => ?_
    rw [q5Lane_eq (mem_range.mp hl), show 8 * (5 * j) + 5 * l = 5 * (8 * j + l) by ring]
  have hsplit : n / 8 * 8 ≤ n := Nat.div_mul_le_self n 8
  unfold dotQ5ByteAlignedAvx2
  rw [laneSums_eq (by omega), Option.bind_some, hlanes]
  dsimp only
  split
  · rename_i hlt
    rw [dotQ5Ref_eq (by omega), Option.map_some]
    congr 1
    conv_rhs => rw [show n = 8 * (n / 8) + (n - n / 8 * 8) by omega, sum_range_add]
    congr 1
    apply sum_congr rfl
    intro i _
    rw [Nat.mul_comm 8, show n / 8 * 8 * 5 + 5 * i = 5 * (n / 8 * 8 + i) by omega]
  · rename_i hge
    rw [show 8 * (n / 8) = n by omega]

theorem groupDot_eq (avx2 : Bool) (h : bitpos + 5 * n ≤ 8 * q.length) :
    groupDot avx2 q bitpos x n =
      some (∑ i ∈ range n, (weightAt q (bitpos + 5 * i) : K) * x i) := by
  unfold groupDot
  split
  · rename_i haligned
    have hmask : bitpos &&& 7 = bitpos % 8 := Nat.and_two_pow_sub_one_eq_mod bitpos 3
    have hmod : bitpos % 8 = 0 := by rw [← hmask]; exact haligned.2
    rw [Nat.shiftRight_eq_div_pow, show (2 : Nat) ^ 3 = 8 from rfl,
      dotQ5ByteAlignedAvx2_eq (by rw [List.length_drop]; omega)]
    congr 1
    apply sum_congr rfl
    intro i _
    rw [weightAt_drop, show 8 * (bitpos / 8) = bitpos by omega]
  · exact dotQ5Ref_eq h

/-! ### The whole product -/

theorem groupColumns_le {inn g : Nat} (hg : g < q5Groups inn) :
    g * q5Group + groupColumns inn g ≤ inn := by
  unfold groupColumns q5Groups q5Group at *
  split <;> omega

/-- The sum of one row. -/
def rowSum (f32 : UInt32 → K) (x : Nat → K) (blob : Bytes) (inn out o : Nat) : K :=
  ∑ g ∈ range (q5Groups inn), f32 (u32At blob (4 * (o * q5Groups inn + g))) *
    ∑ i ∈ range (groupColumns inn g),
      (weightAt (blob.drop (4 * (out * q5Groups inn))) ((o * inn + (g * q5Group + i)) * 5) : K) *
        x (g * q5Group + i)

/-- A blob of the size of the matrix is enough for every read of a row. -/
theorem rowTotal_eq (avx2 : Bool) (f32 : UInt32 → K) {blob : Bytes} {inn out o : Nat}
    (hblob : q5MatrixBytes inn out ≤ blob.length) (ho : o < out) :
    rowTotal avx2 f32 x blob inn out o = some (rowSum f32 x blob inn out o) := by
  unfold q5MatrixBytes at hblob
  unfold rowTotal rowSum
  dsimp only at hblob ⊢
  rw [Sums.foldlM_range_add (g := fun g => f32 (u32At blob (4 * (o * q5Groups inn + g))) *
    ∑ i ∈ range (groupColumns inn g),
      (weightAt (blob.drop (4 * (out * q5Groups inn))) ((o * inn + (g * q5Group + i)) * 5) : K) *
        x (g * q5Group + i)), zero_add]
  intro g hg total
  have hcols := groupColumns_le hg
  have hrow : o * inn + inn ≤ out * inn := by
    rw [← Nat.succ_mul]
    exact Nat.mul_le_mul_right inn ho
  have hscale : o * q5Groups inn + g < out * q5Groups inn := by
    have hle : (o + 1) * q5Groups inn ≤ out * q5Groups inn := Nat.mul_le_mul_right _ ho
    rw [Nat.succ_mul] at hle
    omega
  rw [groupDot_eq avx2 (by rw [List.length_drop]; omega), Option.bind_some, q5Scale,
    if_pos (by omega), Option.map_some]
  congr 3
  apply sum_congr rfl
  intro i _
  rw [show (o * inn + g * q5Group) * 5 + 5 * i = (o * inn + (g * q5Group + i)) * 5 by ring]

/-- The product on either path. -/
theorem kvlMatvecQ5G128_eq (avx2 : Bool) (f32 : UInt32 → K) (y : Nat → K) {blob : Bytes}
    {inn out : Nat} (hin : 0 < inn) (hout : 0 < out)
    (hblob : q5MatrixBytes inn out ≤ blob.length) :
    kvlMatvecQ5G128 avx2 f32 y x blob inn out =
      some fun o => if o < out then rowSum f32 x blob inn out o else y o := by
  unfold kvlMatvecQ5G128
  rw [if_neg (by omega), Int.toNat_natCast, Int.toNat_natCast,
    Sums.mapM_some (g := rowSum f32 x blob inn out) fun o ho =>
      rowTotal_eq avx2 f32 hblob (List.mem_range.mp ho), Option.map_some]
  congr 1
  funext o
  rw [List.getD_eq_getElem?_getD, List.getElem?_map]
  by_cases ho : o < out
  · rw [List.getElem?_range ho, if_pos ho]
    rfl
  · rw [List.getElem?_eq_none (by rw [List.length_range]; omega), if_neg ho]
    rfl

end

/-! ### What was packed is read -/

theorem getElem_flatten {α : Type*} {rows : List (List α)} {n o c : Nat}
    (hrows : ∀ row ∈ rows, row.length = n) (ho : o < rows.length) (hc : c < n) :
    ∃ hlt : o * n + c < rows.flatten.length, ∃ hrow : c < rows[o].length,
      rows.flatten[o * n + c] = rows[o][c] := by
  induction rows generalizing o with
  | nil => exact absurd ho (Nat.not_lt_zero _)
  | cons row rows ih =>
    have hfirst := hrows row List.mem_cons_self
    cases o with
    | zero =>
      refine ⟨?_, by rw [List.getElem_cons_zero]; omega, ?_⟩
      · rw [List.flatten_cons, List.length_append]
        omega
      · simp only [List.flatten_cons, Nat.zero_mul, Nat.zero_add, List.getElem_cons_zero]
        rw [List.getElem_append_left (by omega)]
    | succ o =>
      obtain ⟨hlt, hrow, heq⟩ := ih (fun r hr => hrows r (List.mem_cons_of_mem _ hr))
        (Nat.lt_of_succ_lt_succ ho)
      have hsucc : (o + 1) * n + c = row.length + (o * n + c) := by rw [hfirst]; ring
      refine ⟨?_, hrow, ?_⟩
      · rw [List.flatten_cons, List.length_append]
        omega
      · simp only [List.flatten_cons, hsucc, List.getElem_cons_succ]
        rw [List.getElem_append_right (by omega), ← heq]
        congr 1
        omega

/-- A matrix of five-bit weights with its scales. -/
structure Q5Matrix (inn out : Nat) (scales : List (List UInt32)) (q : List (List Int)) : Prop where
  rows : q.length = out
  columns : ∀ row ∈ q, row.length = inn
  weights : ∀ row ∈ q, ∀ v ∈ row, -16 ≤ v ∧ v ≤ 15
  scaleRows : scales.length = out
  groups : ∀ row ∈ scales, row.length = q5Groups inn

theorem length_flatten_of {α : Type*} {rows : List (List α)} {n : Nat}
    (hrows : ∀ row ∈ rows, row.length = n) : rows.flatten.length = rows.length * n := by
  rw [List.length_flatten, List.map_congr_left hrows, List.map_const', List.sum_replicate,
    smul_eq_mul]

section
variable {inn out : Nat} {scales : List (List UInt32)} {q : List (List Int)}

/-- The packer writes as many bytes as the reader expects. -/
theorem q5Blob_spec (h : Q5Matrix inn out scales q) :
    ∃ packed, q5Blob scales q = some (scaleBytes scales ++ packed) ∧
      (scaleBytes scales).length = 4 * (out * q5Groups inn) ∧
      (scaleBytes scales ++ packed).length = q5MatrixBytes inn out ∧
      byteValue packed = weightValue q.flatten ∧ packed.length = (out * inn * 5 + 7) / 8 := by
  obtain ⟨packed, hpacked, hlen, hvalue⟩ := packSignedQ5_spec q.flatten
  rw [length_flatten_of h.columns, h.rows] at hlen
  have hscales := scaleBytes_length scales
  rw [length_flatten_of h.groups, h.scaleRows] at hscales
  refine ⟨packed, ?_, hscales, ?_, hvalue, hlen⟩
  · rw [q5Blob, hpacked]
    rfl
  · rw [List.length_append, hscales, hlen, q5MatrixBytes, Nat.mul_comm 4]

theorem weightAt_packed (h : Q5Matrix inn out scales q) {packed : Bytes}
    (hvalue : byteValue packed = weightValue q.flatten) {o c : Nat} (ho : o < out) (hc : c < inn) :
    ∃ (ho' : o < q.length) (hc' : c < q[o].length), weightAt packed ((o * inn + c) * 5) = q[o][c] := by
  have ho' : o < q.length := by rw [h.rows]; exact ho
  obtain ⟨hlt, hrow, hget⟩ := getElem_flatten h.columns ho' hc
  obtain ⟨hlo, hhi⟩ := h.weights _ (List.getElem_mem ho') _ (List.getElem_mem hrow)
  refine ⟨ho', hrow, ?_⟩
  rw [weightAt, hvalue, ← q5Sign5_mod, Nat.mul_comm _ 5, weightValue_get hlt, hget,
    q5Sign5_u5 hlo hhi]

theorem u32At_packed (h : Q5Matrix inn out scales q) (packed : Bytes) {o g : Nat} (ho : o < out)
    (hg : g < q5Groups inn) :
    ∃ (ho' : o < scales.length) (hg' : g < scales[o].length),
      u32At (scaleBytes scales ++ packed) (4 * (o * q5Groups inn + g)) = scales[o][g] := by
  have ho' : o < scales.length := by rw [h.scaleRows]; exact ho
  obtain ⟨hlt, hrow, hget⟩ := getElem_flatten h.groups ho' hg
  refine ⟨ho', hrow, ?_⟩
  rw [u32At_scaleBytes hlt, hget]

/-- The weights and the scales as functions. -/
def weightOf (q : List (List Int)) (o c : Nat) : Int := (q.getD o []).getD c 0

def scaleOf (scales : List (List UInt32)) (o g : Nat) : UInt32 := (scales.getD o []).getD g 0

theorem getD_getD_eq {α : Type*} {rows : List (List α)} {o c : Nat} (ho : o < rows.length)
    (hc : c < rows[o].length) (a : α) : (rows.getD o []).getD c a = rows[o][c] := by
  rw [List.getD_eq_getElem rows _ ho, List.getD_eq_getElem _ _ hc]

theorem column_group {inn c : Nat} (hc : c < inn) : c / q5Group < q5Groups inn := by
  unfold q5Group q5Groups q5Group
  omega

/-- Weight, scale and place of every element, and the product on both paths. -/
theorem q5_pack_unpack {K : Type*} [CommRing K] (f32 : UInt32 → K) (h : Q5Matrix inn out scales q) :
    ∃ blob, q5Blob scales q = some blob ∧ blob.length = q5MatrixBytes inn out ∧
      (∀ o < out, ∀ c < inn,
        q5Read5 (blob.drop (4 * (out * q5Groups inn))) ((o * inn + c) * 5) =
          some (weightOf q o c) ∧
        q5Scale f32 blob (o * q5Groups inn + c / q5Group) =
          some (f32 (scaleOf scales o (c / q5Group)))) ∧
      (∀ o < out, ∀ g < q5Groups inn, (o * inn + g * q5Group) * 5 &&& 7 = 0 →
        ∀ j, 8 * j + 8 ≤ groupColumns inn g →
          ∃ w, q5Word ((blob.drop (4 * (out * q5Groups inn))).drop
              (((o * inn + g * q5Group) * 5) >>> 3)) (5 * j) = some w ∧
            ∀ l < 8, q5Lane w l = weightOf q o (g * q5Group + (8 * j + l))) ∧
      (∀ x y : Nat → K, ∃ y', kvlMatvecQ5G128 true f32 y x blob inn out = some y' ∧
        kvlMatvecQ5G128 false f32 y x blob inn out = some y' ∧
        (0 < inn → ∀ o < out, y' o = ∑ g ∈ range (q5Groups inn), f32 (scaleOf scales o g) *
          ∑ i ∈ range (groupColumns inn g),
            (weightOf q o (g * q5Group + i) : K) * x (g * q5Group + i))) ∧
      (∀ anyBlob : Bytes, q5MatrixBytes inn out ≤ anyBlob.length → ∀ x y : Nat → K,
        ∃ y', kvlMatvecQ5G128 true f32 y x anyBlob inn out = some y' ∧
          kvlMatvecQ5G128 false f32 y x anyBlob inn out = some y') := by
  obtain ⟨packed, hblob, hscales, hlen, hvalue, hpacked⟩ := q5Blob_spec h
  have hstream : (scaleBytes scales ++ packed).drop (4 * (out * q5Groups inn)) = packed := by
    rw [← hscales, List.drop_left]
  have hrow : ∀ o < out, o * inn + inn ≤ out * inn := by
    intro o ho
    rw [← Nat.succ_mul]
    exact Nat.mul_le_mul_right inn ho
  have hweight : ∀ o < out, ∀ c < inn, weightAt packed ((o * inn + c) * 5) = weightOf q o c := by
    intro o ho c hc
    obtain ⟨ho', hc', heq⟩ := weightAt_packed h hvalue ho hc
    rw [heq, weightOf, getD_getD_eq ho' hc']
  have hscale : ∀ o < out, ∀ g < q5Groups inn,
      u32At (scaleBytes scales ++ packed) (4 * (o * q5Groups inn + g)) = scaleOf scales o g := by
    intro o ho g hg
    obtain ⟨ho', hg', heq⟩ := u32At_packed h packed ho hg
    rw [heq, scaleOf, getD_getD_eq ho' hg']
  have hany : ∀ anyBlob : Bytes, q5MatrixBytes inn out ≤ anyBlob.length → ∀ x y : Nat → K,
      ∃ y', kvlMatvecQ5G128 true f32 y x anyBlob inn out = some y' ∧
        kvlMatvecQ5G128 false f32 y x anyBlob inn out = some y' := by
    intro anyBlob hany x y
    by_cases hshape : 0 < inn ∧ 0 < out
    · exact ⟨_, kvlMatvecQ5G128_eq true f32 y hshape.1 hshape.2 hany,
        kvlMatvecQ5G128_eq false f32 y hshape.1 hshape.2 hany⟩
    · have hempty : (inn : Int) ≤ 0 ∨ (out : Int) ≤ 0 := by omega
      exact ⟨y, by rw [kvlMatvecQ5G128, if_pos hempty], by rw [kvlMatvecQ5G128, if_pos hempty]⟩
  refine ⟨_, hblob, hlen, ?_, ?_, ?_, hany⟩
  · intro o ho c hc
    have hle := hrow o ho
    have hgroup := column_group hc
    have hlt : o * q5Groups inn + c / q5Group < out * q5Groups inn := by
      have hmul : (o + 1) * q5Groups inn ≤ out * q5Groups inn := Nat.mul_le_mul_right _ ho
      rw [Nat.succ_mul] at hmul
      omega
    refine ⟨?_, ?_⟩
    · rw [hstream, q5Read5_eq (by omega), hweight o ho c hc]
    · rw [q5Scale, if_pos (by rw [List.length_append, hscales]; omega), hscale o ho _ hgroup]
  · intro o ho g hg haligned j hj
    have hle := hrow o ho
    have hcols := groupColumns_le hg
    have hmod : (o * inn + g * q5Group) * 5 % 8 = 0 := by
      rw [← haligned]
      exact (Nat.and_two_pow_sub_one_eq_mod _ 3).symm
    have hbyte : 8 * ((o * inn + g * q5Group) * 5 / 8) = (o * inn + g * q5Group) * 5 := by omega
    rw [hstream, Nat.shiftRight_eq_div_pow, show (2 : Nat) ^ 3 = 8 from rfl]
    refine ⟨_, q5Word_eq (by rw [List.length_drop]; omega), ?_⟩
    intro l hl
    rw [q5Lane_eq hl, weightAt_drop, hbyte, ← hweight o ho _ (by omega)]
    congr 1
    ring
  · intro x y
    by_cases hshape : 0 < inn ∧ 0 < out
    · refine ⟨_, kvlMatvecQ5G128_eq true f32 y hshape.1 hshape.2 hlen.ge,
        kvlMatvecQ5G128_eq false f32 y hshape.1 hshape.2 hlen.ge, ?_⟩
      intro _ o ho
      rw [if_pos ho, rowSum, hstream]
      refine sum_congr rfl fun g hg => ?_
      have hcols := groupColumns_le (mem_range.mp hg)
      rw [hscale o ho g (mem_range.mp hg)]
      congr 1
      refine sum_congr rfl fun i hi => ?_
      rw [hweight o ho _ (by have := mem_range.mp hi; omega)]
    · obtain ⟨y', htrue, hfalse⟩ := hany _ hlen.ge x y
      exact ⟨y', htrue, hfalse, fun hin o ho => absurd ⟨hin, by omega⟩ hshape⟩

/-- One row of three weights. -/
theorem q5_pack_unpack_threeColumns :
    ∃ blob, q5Blob [[5]] [[-16, 15, 7]] = some blob ∧ blob.length = q5MatrixBytes 3 1 ∧
      q5Read5 (blob.drop (4 * (1 * q5Groups 3))) ((0 * 3 + 1) * 5) = some 15 := by
  have h : Q5Matrix 3 1 [[5]] [[-16, 15, 7]] :=
    ⟨rfl, by decide, by decide, rfl, by decide⟩
  obtain ⟨blob, hblob, hlen, hread, -⟩ := q5_pack_unpack (fun s => (s.toNat : Int)) h
  exact ⟨blob, hblob, hlen, (hread 0 (by decide) 1 (by decide)).1⟩

end

end Kvl.Q5

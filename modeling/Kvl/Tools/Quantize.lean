import Kvl.Lib.Rounding
import Kvl.Mla.Q8State
import Kvl.Moe.Q5

/-!
# The three quantisers

The packers and the compressed state scale a row, a group or a token by its largest magnitude and
round to integers. In exact arithmetic no rounding leaves the range, the last clip changes nothing,
and the error of an element is at most half of its scale.
-/

namespace Kvl.Quantize

set_option autoImplicit false

open Rounding Q5

section
variable {K : Type*} [Field K] [LinearOrder K] [FloorRing K]

/-! ### The packers -/

/-- `.clip(-qmax, qmax)`. -/
def clip (qmax : Nat) (v : Int) : Int := min (max v (-qmax)) qmax

/-- The scale of values that share one. -/
def scaleOfMax (qmax : Nat) (maxabs : K) : K := if 0 < maxabs then maxabs / (qmax : K) else 1

/-- The scale and the integers of values that share a scale; `none` where `np.max` has nothing to
reduce. -/
def quantizeBlock (qmax : Nat) (block : List K) : Option (K × List Int) :=
  (block.map fun w => |w|).max?.map fun maxabs =>
    let s := scaleOfMax qmax maxabs
    (s, block.map fun w => clip qmax (halfEven (w / s)))

/-- `quantize_rows`, a row. -/
def quantizeRow (row : List K) : Option (K × List Int) := quantizeBlock 127 row

/-- A signed byte. -/
def int8Byte (v : Int) : UInt8 := UInt8.ofNat (v % 256).toNat

def quantizeRows (f32Bits : K → UInt32) (w : List (List K)) : Option Bytes :=
  (w.mapM quantizeRow).map fun rows =>
    (rows.flatMap fun r => toLE 4 (f32Bits r.1).toNat) ++ rows.flatMap fun r => r.2.map int8Byte

/-- `w[:, a:b]` of one row. -/
def groupBlock (cols : Nat) (row : List K) (g : Nat) : List K :=
  (row.drop (g * q5Group)).take (min cols (g * q5Group + q5Group) - g * q5Group)

/-- `quantize_g128`, a group of a row. -/
def quantizeGroup (cols : Nat) (row : List K) (g : Nat) : Option (K × List Int) :=
  quantizeBlock 15 (groupBlock cols row g)

def quantizeG128Row (cols : Nat) (row : List K) : Option (List K × List Int) :=
  ((List.range (q5Groups cols)).mapM (quantizeGroup cols row)).map fun parts =>
    (parts.map Prod.fst, parts.flatMap Prod.snd)

def quantizeG128 (f32Bits : K → UInt32) (cols : Nat) (w : List (List K)) : Option Bytes :=
  (w.mapM (quantizeG128Row cols)).bind fun rows =>
    q5Blob (rows.map fun r => r.1.map f32Bits) (rows.map Prod.snd)

/-! ### One scale -/

/-- The scale that the values of a block get. -/
def blockScale (qmax : Nat) (block : List K) : K :=
  scaleOfMax qmax ((block.map fun w => |w|).max?.getD 0)

/-- What a quantiser promises of the values `w` that share the scale `s`. -/
structure Quantised (round : K → Int) (qmax : Nat) (w s : K) : Prop where
  range : -(qmax : Int) ≤ round (w / s) ∧ round (w / s) ≤ qmax
  error : |w - (round (w / s) : K) * s| ≤ s / 2
  zero : w = 0 → round (w / s) = 0

variable [IsStrictOrderedRing K]

omit [FloorRing K] in
/-- A rounding to a nearest integer, of a value that its scale covers. -/
theorem quantised_of_near {round : K → Int} (hround : ∀ x, |x - (round x : K)| ≤ 1 / 2)
    (qmax : Nat) {w s : K} (hs : 0 < s) (hw : |w / s| ≤ (qmax : K)) : Quantised round qmax w s := by
  refine ⟨near_le (hround _) hw, near_error hs (hround _), ?_⟩
  rintro rfl
  have hnear := hround (0 / s)
  rw [zero_div] at hnear ⊢
  obtain ⟨hlo, hhi⟩ := near_le (n := 0) hnear (by rw [abs_zero, Nat.cast_zero])
  omega

omit [FloorRing K] in
/-- The scale of a bound of the magnitudes covers them, where it is zero only with them. -/
theorem scaleOfMax_covers (qmax : Nat) (hq : 0 < qmax) {m w : K} (hw : |w| ≤ m) :
    0 < scaleOfMax qmax m ∧ |w / scaleOfMax qmax m| ≤ (qmax : K) := by
  have hqmax : (0 : K) < qmax := by exact_mod_cast hq
  unfold scaleOfMax
  split
  · rename_i hpos
    exact ⟨div_pos hpos hqmax, abs_div_le hpos hq hw⟩
  · rename_i hpos
    have hzero : |w| = 0 := le_antisymm (hw.trans (not_lt.mp hpos)) (abs_nonneg w)
    rw [abs_eq_zero.mp hzero, zero_div, abs_zero]
    exact ⟨one_pos, hqmax.le⟩

theorem quantizeBlock_spec (qmax : Nat) (hq : 0 < qmax) {block : List K} (hblock : block ≠ []) :
    quantizeBlock qmax block =
        some (blockScale qmax block, block.map fun w => halfEven (w / blockScale qmax block)) ∧
      0 < blockScale qmax block ∧
      ∀ w ∈ block, Quantised halfEven qmax w (blockScale qmax block) := by
  have hne : (block.map fun w => |w|) ≠ [] := fun h => hblock (List.map_eq_nil_iff.mp h)
  obtain ⟨m, hm⟩ := Option.ne_none_iff_exists'.mp fun h => hne (List.max?_eq_none_iff.mp h)
  have hmax := (List.max?_eq_some_iff.mp hm).2
  have hscale : blockScale qmax block = scaleOfMax qmax m := by rw [blockScale, hm]; rfl
  have hcovers : ∀ w ∈ block, 0 < scaleOfMax qmax m ∧ |w / scaleOfMax qmax m| ≤ (qmax : K) :=
    fun w hw => scaleOfMax_covers qmax hq (hmax _ (List.mem_map.mpr ⟨w, hw, rfl⟩))
  have hquant : ∀ w ∈ block, Quantised halfEven qmax w (scaleOfMax qmax m) :=
    fun w hw => quantised_of_near halfEven_near qmax (hcovers w hw).1 (hcovers w hw).2
  obtain ⟨first, hfirst⟩ := List.exists_mem_of_ne_nil block hblock
  rw [hscale]
  refine ⟨?_, (hcovers first hfirst).1, hquant⟩
  unfold quantizeBlock
  rw [hm, Option.map_some]
  dsimp only
  congr 2
  apply List.map_congr_left
  intro w hw
  obtain ⟨hlo, hhi⟩ := (hquant w hw).range
  unfold clip
  omega

end

/-! ### Groups of 128 columns -/

section
variable {K : Type*} {cols g : Nat} {row : List K}

theorem groupBlock_length (hrow : row.length = cols) :
    (groupBlock cols row g).length = groupColumns cols g := by
  unfold groupBlock groupColumns q5Group
  rw [List.length_take, List.length_drop, hrow]
  split <;> omega

theorem groupBlock_get {i : Nat} (hi : i < groupColumns cols g) :
    (groupBlock cols row g)[i]? = row[g * q5Group + i]? := by
  unfold groupBlock groupColumns q5Group at *
  rw [List.getElem?_take_of_lt, List.getElem?_drop]
  split at hi <;> omega

theorem groupColumns_full (hg : g + 1 < q5Groups cols) : groupColumns cols g = q5Group := by
  unfold groupColumns q5Groups q5Group at *
  rw [if_pos (by omega)]

/-- A row made of groups, each with its own columns. -/
theorem flatMap_groups_get {α : Type*} {parts : Nat → List α} {i : Nat}
    (hparts : ∀ g < q5Groups cols, (parts g).length = groupColumns cols g)
    (hg : g < q5Groups cols) (hi : i < groupColumns cols g) :
    ((List.range (q5Groups cols)).flatMap parts)[g * q5Group + i]? = (parts g)[i]? := by
  have hbefore : ((List.range g).flatMap parts).length = g * q5Group := by
    rw [List.length_flatMap, List.map_congr_left (g := fun _ => q5Group), List.map_const',
      List.sum_replicate, List.length_range, smul_eq_mul]
    intro j hj
    have hlt := List.mem_range.mp hj
    rw [hparts j (by omega), groupColumns_full (by omega)]
  have hsplit : q5Groups cols = g + (q5Groups cols - g - 1 + 1) := by omega
  have hrange : List.range (q5Groups cols) =
      List.range g ++ g :: (List.range (q5Groups cols - g - 1)).map fun x => g + (x + 1) := by
    conv_lhs => rw [hsplit, List.range_add, List.range_succ_eq_map, List.map_cons, List.map_map]
    rfl
  rw [hrange, List.flatMap_append, List.flatMap_cons,
    List.getElem?_append_right (by rw [hbefore]; exact Nat.le_add_right _ _), hbefore,
    Nat.add_sub_cancel_left, List.getElem?_append_left (by rw [hparts g hg]; exact hi)]

theorem column_split {c : Nat} (hc : c < cols) :
    c % q5Group < groupColumns cols (c / q5Group) ∧ c / q5Group * q5Group + c % q5Group = c := by
  unfold groupColumns q5Group
  split <;> omega

end

section
variable {K : Type*} [Field K] [LinearOrder K] [FloorRing K] {cols : Nat}

/-- The scale of a group of a row, and the integers of the row. -/
def rowScale (cols : Nat) (row : List K) (g : Nat) : K := blockScale 15 (groupBlock cols row g)

def rowInts (cols : Nat) (row : List K) : List Int :=
  (List.range (q5Groups cols)).flatMap fun g =>
    (groupBlock cols row g).map fun w => halfEven (w / rowScale cols row g)

variable [IsStrictOrderedRing K]

theorem quantizeG128Row_eq {row : List K} (hrow : row.length = cols) :
    quantizeG128Row cols row =
      some ((List.range (q5Groups cols)).map (rowScale cols row), rowInts cols row) := by
  unfold quantizeG128Row
  rw [Sums.mapM_some (g := fun g => (rowScale cols row g,
    (groupBlock cols row g).map fun w => halfEven (w / rowScale cols row g))), Option.map_some,
    List.map_map, List.flatMap_map]
  · rfl
  · intro g hg
    have hcols : 0 < groupColumns cols g := by
      have hlt := List.mem_range.mp hg
      unfold groupColumns q5Groups q5Group at *
      split <;> omega
    have hne : groupBlock cols row g ≠ [] := by
      intro h
      have hlen := groupBlock_length (g := g) hrow
      rw [h, List.length_nil] at hlen
      omega
    exact (quantizeBlock_spec 15 (by decide) hne).1

omit [IsStrictOrderedRing K] in
theorem rowInts_length {row : List K} (hrow : row.length = cols) :
    (rowInts cols row).length = cols := by
  have hprefix : ∀ k ≤ q5Groups cols, ((List.range k).flatMap fun g =>
      (groupBlock cols row g).map fun w => halfEven (w / rowScale cols row g)).length =
        min (k * q5Group) cols := by
    intro k hk
    induction k with
    | zero => rw [Nat.zero_mul, Nat.zero_min]; rfl
    | succ k ih =>
      rw [List.range_succ, List.flatMap_append, List.length_append, ih (by omega),
        List.flatMap_singleton, List.length_map, groupBlock_length hrow]
      unfold groupColumns q5Groups q5Group at *
      split <;> omega
  rw [rowInts, hprefix _ le_rfl]
  unfold q5Groups q5Group
  omega

/-- One element of a row. -/
theorem rowInts_spec {row : List K} (hrow : row.length = cols) {c : Nat} (hc : c < cols) :
    0 < rowScale cols row (c / q5Group) ∧
    (rowInts cols row).getD c 0 = halfEven (row.getD c 0 / rowScale cols row (c / q5Group)) ∧
    Quantised halfEven 15 (row.getD c 0) (rowScale cols row (c / q5Group)) := by
  obtain ⟨hi, hpos⟩ := column_split hc
  have hg := column_group hc
  have hcell : (groupBlock cols row (c / q5Group))[c % q5Group]? = some (row.getD c 0) := by
    rw [groupBlock_get hi, hpos, List.getElem?_eq_getElem (by omega),
      List.getD_eq_getElem row _ (by omega)]
  have hmem : row.getD c 0 ∈ groupBlock cols row (c / q5Group) := List.mem_of_getElem? hcell
  obtain ⟨-, hpositive, hquant⟩ := quantizeBlock_spec 15 (by decide)
    (List.ne_nil_of_mem hmem)
  refine ⟨hpositive, ?_, hquant _ hmem⟩
  have hparts : ∀ g < q5Groups cols, ((groupBlock cols row g).map fun w =>
      halfEven (w / rowScale cols row g)).length = groupColumns cols g := by
    intro g _
    rw [List.length_map, groupBlock_length hrow]
  have hget := flatMap_groups_get hparts hg hi
  rw [hpos, List.getElem?_map, hcell] at hget
  rw [List.getD_eq_getElem?_getD, rowInts, hget]
  rfl

omit [FloorRing K] [IsStrictOrderedRing K] in
/-- The scale of a group depends on its own columns. -/
theorem rowScale_congr {row row' : List K} {g : Nat} (hrow : row.length = cols)
    (hrow' : row'.length = cols)
    (h : ∀ i < groupColumns cols g, row[g * q5Group + i]? = row'[g * q5Group + i]?) :
    rowScale cols row g = rowScale cols row' g := by
  unfold rowScale
  congr 1
  apply List.ext_getElem?
  intro i
  by_cases hi : i < groupColumns cols g
  · rw [groupBlock_get hi, groupBlock_get hi, h i hi]
  · rw [List.getElem?_eq_none (by rw [groupBlock_length hrow]; omega),
      List.getElem?_eq_none (by rw [groupBlock_length hrow']; omega)]

theorem quantizeG128_eq (f32Bits : K → UInt32) {w : List (List K)}
    (hw : ∀ row ∈ w, row.length = cols) :
    quantizeG128 f32Bits cols w =
        q5Blob (w.map fun row => (List.range (q5Groups cols)).map fun g =>
          f32Bits (rowScale cols row g)) (w.map (rowInts cols)) ∧
      Q5Matrix cols w.length (w.map fun row => (List.range (q5Groups cols)).map fun g =>
        f32Bits (rowScale cols row g)) (w.map (rowInts cols)) := by
  refine ⟨?_, ?_⟩
  · unfold quantizeG128
    rw [Sums.mapM_some fun row hrow => quantizeG128Row_eq (hw row hrow), Option.bind_some,
      List.map_map, List.map_map]
    congr 1
    apply List.map_congr_left
    intro row _
    rw [Function.comp_apply, List.map_map]
    rfl
  · refine ⟨List.length_map _, ?_, ?_, List.length_map _, ?_⟩
    · intro q hq
      obtain ⟨row, hrow, rfl⟩ := List.mem_map.mp hq
      exact rowInts_length (hw row hrow)
    · intro q hq v hv
      obtain ⟨row, hrow, rfl⟩ := List.mem_map.mp hq
      obtain ⟨c, hc, hget⟩ := List.getElem_of_mem hv
      have hlt : c < cols := by rw [← rowInts_length (hw row hrow)]; exact hc
      obtain ⟨-, hvalue, hquant⟩ := rowInts_spec (hw row hrow) hlt
      rw [List.getD_eq_getElem _ _ hc, hget] at hvalue
      obtain ⟨hlo, hhi⟩ := hquant.range
      rw [hvalue]
      omega
    · intro scales hscales
      obtain ⟨row, -, rfl⟩ := List.mem_map.mp hscales
      rw [List.length_map, List.length_range]

theorem quantizeRows_eq (f32Bits : K → UInt32) {w : List (List K)} (hw : ∀ row ∈ w, row ≠ []) :
    quantizeRows f32Bits w =
      some ((w.flatMap fun row => toLE 4 (f32Bits (blockScale 127 row)).toNat) ++
        w.flatMap fun row => row.map fun x => int8Byte (halfEven (x / blockScale 127 row))) := by
  unfold quantizeRows
  rw [Sums.mapM_some (f := quantizeRow) (g := fun row => (blockScale 127 row,
    row.map fun x => halfEven (x / blockScale 127 row)))
    fun row hrow => (quantizeBlock_spec 127 (by decide) (hw row hrow)).1,
    Option.map_some, List.flatMap_map, List.flatMap_map]
  congr 2
  apply List.flatMap_congr
  intro row _
  rw [List.map_map]
  rfl

end

/-! ### A token of the compressed state -/

/-- A byte as a signed number. -/
def ofInt8Byte (b : UInt8) : Int := if b.toNat < 128 then b.toNat else (b.toNat : Int) - 256

theorem ofInt8Byte_int8Byte {v : Int} (hlo : -128 ≤ v) (hhi : v ≤ 127) :
    ofInt8Byte (int8Byte v) = v := by
  unfold ofInt8Byte int8Byte
  rw [UInt8.toNat_ofNat']
  split <;> omega

section
variable {K D : Type*} [Field K] [LinearOrder K] [FloorRing K] (fl : MlaQ8Floats K D)

/-- The operations of the state are those of the field. -/
structure ExactQ8 : Prop where
  zero : fl.zero = 0
  one : fl.one = 1
  mul : ∀ a b, fl.mul a b = a * b
  div : ∀ a b, fl.div a b = a / b
  neg : ∀ a, fl.neg a = -a
  ofInt : ∀ n : Int, fl.ofInt n = (n : K)
  gt : ∀ a b, fl.gt a b = true ↔ b < a
  isFinite : ∀ a, fl.isFinite a = true
  abs : ∀ a, fl.abs a = |a|
  round : ∀ a, fl.round a = (halfAway a : K)
  toInt8 : ∀ v : Int, -128 ≤ v → v ≤ 127 → fl.toInt8 (v : K) = int8Byte v
  ofInt8F : ∀ b, fl.ofInt8F b = (ofInt8Byte b : K)

variable {fl} [IsStrictOrderedRing K]

theorem latentMax_spec (hfl : ExactQ8 fl) (src : Nat → K) (n : Nat) :
    0 ≤ latentMax fl src n ∧ ∀ i < n, |src i| ≤ latentMax fl src n := by
  unfold latentMax
  induction n with
  | zero => exact ⟨by rw [hfl.zero]; exact le_refl _, fun i hi => absurd hi (Nat.not_lt_zero i)⟩
  | succ n ih =>
    obtain ⟨hnonneg, hle⟩ := ih
    rw [List.range_succ, List.foldl_append]
    simp only [List.foldl_cons, List.foldl_nil, hfl.gt, hfl.abs] at hnonneg hle ⊢
    split
    · rename_i hlt
      refine ⟨abs_nonneg _, fun i hi => ?_⟩
      rcases Nat.lt_succ_iff_lt_or_eq.mp hi with hbefore | rfl
      · exact (hle i hbefore).trans hlt.le
      · exact le_refl _
    · rename_i hle'
      refine ⟨hnonneg, fun i hi => ?_⟩
      rcases Nat.lt_succ_iff_lt_or_eq.mp hi with hbefore | rfl
      · exact hle i hbefore
      · exact not_lt.mp hle'

/-- Inside of the range neither comparison clips. -/
theorem quantValue_eq (hfl : ExactQ8 fl) {s v : K} (hrange : -(127 : Nat) ≤ halfAway (v / s) ∧
    halfAway (v / s) ≤ (127 : Nat)) : quantValue fl s v = int8Byte (halfAway (v / s)) := by
  have hlo : ¬ (halfAway (v / s) : K) < -((127 : Int) : K) := by
    rw [not_lt]
    exact_mod_cast hrange.1
  have hhi : ¬ ((127 : Int) : K) < (halfAway (v / s) : K) := by
    rw [not_lt]
    exact_mod_cast hrange.2
  unfold quantValue
  simp only [hfl.div, hfl.one, hfl.mul, hfl.round, hfl.ofInt, hfl.neg, hfl.gt, one_div,
    ← div_eq_mul_inv, if_neg hhi, if_neg hlo]
  exact hfl.toInt8 _ (by omega) (by omega)

theorem quantizeLatentToken_spec (hfl : ExactQ8 fl) (src : Nat → K) (n : Nat) :
    0 < (quantizeLatentToken fl src n).2 ∧ ∀ i < n,
      fl.ofInt8F ((quantizeLatentToken fl src n).1 i) =
        (halfAway (src i / (quantizeLatentToken fl src n).2) : K) ∧
      Quantised halfAway 127 (src i) (quantizeLatentToken fl src n).2 := by
  obtain ⟨-, hle⟩ := latentMax_spec hfl src n
  have hscale : (quantizeLatentToken fl src n).2 = scaleOfMax 127 (latentMax fl src n) := by
    unfold quantizeLatentToken scaleOfMax quantScale
    simp only [hfl.gt, hfl.isFinite, hfl.zero, hfl.one, hfl.div, hfl.ofInt, not_true, or_false]
    split
    · rfl
    · rename_i hpos
      rw [if_pos (not_not.mp hpos)]
      norm_num
  have hquant : ∀ i < n, 0 < scaleOfMax 127 (latentMax fl src n) ∧
      Quantised halfAway 127 (src i) (scaleOfMax 127 (latentMax fl src n)) := by
    intro i hi
    obtain ⟨hpos, hcover⟩ := scaleOfMax_covers 127 (by decide) (hle i hi)
    exact ⟨hpos, quantised_of_near halfAway_near 127 hpos hcover⟩
  rw [hscale]
  refine ⟨?_, fun i hi => ⟨?_, (hquant i hi).2⟩⟩
  · exact (scaleOfMax_covers 127 (by decide) (w := 0) (by rw [abs_zero]; exact (latentMax_spec hfl src n).1)).1
  · have hrange := (hquant i hi).2.range
    rw [hfl.ofInt8F]
    congr 1
    rw [← ofInt8Byte_int8Byte (v := halfAway (src i / scaleOfMax 127 (latentMax fl src n)))
      (by omega) (by omega)]
    congr 1
    rw [← hscale] at hrange ⊢
    unfold quantizeLatentToken at hrange ⊢
    simp only [hfl.gt, hfl.isFinite, hfl.zero, not_true, or_false] at hrange ⊢
    split
    · rename_i hpos
      have hzero : src i = 0 :=
        abs_eq_zero.mp (le_antisymm ((hle i hi).trans (not_lt.mp hpos)) (abs_nonneg _))
      have hround : halfAway (src i / fl.one) = 0 := by
        rw [hfl.one]
        exact (quantised_of_near halfAway_near 0 one_pos
          (by rw [hzero, zero_div, abs_zero, Nat.cast_zero])).zero hzero
      rw [hround]
      rfl
    · rename_i hpos
      rw [if_neg hpos] at hrange
      exact quantValue_eq hfl hrange

end

/-! ### All three -/

/-- Each quantiser rounds every element to an integer of its range with an error of at most half of
the stored scale, clips nothing and keeps zeros; and the scale of a group is that of its own
columns. -/
theorem quantisers_bound {K D : Type*} [Field K] [LinearOrder K] [FloorRing K]
    [IsStrictOrderedRing K] {fl : MlaQ8Floats K D} (hfl : ExactQ8 fl) :
    (∀ (f32Bits : K → UInt32) (w : List (List K)), (∀ row ∈ w, row ≠ []) →
      quantizeRows f32Bits w =
        some ((w.flatMap fun row => toLE 4 (f32Bits (blockScale 127 row)).toNat) ++
          w.flatMap fun row => row.map fun x => int8Byte (halfEven (x / blockScale 127 row))) ∧
      ∀ row ∈ w, 0 < blockScale 127 row ∧
        ∀ x ∈ row, Quantised halfEven 127 x (blockScale 127 row)) ∧
    (∀ (f32Bits : K → UInt32) (cols : Nat) (w : List (List K)), (∀ row ∈ w, row.length = cols) →
      (∃ blob, quantizeG128 f32Bits cols w = some blob ∧
        q5Blob (w.map fun row => (List.range (q5Groups cols)).map fun g =>
          f32Bits (rowScale cols row g)) (w.map (rowInts cols)) = some blob) ∧
      (∀ row ∈ w, (rowInts cols row).length = cols ∧ ∀ c < cols,
        0 < rowScale cols row (c / q5Group) ∧
        (rowInts cols row).getD c 0 = halfEven (row.getD c 0 / rowScale cols row (c / q5Group)) ∧
        Quantised halfEven 15 (row.getD c 0) (rowScale cols row (c / q5Group))) ∧
      ∀ row ∈ w, ∀ row' : List K, row'.length = cols → ∀ g,
        (∀ i < groupColumns cols g, row[g * q5Group + i]? = row'[g * q5Group + i]?) →
          rowScale cols row g = rowScale cols row' g) ∧
    (∀ (src : Nat → K) (n : Nat), 0 < (quantizeLatentToken fl src n).2 ∧ ∀ i < n,
      fl.ofInt8F ((quantizeLatentToken fl src n).1 i) =
        (halfAway (src i / (quantizeLatentToken fl src n).2) : K) ∧
      Quantised halfAway 127 (src i) (quantizeLatentToken fl src n).2) := by
  refine ⟨?_, ?_, quantizeLatentToken_spec hfl⟩
  · intro f32Bits w hw
    refine ⟨quantizeRows_eq f32Bits hw, fun row hrow => ?_⟩
    obtain ⟨-, hpos, hquant⟩ := quantizeBlock_spec 127 (by decide) (hw row hrow)
    exact ⟨hpos, hquant⟩
  · intro f32Bits cols w hw
    obtain ⟨heq, hmatrix⟩ := quantizeG128_eq f32Bits hw
    obtain ⟨packed, hblob, -⟩ := q5Blob_spec hmatrix
    refine ⟨⟨_, heq.trans hblob, hblob⟩, ?_, ?_⟩
    · intro row hrow
      exact ⟨rowInts_length (hw row hrow), fun c hc => rowInts_spec (hw row hrow) hc⟩
    · intro row hrow row' hrow' g hcols
      exact rowScale_congr (hw row hrow) hrow' hcols

/-- The operations on the rationals; those that no quantiser uses are placeholders. -/
def ratQ8Floats : MlaQ8Floats ℚ ℚ where
  zero := 0
  one := 1
  negInf := 0
  add a b := a + b
  mul a b := a * b
  div a b := a / b
  neg a := -a
  exp a := a
  gt a b := decide (b < a)
  eq a b := decide (a = b)
  isFinite _ := true
  widen a := a
  narrow a := a
  addD a b := a + b
  mulD a b := a * b
  zeroD := 0
  tinyD := 0
  f16BitsToF32 b := b.toNat
  bf16ToF32 b := b.toNat
  ofInt8 b := ofInt8Byte b
  sub a b := a - b
  sqrt a := a
  ofInt n := n
  divD a b := a / b
  rmsnorm xs _ _ i := xs.getD i 0
  rope xs _ _ i := xs.getD i 0
  abs a := |a|
  round a := halfAway a
  toInt8 a := int8Byte ⌊a⌋
  ofInt8F b := ofInt8Byte b
  bits _ := 0

theorem quantisers_bound_rat :
    (halfEven ((3 : ℚ) / blockScale 127 [3, -4]) : ℚ) = 95 ∧
      Quantised halfEven 127 3 (blockScale 127 [(3 : ℚ), -4]) := by
  have hfl : ExactQ8 ratQ8Floats :=
    ⟨rfl, rfl, fun _ _ => rfl, fun _ _ => rfl, fun _ => rfl, fun _ => rfl,
      fun _ _ => decide_eq_true_iff, fun _ => rfl, fun _ => rfl, fun _ => rfl,
      fun v _ _ => congrArg int8Byte (Int.floor_intCast v), fun _ => rfl⟩
  have hrows := ((quantisers_bound hfl).1 (fun _ => 0) [[(3 : ℚ), -4]] (by decide)).2 _
    List.mem_cons_self
  exact ⟨by decide +kernel, hrows.2 3 List.mem_cons_self⟩

end Kvl.Quantize

import Mathlib
import Kvl.Lib.Rounding
import Kvl.Lib.Sums

/-!
# Position embeddings of the vision tower

`kvl_vision_forward` adds to every patch the embedding of its place in the grid. Where the
stored grid has the size of the patch grid the embedding is copied, and elsewhere it is
interpolated from four rows and four columns with clamped borders. The arithmetic is that
of an ordered field with a floor.
-/

namespace Kvl.Vision

set_option autoImplicit false

variable {K : Type*} [Field K] [LinearOrder K]

/-- `VD`. -/
def visionDim : Int := 1152

/-! ### The interpolation -/

section
-- the numerals of the weights
local instance two_atLeastTwo : Nat.AtLeastTwo 2 := inferInstance
local instance three_atLeastTwo : Nat.AtLeastTwo 3 := inferInstance
local instance four_atLeastTwo : Nat.AtLeastTwo 4 := inferInstance
local instance five_atLeastTwo : Nat.AtLeastTwo 5 := inferInstance
local instance eight_atLeastTwo : Nat.AtLeastTwo 8 := inferInstance

def cubicWeight (x : K) : K :=
  let a : K := -3 / 4
  let x := |x|
  if x ≤ 1 then ((a + 2) * x - (a + 3)) * x * x + 1
  else if x < 2 then ((a * x - 5 * a) * x + 8 * a) * x - 4 * a
  else 0

def clampi (x lo hi : Int) : Int := if x < lo then lo else if x > hi then hi else x

/-- The coordinate in the stored grid of a place of the target grid. -/
def halfPixel (place stored target : Int) : K :=
  ((place : K) + 1 / 2) * (stored : K) / (target : K) - 1 / 2

end

/-- One read of the stored embeddings, `none` outside of them. -/
def readCell (src : List UInt16) (i : Int) : Option UInt16 :=
  if 0 ≤ i then src[i.toNat]? else none

section
variable [FloorRing K]

/-- The line a tap reads along one axis, and its weight. -/
def axisTap (stored : Int) (s : K) (k : Int) : Int × K :=
  (clampi (⌊s⌋ + k) 0 (stored - 1), cubicWeight (s - ((⌊s⌋ + k : Int) : K)))

def axisTaps (stored : Int) (s : K) : List (Int × K) := [-1, 0, 1, 2].map (axisTap stored s)

/-- The inner loop, over the columns. -/
def interpRow (bf16ToF32 : UInt16 → K) (src : List UInt16) (inW : Int) (sx : K) (d iy : Int)
    (wy acc : K) : Option K :=
  (axisTaps inW sx).foldlM (fun acc tap =>
    (readCell src ((iy * inW + tap.1) * visionDim + d)).map fun v =>
      acc + wy * tap.2 * bf16ToF32 v) acc

def interpPos (bf16ToF32 : UInt16 → K) (src : List UInt16) (inH inW outH outW oh ow d : Int) :
    Option K :=
  (axisTaps inH (halfPixel oh inH outH : K)).foldlM (fun acc tap =>
    interpRow bf16ToF32 src inW (halfPixel ow inW outW) d tap.1 tap.2 acc) 0

/-- The direct copy of `kvl_vision_forward`. -/
def copyPos (bf16ToF32 : UInt16 → K) (src : List UInt16) (t d : Int) : Option K :=
  (readCell src (t * visionDim + d)).map bf16ToF32

/-- What `kvl_vision_forward` adds to channel `d` of patch `t`. -/
def positionOf (bf16ToF32 : UInt16 → K) (src : List UInt16) (ph pwid gh gw t d : Int) : Option K :=
  if gh = ph ∧ gw = pwid then copyPos bf16ToF32 src t d
  else interpPos bf16ToF32 src ph pwid gh gw (t / gw) (t % gw) d

end

/-! ### The weights of one axis -/

section
variable [IsStrictOrderedRing K]

theorem cubicWeight_near {x : K} (h : |x| ≤ 1) :
    cubicWeight x = (5 / 4 * |x| - 9 / 4) * |x| * |x| + 1 := by
  unfold cubicWeight
  rw [if_pos h]
  ring

theorem cubicWeight_far {x : K} (hlo : 1 ≤ |x|) (hhi : |x| ≤ 2) :
    cubicWeight x = ((-3 / 4 * |x| + 15 / 4) * |x| - 6) * |x| + 3 := by
  unfold cubicWeight
  dsimp only
  -- the two branches agree at 1, and the second vanishes at 2
  rcases hlo.eq_or_lt with heq | hlt
  · rw [← heq, if_pos le_rfl]
    norm_num
  · rw [if_neg (not_le.mpr hlt)]
    rcases hhi.eq_or_lt with heq | hlt'
    · rw [heq, if_neg (lt_irrefl _)]
      norm_num
    · rw [if_pos hlt']
      ring

/-- The four weights of a phase. -/
theorem cubicWeight_sum {t : K} (hlo : 0 ≤ t) (hhi : t ≤ 1) :
    cubicWeight (t + 1) + cubicWeight t + cubicWeight (t - 1) + cubicWeight (t - 2) = 1 := by
  have h0 : |t + 1| = t + 1 := abs_of_nonneg (by linarith)
  have h1 : |t| = t := abs_of_nonneg hlo
  have h2 : |t - 1| = 1 - t := by rw [abs_of_nonpos (by linarith)]; ring
  have h3 : |t - 2| = 2 - t := by rw [abs_of_nonpos (by linarith)]; ring
  rw [cubicWeight_far (by rw [h0]; linarith) (by rw [h0]; linarith),
    cubicWeight_near (by rw [h1]; exact hhi), cubicWeight_near (by rw [h2]; linarith),
    cubicWeight_far (by rw [h3]; linarith) (by rw [h3]; linarith), h0, h1, h2, h3]
  ring

variable [FloorRing K]

theorem axisTaps_weights_sum (stored : Int) (s : K) :
    ((axisTaps stored s).map Prod.snd).sum = 1 := by
  have hlo : 0 ≤ s - (⌊s⌋ : K) := sub_nonneg.mpr (Int.floor_le s)
  have hhi : s - (⌊s⌋ : K) ≤ 1 := by linarith [Int.lt_floor_add_one s]
  have hsum := cubicWeight_sum hlo hhi
  simp only [axisTaps, axisTap, List.map_cons, List.map_nil, List.sum_cons, List.sum_nil]
  rw [← hsum, show s - ((⌊s⌋ + -1 : Int) : K) = s - (⌊s⌋ : K) + 1 by push_cast; ring,
    show s - ((⌊s⌋ + 0 : Int) : K) = s - (⌊s⌋ : K) by push_cast; ring,
    show s - ((⌊s⌋ + 1 : Int) : K) = s - (⌊s⌋ : K) - 1 by push_cast; ring,
    show s - ((⌊s⌋ + 2 : Int) : K) = s - (⌊s⌋ : K) - 2 by push_cast; ring]
  ring

theorem clampi_mem {x stored : Int} (h : 1 ≤ stored) :
    0 ≤ clampi x 0 (stored - 1) ∧ clampi x 0 (stored - 1) < stored := by
  unfold clampi
  split_ifs <;> omega

omit [IsStrictOrderedRing K] in
theorem axisTaps_inside {stored : Int} (h : 1 ≤ stored) (s : K) :
    ∀ tap ∈ axisTaps stored s, 0 ≤ tap.1 ∧ tap.1 < stored := by
  intro tap htap
  obtain ⟨k, -, rfl⟩ := List.mem_map.mp htap
  exact clampi_mem h

theorem halfPixel_same {place stored : Int} (h : 1 ≤ stored) :
    (halfPixel place stored stored : K) = (place : K) := by
  have hne : (stored : K) ≠ 0 := by
    have : (0 : K) < (stored : K) := by exact_mod_cast (by omega : (0 : Int) < stored)
    exact this.ne'
  unfold halfPixel
  field_simp
  ring

/-- At a place of the stored grid the only tap with a weight is that place. -/
theorem axisTaps_place {place stored : Int} (hlo : 0 ≤ place) (hhi : place < stored) :
    axisTaps stored (place : K) = [(clampi (place - 1) 0 (stored - 1), 0), (place, 1),
      (clampi (place + 1) 0 (stored - 1), 0), (clampi (place + 2) 0 (stored - 1), 0)] := by
  have hplace : clampi place 0 (stored - 1) = place := by
    unfold clampi
    split_ifs <;> omega
  have hweight : ∀ k : Int, cubicWeight ((place : K) - ((place + k : Int) : K)) =
      cubicWeight (-(k : K)) := by
    intro k
    congr 1
    push_cast
    ring
  simp only [axisTaps, axisTap, List.map_cons, List.map_nil, Int.floor_intCast, hweight]
  rw [add_zero, hplace, ← Int.sub_eq_add_neg]
  norm_num [cubicWeight]

end

/-! ### What the loops add up -/

section
variable {src : List UInt16} {inH inW d : Int}

/-- The embeddings of a grid are stored row by row, `VD` numbers for a place. -/
structure StoredGrid (src : List UInt16) (inH inW : Int) : Prop where
  height : 1 ≤ inH
  width : 1 ≤ inW
  length : (src.length : Int) = inH * inW * visionDim

theorem StoredGrid.index_bounds (h : StoredGrid src inH inW) {iy ix : Int} (hd : 0 ≤ d)
    (hd' : d < visionDim) (hy : 0 ≤ iy) (hy' : iy < inH) (hx : 0 ≤ ix) (hx' : ix < inW) :
    0 ≤ (iy * inW + ix) * visionDim + d ∧ (iy * inW + ix) * visionDim + d < src.length := by
  have hrow : iy * inW + ix + 1 ≤ inH * inW := by nlinarith
  have hplace : 0 ≤ iy * inW + ix := by nlinarith
  rw [h.length]
  unfold visionDim at *
  constructor <;> nlinarith

variable {K : Type*}

/-- The stored value of channel `d` at a place. -/
def cellAt (bf16ToF32 : UInt16 → K) (src : List UInt16) (inW d iy ix : Int) : K :=
  bf16ToF32 (src.getD ((iy * inW + ix) * visionDim + d).toNat 0)

theorem StoredGrid.readCell_eq (bf16ToF32 : UInt16 → K) (h : StoredGrid src inH inW) {iy ix : Int} (hd : 0 ≤ d)
    (hd' : d < visionDim) (hy : 0 ≤ iy) (hy' : iy < inH) (hx : 0 ≤ ix) (hx' : ix < inW) :
    (readCell src ((iy * inW + ix) * visionDim + d)).map bf16ToF32 =
      some (cellAt bf16ToF32 src inW d iy ix) := by
  obtain ⟨hlo, hhi⟩ := h.index_bounds hd hd' hy hy' hx hx'
  have hlt : ((iy * inW + ix) * visionDim + d).toNat < src.length := by omega
  rw [readCell, if_pos hlo, cellAt, List.getD_eq_getElem?_getD, List.getElem?_eq_getElem hlt]
  rfl

end

section
variable [FloorRing K]
variable {bf16ToF32 : UInt16 → K} {src : List UInt16} {inH inW d : Int}

theorem interpRow_eq (h : StoredGrid src inH inW) {iy : Int} (hd : 0 ≤ d) (hd' : d < visionDim)
    (hy : 0 ≤ iy) (hy' : iy < inH) (sx wy acc : K) :
    interpRow bf16ToF32 src inW sx d iy wy acc = some (acc + ((axisTaps inW sx).map fun tap =>
      wy * tap.2 * cellAt bf16ToF32 src inW d iy tap.1).sum) := by
  unfold interpRow
  apply Sums.foldlM_add
  intro tap htap acc
  obtain ⟨hx, hx'⟩ := axisTaps_inside h.width sx tap htap
  obtain ⟨v, hv, hcell⟩ := Option.map_eq_some_iff.mp
    (h.readCell_eq bf16ToF32 hd hd' hy hy' hx hx')
  rw [hv, ← hcell]
  rfl

theorem interpPos_eq (h : StoredGrid src inH inW) (outH outW oh ow : Int) (hd : 0 ≤ d)
    (hd' : d < visionDim) :
    interpPos bf16ToF32 src inH inW outH outW oh ow d =
      some ((axisTaps inH (halfPixel oh inH outH : K)).map fun tapY =>
        ((axisTaps inW (halfPixel ow inW outW : K)).map fun tapX =>
          tapY.2 * tapX.2 * cellAt bf16ToF32 src inW d tapY.1 tapX.1).sum).sum := by
  unfold interpPos
  rw [Sums.foldlM_add (g := fun tapY : Int × K =>
    ((axisTaps inW (halfPixel ow inW outW : K)).map fun tapX =>
      tapY.2 * tapX.2 * cellAt bf16ToF32 src inW d tapY.1 tapX.1).sum), zero_add]
  intro tapY htap acc
  obtain ⟨hy, hy'⟩ := axisTaps_inside h.height _ tapY htap
  exact interpRow_eq h hd hd' hy hy' _ _ _

variable [IsStrictOrderedRing K]

/-- A stored value that is the same everywhere comes out unchanged. -/
theorem interpPos_const (h : StoredGrid src inH inW) (outH outW oh ow : Int) (hd : 0 ≤ d)
    (hd' : d < visionDim) {c : K} (hc : ∀ iy ix : Int, 0 ≤ iy → iy < inH → 0 ≤ ix → ix < inW →
      cellAt bf16ToF32 src inW d iy ix = c) :
    interpPos bf16ToF32 src inH inW outH outW oh ow d = some c := by
  rw [interpPos_eq h outH outW oh ow hd hd']
  have hrow : ∀ tapY ∈ axisTaps inH (halfPixel oh inH outH : K),
      ((axisTaps inW (halfPixel ow inW outW : K)).map fun tapX =>
        tapY.2 * tapX.2 * cellAt bf16ToF32 src inW d tapY.1 tapX.1).sum = tapY.2 * c := by
    intro tapY hY
    obtain ⟨hy, hy'⟩ := axisTaps_inside h.height _ tapY hY
    have hcells : ((axisTaps inW (halfPixel ow inW outW : K)).map fun tapX =>
        tapY.2 * tapX.2 * cellAt bf16ToF32 src inW d tapY.1 tapX.1) =
        ((axisTaps inW (halfPixel ow inW outW : K)).map Prod.snd).map fun w =>
          tapY.2 * c * w := by
      rw [List.map_map]
      refine List.map_congr_left fun tapX hX => ?_
      obtain ⟨hx, hx'⟩ := axisTaps_inside h.width _ tapX hX
      rw [hc _ _ hy hy' hx hx', Function.comp_apply]
      ring
    rw [hcells, List.sum_map_mul_left, List.map_id', axisTaps_weights_sum, mul_one]
  rw [List.map_congr_left hrow, List.sum_map_mul_right, axisTaps_weights_sum, one_mul]

theorem interpPos_place (h : StoredGrid src inH inW) {oh ow : Int} (hd : 0 ≤ d)
    (hd' : d < visionDim) (hy : 0 ≤ oh) (hy' : oh < inH) (hx : 0 ≤ ow) (hx' : ow < inW) :
    interpPos bf16ToF32 src inH inW inH inW oh ow d =
      some (cellAt bf16ToF32 src inW d oh ow) := by
  rw [interpPos_eq h inH inW oh ow hd hd', halfPixel_same h.height, halfPixel_same h.width,
    axisTaps_place hy hy', axisTaps_place hx hx']
  simp

/-- The weights of both axes sum to one, all sixteen reads are inside of the stored grid, a
constant grid is preserved, and on a grid of its own size the interpolation is the copy. -/
theorem interpPos_consistent (bf16ToF32 : UInt16 → K) (h : StoredGrid src inH inW)
    (outH outW oh ow : Int)    (hy : 0 ≤ oh) (hy' : oh < outH) (hx : 0 ≤ ow) (hx' : ow < outW) (hd : 0 ≤ d)
    (hd' : d < visionDim) :
    ((axisTaps inH (halfPixel oh inH outH : K)).map Prod.snd).sum = 1 ∧
    ((axisTaps inW (halfPixel ow inW outW : K)).map Prod.snd).sum = 1 ∧
    (axisTaps inH (halfPixel oh inH outH : K)).length = 4 ∧
    (axisTaps inW (halfPixel ow inW outW : K)).length = 4 ∧
    (∀ tapY ∈ axisTaps inH (halfPixel oh inH outH : K),
      ∀ tapX ∈ axisTaps inW (halfPixel ow inW outW : K),
        (0 ≤ tapY.1 ∧ tapY.1 < inH) ∧ (0 ≤ tapX.1 ∧ tapX.1 < inW)) ∧
    interpPos bf16ToF32 src inH inW outH outW oh ow d =
      some ((axisTaps inH (halfPixel oh inH outH : K)).map fun tapY =>
        ((axisTaps inW (halfPixel ow inW outW : K)).map fun tapX =>
          tapY.2 * tapX.2 * cellAt bf16ToF32 src inW d tapY.1 tapX.1).sum).sum ∧
    (∀ c : K, (∀ iy ix : Int, 0 ≤ iy → iy < inH → 0 ≤ ix → ix < inW →
        cellAt bf16ToF32 src inW d iy ix = c) →
      interpPos bf16ToF32 src inH inW outH outW oh ow d = some c) ∧
    (outH = inH → outW = inW → interpPos bf16ToF32 src inH inW outH outW oh ow d =
      positionOf bf16ToF32 src inH inW outH outW (oh * outW + ow) d) := by
  refine ⟨axisTaps_weights_sum _ _, axisTaps_weights_sum _ _, rfl, rfl, ?_,
    interpPos_eq h outH outW oh ow hd hd', ?_, ?_⟩
  · intro tapY hY tapX hX
    exact ⟨axisTaps_inside h.height _ tapY hY, axisTaps_inside h.width _ tapX hX⟩
  · intro c hc
    exact interpPos_const h outH outW oh ow hd hd' hc
  · rintro rfl rfl
    rw [interpPos_place h hd hd' hy hy' hx hx', positionOf, if_pos ⟨rfl, rfl⟩, copyPos,
      h.readCell_eq bf16ToF32 hd hd' hy hy' hx hx']

/-- A stored grid of one place, for a patch grid of two rows. -/
theorem interpPos_consistent_onePlace :
    interpPos (fun v => (v.toNat : ℚ)) (List.replicate 1152 5) 1 1 2 2 1 0 7 = some 5 := by
  have hgrid : StoredGrid (List.replicate 1152 (5 : UInt16)) 1 1 :=
    ⟨le_rfl, le_rfl, by rw [List.length_replicate]; rfl⟩
  have hcell : ∀ iy ix : Int, 0 ≤ iy → iy < 1 → 0 ≤ ix → ix < 1 →
      cellAt (fun v => (v.toNat : ℚ)) (List.replicate 1152 5) 1 7 iy ix = 5 := by
    intro iy ix hy hy' hx hx'
    obtain rfl : iy = 0 := by omega
    obtain rfl : ix = 0 := by omega
    rfl
  exact (interpPos_consistent (fun v => (v.toNat : ℚ)) hgrid 2 2 1 0 (by decide) (by decide) (by decide) (by decide) (by decide)
    (by decide)).2.2.2.2.2.2.1 5 hcell

end

end Kvl.Vision

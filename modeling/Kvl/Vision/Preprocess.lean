import Mathlib

/-!
# Preprocessing an image

`preprocess_image` scales an image down to a limit of patches, cuts or pads it to whole patches
and lays the patches out one after another. The square root and the scaled sizes are those of the
real numbers.
-/

namespace Kvl.Vision

set_option autoImplicit false

structure Image (K : Type*) where
  width : Nat
  height : Nat
  /-- Row, column, channel. -/
  pixel : Nat → Nat → Nat → K

/-- What `preprocessor_config.json` says; the kernel is `(height, width)`. -/
structure Preprocessor (K : Type*) where
  patch : Nat
  limit : Nat
  padInput : Bool
  merge : Nat × Nat
  mean : Nat → K
  std : Nat → K

/-- `Image.resize` gives the pixels of an image of the size that is asked for. -/
abbrev Resample (K : Type*) := Image K → Nat → Nat → Nat → Nat → Nat → K

/-- `int(side * math.sqrt(limit / coarse))` -/
noncomputable def scaledSide (side limit coarse : Nat) : Nat :=
  ⌊(side : ℝ) * Real.sqrt ((limit : ℝ) / (coarse : ℝ))⌋₊

section
variable {K : Type*} [Field K]

/-- The coarse grid, and the image that is scaled to it. An image of no size cannot be made. -/
noncomputable def scaleImage (c : Preprocessor K) (resample : Resample K) (image : Image K) :
    Option (Image K) :=
  let coarse := image.width / c.patch * (image.height / c.patch)
  if c.limit < coarse then
    let w := scaledSide image.width c.limit coarse
    let h := scaledSide image.height c.limit coarse
    if w = 0 ∨ h = 0 then none else some ⟨w, h, resample image w h⟩
  else some image

/-- `ImageOps.expand` at the right and the lower border. -/
def padImage (c : Preprocessor K) (image : Image K) : Image K :=
  let quantumH := c.merge.1 * c.patch
  let quantumW := c.merge.2 * c.patch
  let padH := (quantumH - image.height % quantumH) % quantumH
  let padW := (quantumW - image.width % quantumW) % quantumW
  ⟨image.width + padW, image.height + padH, fun y x ch =>
    if y < image.height ∧ x < image.width then image.pixel y x ch else 0⟩

/-- The middle of the image in whole patches. -/
def cropImage (c : Preprocessor K) (image : Image K) : Option (Image K) :=
  let newW := image.width - image.width % c.patch
  let newH := image.height - image.height % c.patch
  if newW = 0 ∨ newH = 0 then none
  else
    let left := (image.width - newW) / 2
    let top := (image.height - newH) / 2
    some ⟨newW, newH, fun y x => image.pixel (y + top) (x + left)⟩

/-- A patch, channel by channel. -/
def patchRow (c : Preprocessor K) (image : Image K) (r col : Nat) : List K :=
  (List.range 3).flatMap fun ch => (List.range c.patch).flatMap fun y =>
    (List.range c.patch).map fun x =>
      (image.pixel (r * c.patch + y) (col * c.patch + x) ch / 255 - c.mean ch) / c.std ch

/-- `preprocess_image`: the patches and their grid, `none` where it raises. A size of zero raises
at the first division by it. -/
noncomputable def preprocessImage (c : Preprocessor K) (resample : Resample K) (image : Image K) :
    Option (List (List K) × Nat × Nat) :=
  if c.patch = 0 then none
  else (scaleImage c resample image).bind fun scaled =>
    if c.padInput ∧ (c.merge.1 = 0 ∨ c.merge.2 = 0) then none
    else (if c.padInput then some (padImage c scaled) else cropImage c scaled).bind fun fitted =>
      let gh := fitted.height / c.patch
      let gw := fitted.width / c.patch
      if 512 ≤ gh ∨ 512 ≤ gw then none
      else if c.merge.1 = 0 ∨ c.merge.2 = 0 then none
      else if gh % c.merge.1 ≠ 0 ∨ gw % c.merge.2 ≠ 0 then none
      else some ((List.range gh).flatMap fun r => (List.range gw).map fun col =>
        patchRow c fitted r col, gh, gw)

end

/-! ### The scaled sizes -/

theorem floor_sqrt {x : ℝ} (hx : 0 ≤ x) : ⌊Real.sqrt x⌋₊ = Nat.sqrt ⌊x⌋₊ := by
  refine eq_of_forall_le_iff fun k => ?_
  rw [Nat.le_floor_iff (Real.sqrt_nonneg x), Nat.le_sqrt', Nat.le_floor_iff hx,
    Real.le_sqrt (Nat.cast_nonneg k) hx, Nat.cast_pow]

/-- The scaled size without real numbers. -/
theorem scaledSide_eq (side limit coarse : Nat) :
    scaledSide side limit coarse = Nat.sqrt (side ^ 2 * limit / coarse) := by
  have hside : (side : ℝ) = Real.sqrt ((side : ℝ) ^ 2) := (Real.sqrt_sq (Nat.cast_nonneg side)).symm
  have hcast : (side : ℝ) ^ 2 * ((limit : ℝ) / (coarse : ℝ)) =
      ((side ^ 2 * limit : Nat) : ℝ) / (coarse : ℝ) := by
    rw [Nat.cast_mul, Nat.cast_pow, mul_div_assoc]
  have hnonneg : (0 : ℝ) ≤ ((side ^ 2 * limit : Nat) : ℝ) / (coarse : ℝ) :=
    div_nonneg (Nat.cast_nonneg _) (Nat.cast_nonneg _)
  rw [scaledSide, hside, ← Real.sqrt_mul (sq_nonneg _), hcast, floor_sqrt hnonneg,
    Nat.floor_div_eq_div]

theorem scaledSide_sq_le (side limit coarse : Nat) :
    scaledSide side limit coarse ^ 2 * coarse ≤ side ^ 2 * limit := by
  rw [scaledSide_eq]
  exact (Nat.mul_le_mul_right coarse (Nat.sqrt_le' _)).trans (Nat.div_mul_le_self _ _)

/-- Scaling keeps the proportion of the areas. -/
theorem scaled_area_le (w h limit coarse : Nat) :
    scaledSide w limit coarse * scaledSide h limit coarse * coarse ≤ limit * (w * h) := by
  rw [← Nat.pow_le_pow_iff_left (by decide : 2 ≠ 0)]
  calc (scaledSide w limit coarse * scaledSide h limit coarse * coarse) ^ 2
      = (scaledSide w limit coarse ^ 2 * coarse) * (scaledSide h limit coarse ^ 2 * coarse) := by ring
    _ ≤ (w ^ 2 * limit) * (h ^ 2 * limit) :=
      Nat.mul_le_mul (scaledSide_sq_le w limit coarse) (scaledSide_sq_le h limit coarse)
    _ = (limit * (w * h)) ^ 2 := by ring

/-- A bound on an area, for the patches that are whole in it. -/
theorem whole_area_le {n w h patch a b bound : Nat} (hn : n ≤ w / patch * (h / patch))
    (hbound : w * h * (a * b) ≤ bound) : n * (a * patch * (b * patch)) ≤ bound := by
  have hw := Nat.div_mul_le_self w patch
  have hh := Nat.div_mul_le_self h patch
  generalize w / patch = u at *
  generalize h / patch = v at *
  calc n * (a * patch * (b * patch)) ≤ u * v * (a * patch * (b * patch)) :=
        Nat.mul_le_mul_right _ hn
    _ = u * patch * (v * patch) * (a * b) := by ring
    _ ≤ w * h * (a * b) := Nat.mul_le_mul_right _ (Nat.mul_le_mul hw hh)
    _ ≤ bound := hbound

/-! ### The grid -/

/-- One direction of an image that is cut to whole patches. -/
theorem cropped_side {side patch : Nat} (hpatch : 0 < patch) :
    (side - side % patch) / patch = side / patch := by
  have hsplit := Nat.div_add_mod' side patch
  have hcut : side - side % patch = side / patch * patch := by omega
  rw [hcut, Nat.mul_div_cancel _ hpatch]

/-- One direction of an image that is padded to whole kernels. -/
theorem padded_side {side patch kernel : Nat} (hpatch : 0 < patch) (hkernel : 0 < kernel)
    (hside : 0 < side) :
    ∃ n, 0 < n ∧ (side + (kernel * patch - side % (kernel * patch)) % (kernel * patch)) / patch =
      n * kernel ∧ (n * kernel - kernel) * patch < side := by
  have hq : 0 < kernel * patch := Nat.mul_pos hkernel hpatch
  have hmod := Nat.mod_lt side hq
  have hsplit := Nat.div_add_mod' side (kernel * patch)
  by_cases hzero : side % (kernel * patch) = 0
  · have hn : 0 < side / (kernel * patch) := by
      by_contra hnone
      rw [Nat.eq_zero_of_not_pos hnone, hzero] at hsplit
      omega
    refine ⟨side / (kernel * patch), hn, ?_, ?_⟩
    · rw [hzero, Nat.sub_zero, Nat.mod_self, Nat.add_zero]
      conv_lhs => rw [← hsplit, hzero, Nat.add_zero, ← Nat.mul_assoc]
      exact Nat.mul_div_cancel _ hpatch
    · rw [Nat.sub_mul, Nat.mul_assoc]
      omega
  · refine ⟨side / (kernel * patch) + 1, Nat.succ_pos _, ?_, ?_⟩
    · rw [Nat.mod_eq_of_lt (Nat.sub_lt hq (Nat.pos_of_ne_zero hzero))]
      have hsum : side + (kernel * patch - side % (kernel * patch)) =
          (side / (kernel * patch) + 1) * kernel * patch := by
        rw [Nat.mul_assoc, Nat.succ_mul]
        omega
      rw [hsum, Nat.mul_div_cancel _ hpatch]
    · rw [Nat.succ_mul, Nat.add_sub_cancel, Nat.mul_assoc]
      omega

/-- The patches of the grid that hold no padding alone: padding fills less than a kernel in each
direction. -/
def innerPatches {K : Type*} (c : Preprocessor K) (gh gw : Nat) : Nat :=
  if c.padInput then (gh - c.merge.1) * (gw - c.merge.2) else gh * gw

section
variable {K : Type*} [Field K] {c : Preprocessor K} {image : Image K}

/-- Cutting and padding, for an image of some size. -/
theorem fitted_grid {fitted : Image K} (hpatch : 0 < c.patch)
    (hmerge : ¬ (c.merge.1 = 0 ∨ c.merge.2 = 0)) (hw : 0 < image.width) (hh : 0 < image.height)
    (h : (if c.padInput then some (padImage c image) else cropImage c image) = some fitted) :
    (0 < fitted.height / c.patch ∧ 0 < fitted.width / c.patch) ∧
      innerPatches c (fitted.height / c.patch) (fitted.width / c.patch) ≤
        image.width / c.patch * (image.height / c.patch) := by
  rw [not_or] at hmerge
  unfold innerPatches
  split at h
  · rename_i hpad
    obtain rfl := Option.some.inj h
    obtain ⟨n, hn, hgh, hinH⟩ := padded_side hpatch (Nat.pos_of_ne_zero hmerge.1) hh
    obtain ⟨k, hk, hgw, hinW⟩ := padded_side hpatch (Nat.pos_of_ne_zero hmerge.2) hw
    have hgh : (padImage c image).height / c.patch = n * c.merge.1 := hgh
    have hgw : (padImage c image).width / c.patch = k * c.merge.2 := hgw
    rw [hgh, hgw, if_pos hpad, Nat.mul_comm (image.width / c.patch)]
    refine ⟨⟨Nat.mul_pos hn (Nat.pos_of_ne_zero hmerge.1),
      Nat.mul_pos hk (Nat.pos_of_ne_zero hmerge.2)⟩, Nat.mul_le_mul ?_ ?_⟩
    · exact (Nat.le_div_iff_mul_le hpatch).mpr (Nat.le_of_lt hinH)
    · exact (Nat.le_div_iff_mul_le hpatch).mpr (Nat.le_of_lt hinW)
  · rename_i hpad
    unfold cropImage at h
    dsimp only at h
    split at h
    · cases h
    rename_i hempty
    rw [not_or] at hempty
    obtain rfl := Option.some.inj h
    dsimp only
    have hwhole (side : Nat) (hne : side - side % c.patch ≠ 0) : 0 < side / c.patch := by
      refine Nat.div_pos ?_ hpatch
      by_contra hsmall
      rw [Nat.mod_eq_of_lt (Nat.lt_of_not_le hsmall), Nat.sub_self] at hne
      exact hne rfl
    rw [cropped_side hpatch, cropped_side hpatch, if_neg hpad, Nat.mul_comm]
    exact ⟨⟨hwhole _ hempty.2, hwhole _ hempty.1⟩, Nat.le_refl _⟩

/-- The grid of an accepted image: whole kernels, fewer than 512 patches in each direction, and an
area that keeps to the limit up to what the coarse grid has left out and padding has added. -/
theorem preprocess_grid {resample : Resample K} {patches : List (List K)} {gh gw : Nat}
    (hw : 1 ≤ image.width) (hh : 1 ≤ image.height)
    (h : preprocessImage c resample image = some (patches, gh, gw)) :
    (0 < gh ∧ 0 < gw) ∧ (c.merge.1 ∣ gh ∧ c.merge.2 ∣ gw) ∧ (gh < 512 ∧ gw < 512) ∧
      (image.width / c.patch * (image.height / c.patch) ≤ c.limit →
        innerPatches c gh gw ≤ c.limit) ∧
      (c.limit < image.width / c.patch * (image.height / c.patch) →
        innerPatches c gh gw *
            (image.width / c.patch * c.patch * (image.height / c.patch * c.patch)) ≤
          c.limit * (image.width * image.height)) := by
  unfold preprocessImage at h
  split at h
  · cases h
  rename_i hpatch
  obtain ⟨scaled, hscaled, h⟩ := Option.bind_eq_some_iff.mp h
  split at h
  · cases h
  obtain ⟨fitted, hfitted, h⟩ := Option.bind_eq_some_iff.mp h
  dsimp only at h
  split at h
  · cases h
  rename_i hsmall
  split at h
  · cases h
  rename_i hmerge
  split at h
  · cases h
  rename_i hwhole
  obtain ⟨-, rfl, rfl⟩ : _ ∧ _ ∧ _ := by simpa only [Option.some.injEq, Prod.mk.injEq] using h
  push Not at hsmall hwhole
  have hpatch := Nat.pos_of_ne_zero hpatch
  unfold scaleImage at hscaled
  dsimp only at hscaled
  split at hscaled
  · rename_i hlimit
    split at hscaled
    · cases hscaled
    rename_i hempty
    rw [not_or] at hempty
    obtain rfl := Option.some.inj hscaled
    obtain ⟨hpos, hinner⟩ := fitted_grid hpatch hmerge (Nat.pos_of_ne_zero hempty.1)
      (Nat.pos_of_ne_zero hempty.2) hfitted
    refine ⟨hpos, ⟨Nat.dvd_of_mod_eq_zero hwhole.1, Nat.dvd_of_mod_eq_zero hwhole.2⟩, hsmall,
      fun hle => absurd hlimit (Nat.not_lt_of_le hle), fun _ => ?_⟩
    exact whole_area_le hinner (scaled_area_le _ _ _ _)
  · rename_i hlimit
    obtain rfl := Option.some.inj hscaled
    obtain ⟨hpos, hinner⟩ := fitted_grid hpatch hmerge hw hh hfitted
    exact ⟨hpos, ⟨Nat.dvd_of_mod_eq_zero hwhole.1, Nat.dvd_of_mod_eq_zero hwhole.2⟩, hsmall,
      fun hle => hinner.trans hle, fun hlt => absurd hlt hlimit⟩

/-- An image of 41 columns and 350 rows, with a limit of 32 patches. -/
def narrow : Preprocessor ℚ × Image ℚ :=
  (⟨14, 32, false, (2, 2), fun _ => 0, fun _ => 1⟩, ⟨41, 350, fun _ _ _ => 0⟩)

theorem narrow_accepted : ∃ patches,
    preprocessImage narrow.1 (fun _ _ _ _ _ _ => 0) narrow.2 = some (patches, 20, 2) := by
  have hw : scaledSide 41 32 50 = 32 := by
    rw [scaledSide_eq]
    decide +kernel
  have hh : scaledSide 350 32 50 = 280 := by
    rw [scaledSide_eq]
    decide +kernel
  have hscale : scaleImage narrow.1 (fun _ _ _ _ _ _ => 0) narrow.2 =
      some ⟨32, 280, fun _ _ _ => 0⟩ := by
    simp [scaleImage, narrow, hw, hh]
  have hcrop : cropImage narrow.1 ⟨32, 280, fun _ _ _ => 0⟩ = some ⟨28, 280, fun _ _ _ => 0⟩ := by
    simp [cropImage, narrow]
  unfold preprocessImage
  rw [hscale, Option.bind_some, hcrop]
  exact ⟨_, rfl⟩

/-- The coarse grid leaves out 13 of the 41 columns, which count for the scaled grid. -/
theorem limit_exceeded : ∃ patches,
    preprocessImage narrow.1 (fun _ _ _ _ _ _ => 0) narrow.2 = some (patches, 20, 2) ∧
      narrow.1.limit < 20 * 2 := by
  obtain ⟨patches, h⟩ := narrow_accepted
  exact ⟨patches, h, by decide⟩

theorem preprocess_grid_narrow : ∃ patches,
    preprocessImage narrow.1 (fun _ _ _ _ _ _ => 0) narrow.2 = some (patches, 20, 2) ∧
      innerPatches narrow.1 20 2 * (41 / 14 * 14 * (350 / 14 * 14)) ≤ 32 * (41 * 350) := by
  obtain ⟨patches, h⟩ := narrow_accepted
  exact ⟨patches, h, (preprocess_grid (by decide) (by decide) h).2.2.2.2 (by decide)⟩

end

end Kvl.Vision

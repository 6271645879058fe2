import Kvl.Mla.Decode

/-!
# The quantised compressed state

The same state with the latent rows as signed bytes and one scale for each, and
the rope rows in bf16. The three arrays are written by `append_q8_entry`, which
prefill and decode share.
-/

namespace Kvl

set_option autoImplicit false

structure MlaQ8Floats (F D : Type*) extends MlaFloats F D where
  /-- `fabsf`. -/
  abs : F → F
  /-- `roundf`. -/
  round : F → F
  /-- `(int8_t)` of a float. -/
  toInt8 : F → UInt8
  /-- `(float)` of a signed byte. -/
  ofInt8F : UInt8 → F
  /-- The bits of a float. -/
  bits : F → UInt32

structure MlaCompressedQ8State (F : Type*) where
  capacity : Int
  len : Int
  kvLoraRank : Int
  qkRopeDim : Int
  latentQ8 : Nat → UInt8
  latentScale : Nat → F
  ropeBf16 : Nat → UInt16

section Q8
variable {F D : Type*} (fl : MlaQ8Floats F D) (cfg : MlaConfig F) (w : MlaBF16)

/-- Round to nearest even, except where the exponent is all ones. -/
def f32ToBf16RneQ8 (x : F) : UInt16 :=
  let u : UInt32 := fl.bits x
  let exp : UInt32 := u &&& 0x7f800000
  let u : UInt32 := if exp != 0x7f800000 then u + ((0x00007fff : UInt32) + ((u >>> 16) &&& 1)) else u
  (u >>> 16).toUInt16

/-- `amax` over the first `n` values. -/
def latentMax (src : Nat → F) (n : Nat) : F :=
  (List.range n).foldl (fun amax i => if fl.gt (fl.abs (src i)) amax then fl.abs (src i) else amax)
    fl.zero

def quantScale (amax : F) : F := fl.div amax (fl.ofInt 127)

def quantValue (scale v : F) : UInt8 :=
  let inv := fl.div fl.one scale
  let qf := fl.round (fl.mul v inv)
  let qf := if fl.gt qf (fl.ofInt 127) then fl.ofInt 127 else qf
  let qf := if fl.gt (fl.neg (fl.ofInt 127)) qf then fl.neg (fl.ofInt 127) else qf
  fl.toInt8 qf

/-- The bytes and the scale that `quantize_latent_token` writes. -/
def quantizeLatentToken (src : Nat → F) (n : Nat) : (Nat → UInt8) × F :=
  let amax := latentMax fl src n
  if ¬ fl.gt amax fl.zero ∨ ¬ fl.isFinite amax then (fun _ => 0, fl.one)
  else (fun i => quantValue fl (quantScale fl amax) (src i), quantScale fl amax)

def dequantLatent (state : MlaCompressedQ8State F) (token r : Nat) : F :=
  fl.mul (fl.ofInt8F (state.latentQ8 (token * state.kvLoraRank.toNat + r)))
    (state.latentScale token)

def kvlMlaCompressedQ8StateInit (capacity : Int) : Option (MlaCompressedQ8State F) :=
  if capacity ≤ 0 ∨ cfg.kvLoraRank ≤ 0 ∨ cfg.qkRopeDim ≤ 0 ∨ cfg.qkRopeDim % 2 ≠ 0 then none
  else some
    { capacity := capacity, len := 0, kvLoraRank := cfg.kvLoraRank, qkRopeDim := cfg.qkRopeDim
      latentQ8 := fun _ => 0, latentScale := fun _ => fl.zero, ropeBf16 := fun _ => 0 }

def kvlMlaCompressedQ8StateReset (state : MlaCompressedQ8State F) : MlaCompressedQ8State F :=
  { state with len := 0 }

def kvlMlaCompressedQ8StateTruncate (state : MlaCompressedQ8State F) (newLen : Int) :
    Option (MlaCompressedQ8State F) :=
  if newLen < 0 ∨ newLen > state.len then none else some { state with len := newLen }

/-- The three arrays at `position`, one after the other. -/
def appendQ8Entry (x : Nat → F) (position : Nat) (state : MlaCompressedQ8State F) :
    MlaCompressedQ8State F :=
  let R := cfg.kvLoraRank.toNat
  let DR := cfg.qkRopeDim.toNat
  let latentTmp := latentOf fl.toMlaFloats cfg w x
  let q := quantizeLatentToken fl latentTmp R
  let ropeTmp := ropeOf fl.toMlaFloats cfg w x position
  { state with
    latentQ8 := writeAt (position * R) R q.1 state.latentQ8
    latentScale := Function.update state.latentScale position q.2
    ropeBf16 := writeAt (position * DR) DR (fun d => f32ToBf16RneQ8 fl (ropeTmp d))
      state.ropeBf16 }

def kvlMlaCompressedQ8StatePrefillBf16 (x : Nat → F) (seqLen : Int)
    (state : MlaCompressedQ8State F) : Option (MlaCompressedQ8State F) :=
  if seqLen ≤ 0 ∨ state.len ≠ 0 ∨ seqLen > state.capacity ∨
      state.kvLoraRank ≠ cfg.kvLoraRank ∨ state.qkRopeDim ≠ cfg.qkRopeDim then none
  else if cfg.hiddenSize ≤ 0 ∨ cfg.kvLoraRank ≤ 0 ∨ cfg.qkRopeDim ≤ 0 ∨ cfg.qkRopeDim % 2 ≠ 0 ∨
      thetaRefused fl.toMlaFloats cfg = true then none
  else
    let state := (List.range seqLen.toNat).foldl (fun state t =>
      appendQ8Entry fl cfg w (readFrom (t * cfg.hiddenSize.toNat) x) t state) state
    some { state with len := seqLen }

end Q8

section Rows
variable {F D : Type*} (fl : MlaFloats F D) (cfg : MlaConfig F) (w : MlaBF16)

/-- The score of row `j`, wherever its latent and its rope values come from. -/
def scoreOver (latent rope : Nat → Nat → F) (q : Nat → F) (position : Int) (h j : Nat) : F :=
  let dot := dotFrom fl fl.zeroD cfg.kvLoraRank.toNat (absorbedQuery fl cfg w q h) (latent j)
  let dot := dotFrom fl dot cfg.qkRopeDim.toNat (ropeQuery fl cfg q position) (rope j)
  fl.mul (fl.narrow dot) (softmaxScale fl cfg)

def mixOver (latent : Nat → Nat → F) (score : Nat → F) (n r : Nat) : F :=
  let scores := expScores fl n score
  let denom := softDenom fl n scores
  fl.narrow ((List.range n).foldl (fun acc j =>
    fl.addD acc (fl.mulD (fl.divD (fl.widen (scores j)) denom) (fl.widen (latent j r)))) fl.zeroD)

def headOver (latent rope : Nat → Nat → F) (x : Nat → F) (position : Int) (h d : Nat) : F :=
  let q := queryOf fl cfg w x h
  let mix := mixOver fl latent (scoreOver fl cfg w latent rope q position h) (position.toNat + 1)
  fl.narrow (dotFrom fl fl.zeroD cfg.kvLoraRank.toNat
    (kvbRow fl cfg w h (cfg.qkNopeDim.toNat + d)) mix)

/-- The output of a token that attends over the rows up to its own. -/
def attnOver (latent rope : Nat → Nat → F) (x : Nat → F) (position : Int) : Nat → F :=
  bf16Row fl.toMoeFloats (headOut cfg (headOver fl cfg w latent rope x position)) w.oProj
    (cfg.numHeads * cfg.vHeadDim)

/-- The latent rows of the unquantised state. -/
def MlaCompressedState.latentRow (state : MlaCompressedState F) (j : Nat) : Nat → F :=
  readFrom (j * state.kvLoraRank.toNat) state.latent

def MlaCompressedState.ropeRow (state : MlaCompressedState F) (j : Nat) : Nat → F :=
  readFrom (j * state.qkRopeDim.toNat) state.rope

end Rows

section Decode
variable {F D : Type*} (fl : MlaQ8Floats F D) (cfg : MlaConfig F) (w : MlaBF16)

def MlaCompressedQ8State.ropeRow (state : MlaCompressedQ8State F) (j d : Nat) : F :=
  fl.bf16ToF32 (state.ropeBf16 (j * state.qkRopeDim.toNat + d))

def kvlMlaDecodeCompressedQ8Bf16 (base : Nat) (x : Nat → F) (position : Int)
    (state : MlaCompressedQ8State F) (out : Nat → F) :
    Option ((Nat → F) × MlaCompressedQ8State F) :=
  if position ≠ state.len ∨ position < 0 ∨ position ≥ state.capacity ∨
      state.kvLoraRank ≠ cfg.kvLoraRank ∨ state.qkRopeDim ≠ cfg.qkRopeDim then none
  else if ¬ cfg.Ok fl.toMlaFloats then none
  else
    let state := appendQ8Entry fl cfg w x position.toNat state
    -- the loops of the unquantised kernel, over dequantised rows
    let head := headOut cfg
      (headOver fl.toMlaFloats cfg w (dequantLatent fl state) (state.ropeRow fl) x position)
    let out := kvlMatvecBf16 fl.toMoeFloats base head w.oProj (cfg.numHeads * cfg.vHeadDim)
      cfg.hiddenSize out
    some (out, { state with len := position + 1 })

end Decode

section Congruence
variable {F D : Type*} {fl : MlaFloats F D} {cfg : MlaConfig F} {w : MlaBF16}

/-- A token attends to the rows up to its own, and to no value past their width. -/
theorem attnOver_congr {latent latent' rope rope' : Nat → Nat → F} {x : Nat → F} {position : Int}
    (hlatent : ∀ j < position.toNat + 1, row cfg.kvLoraRank.toNat (latent j) =
      row cfg.kvLoraRank.toNat (latent' j))
    (hrope : ∀ j < position.toNat + 1, row cfg.qkRopeDim.toNat (rope j) =
      row cfg.qkRopeDim.toNat (rope' j)) :
    attnOver fl cfg w latent rope x position = attnOver fl cfg w latent' rope' x position := by
  have hscore : ∀ h, ∀ j < position.toNat + 1,
      scoreOver fl cfg w latent rope (queryOf fl cfg w x h) position h j =
        scoreOver fl cfg w latent' rope' (queryOf fl cfg w x h) position h j := by
    intro h j hj
    unfold scoreOver
    dsimp only
    rw [dotFrom_congr (fun _ _ => rfl) (row_eq_iff.mp (hlatent j hj)),
      dotFrom_congr (fun _ _ => rfl) (row_eq_iff.mp (hrope j hj))]
  have hmix : ∀ h, ∀ r < cfg.kvLoraRank.toNat,
      mixOver fl latent (scoreOver fl cfg w latent rope (queryOf fl cfg w x h) position h)
        (position.toNat + 1) r =
      mixOver fl latent' (scoreOver fl cfg w latent' rope' (queryOf fl cfg w x h) position h)
        (position.toNat + 1) r := by
    intro h r hr
    have hexp := @expScores_congr _ _ fl _ _ _ (hscore h)
    unfold mixOver
    dsimp only
    rw [softDenom_congr hexp]
    congr 1
    apply foldl_range_congr
    intro acc j hj
    rw [hexp j hj, row_eq_iff.mp (hlatent j hj) r hr]
  have hhead : headOver fl cfg w latent rope x position =
      headOver fl cfg w latent' rope' x position := by
    funext h d
    unfold headOver
    dsimp only
    congr 1
    exact dotFrom_congr (fun _ _ => rfl) (hmix h)
  unfold attnOver
  rw [hhead]

/-- The unquantised kernel is the same one, over the rows as they are stored. -/
theorem attnOf_eq_attnOver {state : MlaCompressedState F}
    (hrank : state.kvLoraRank = cfg.kvLoraRank) (hrope : state.qkRopeDim = cfg.qkRopeDim)
    (x : Nat → F) (position : Int) :
    attnOf fl cfg w state x position =
      attnOver fl cfg w state.latentRow state.ropeRow x position := by
  unfold MlaCompressedState.latentRow MlaCompressedState.ropeRow
  rw [hrank, hrope]
  rfl

end Congruence

end Kvl

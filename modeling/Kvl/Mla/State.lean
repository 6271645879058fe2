import Kvl.Mla.Rows

/-!
# The compressed attention state

A layer keeps one latent row and one rope row for each position. Decoding a
token appends its row and attends over the rows so far, with `kv_b` absorbed
into the query and into the output.
-/

namespace Kvl

set_option autoImplicit false

structure MlaFloats (F D : Type*) extends MoeFloats F D where
  sub : F → F → F
  sqrt : F → F
  /-- `(float)` of an `int`. -/
  ofInt : Int → F
  divD : D → D → D
  /-- `kvl_rmsnorm_bf16` of the values it reads, with its weights and its epsilon. -/
  rmsnorm : List F → (Nat → UInt16) → F → Nat → F
  /-- `rope_interleaved` of the values it reads, at a position, with its theta. -/
  rope : List F → Int → F → Nat → F

structure MlaConfig (F : Type*) where
  hiddenSize : Int
  numHeads : Int
  qkNopeDim : Int
  qkRopeDim : Int
  vHeadDim : Int
  kvLoraRank : Int
  rmsEps : F
  ropeTheta : F

structure MlaBF16 where
  qProj : Nat → UInt16
  kvAProj : Nat → UInt16
  kvANorm : Nat → UInt16
  kvBProj : Nat → UInt16
  oProj : Nat → UInt16

structure MlaCompressedState (F : Type*) where
  capacity : Int
  len : Int
  kvLoraRank : Int
  qkRopeDim : Int
  latent : Nat → F
  rope : Nat → F

section State
variable {F D : Type*} (fl : MlaFloats F D) (cfg : MlaConfig F) (w : MlaBF16)

/-- `rope_theta <= 0.0f`, which is false of a NaN. -/
def thetaRefused : Bool := fl.gt fl.zero cfg.ropeTheta || fl.eq cfg.ropeTheta fl.zero

/-- The dimensions that the attention kernels accept. -/
def MlaConfig.Ok : Prop :=
  0 < cfg.hiddenSize ∧ 0 < cfg.numHeads ∧ 0 < cfg.qkNopeDim ∧ 0 < cfg.qkRopeDim ∧
    cfg.qkRopeDim % 2 = 0 ∧ 0 < cfg.vHeadDim ∧ 0 < cfg.kvLoraRank ∧ thetaRefused fl cfg = false

instance : Decidable (cfg.Ok fl) := by
  unfold MlaConfig.Ok
  infer_instance

def kvlMlaCompressedStateInit (capacity : Int) : Option (MlaCompressedState F) :=
  if capacity ≤ 0 ∨ cfg.kvLoraRank ≤ 0 ∨ cfg.qkRopeDim ≤ 0 ∨ cfg.qkRopeDim % 2 ≠ 0 then none
  else some
    { capacity := capacity, len := 0, kvLoraRank := cfg.kvLoraRank, qkRopeDim := cfg.qkRopeDim
      latent := fun _ => fl.zero, rope := fun _ => fl.zero }

def kvlMlaCompressedStateTruncate (state : MlaCompressedState F) (newLen : Int) :
    Option (MlaCompressedState F) :=
  if newLen < 0 ∨ state.len < newLen then none else some { state with len := newLen }

/-- The latent row of a token: its down projection, normalised. -/
def latentOf (x : Nat → F) : Nat → F :=
  fl.rmsnorm (row cfg.kvLoraRank.toNat (bf16Row fl.toMoeFloats x w.kvAProj cfg.hiddenSize))
    w.kvANorm cfg.rmsEps

/-- The rope row of a token: the rest of its down projection, rotated to its position. -/
def ropeOf (x : Nat → F) (position : Int) : Nat → F :=
  fl.rope (row cfg.qkRopeDim.toNat (readFrom cfg.kvLoraRank.toNat
    (bf16Row fl.toMoeFloats x w.kvAProj cfg.hiddenSize))) position cfg.ropeTheta

/-- Both rows of position `t`, written in place. -/
def MlaCompressedState.put (state : MlaCompressedState F) (t : Nat) (x : Nat → F) :
    MlaCompressedState F :=
  { state with
    latent := writeAt (t * cfg.kvLoraRank.toNat) cfg.kvLoraRank.toNat (latentOf fl cfg w x)
      state.latent
    rope := writeAt (t * cfg.qkRopeDim.toNat) cfg.qkRopeDim.toNat (ropeOf fl cfg w x t) state.rope }

def kvlMlaCompressedStatePrefillBf16 (x : Nat → F) (seqLen : Int)
    (state : MlaCompressedState F) : Option (MlaCompressedState F) :=
  if seqLen ≤ 0 ∨ state.len ≠ 0 ∨ state.capacity < seqLen ∨
      state.kvLoraRank ≠ cfg.kvLoraRank ∨ state.qkRopeDim ≠ cfg.qkRopeDim then none
  else if cfg.hiddenSize ≤ 0 ∨ cfg.kvLoraRank ≤ 0 ∨ cfg.qkRopeDim ≤ 0 ∨ cfg.qkRopeDim % 2 ≠ 0 ∨
      thetaRefused fl cfg = true then none
  else
    let state := (List.range seqLen.toNat).foldl
      (fun state t => state.put fl cfg w t (readFrom (t * cfg.hiddenSize.toNat) x)) state
    some { state with len := seqLen }

/-- The running maximum of `n` scores. -/
def maxScore (n : Nat) (score : Nat → F) : F :=
  (List.range n).foldl (fun m j => if fl.gt (score j) m then score j else m) fl.negInf

/-- The scores after `expf`. -/
def expScores (n : Nat) (score : Nat → F) (j : Nat) : F :=
  fl.exp (fl.sub (score j) (maxScore fl n score))

def softDenom (n : Nat) (score : Nat → F) : D :=
  (List.range n).foldl (fun acc j => fl.addD acc (fl.widen (score j))) fl.zeroD

def softmaxScale : F :=
  fl.div fl.one (fl.sqrt (fl.ofInt (cfg.qkNopeDim + cfg.qkRopeDim)))

/-- The `n` products of two rows added to `start`. -/
def dotFrom (start : D) (n : Nat) (a b : Nat → F) : D :=
  (List.range n).foldl (fun acc i => fl.addD acc (fl.mulD (fl.widen (a i)) (fl.widen (b i)))) start

/-- Row `i` of head `h` in `kv_b`, in floats. -/
def kvbRow (h i : Nat) : Nat → F := fun r =>
  let row := h * (cfg.qkNopeDim + cfg.vHeadDim).toNat + i
  fl.bf16ToF32 (w.kvBProj (row * cfg.kvLoraRank.toNat + r))

/-- The query of head `h` and its rotated part. -/
def queryOf (x : Nat → F) (h : Nat) : Nat → F :=
  readFrom (h * (cfg.qkNopeDim + cfg.qkRopeDim).toNat)
    (bf16Row fl.toMoeFloats x w.qProj cfg.hiddenSize)

def ropeQuery (q : Nat → F) (position : Int) : Nat → F :=
  fl.rope (row cfg.qkRopeDim.toNat (readFrom cfg.qkNopeDim.toNat q)) position cfg.ropeTheta

/-- The query of a head against the latent rows. -/
def absorbedQuery (q : Nat → F) (h r : Nat) : F :=
  fl.narrow ((List.range cfg.qkNopeDim.toNat).foldl (fun acc d =>
    fl.addD acc (fl.mulD (fl.widen (kvbRow fl cfg w h d r)) (fl.widen (q d)))) fl.zeroD)

def decodeScore (state : MlaCompressedState F) (q : Nat → F) (position : Int) (h j : Nat) : F :=
  let R := cfg.kvLoraRank.toNat
  let DR := cfg.qkRopeDim.toNat
  let dot := dotFrom fl fl.zeroD R (absorbedQuery fl cfg w q h) (readFrom (j * R) state.latent)
  let dot := dotFrom fl dot DR (ropeQuery fl cfg q position) (readFrom (j * DR) state.rope)
  fl.mul (fl.narrow dot) (softmaxScale fl cfg)

/-- The latent rows mixed by the softmax of head `h`. -/
def decodeMix (state : MlaCompressedState F) (score : Nat → F) (n r : Nat) : F :=
  let scores := expScores fl n score
  let denom := softDenom fl n scores
  fl.narrow ((List.range n).foldl (fun acc j =>
    fl.addD acc (fl.mulD (fl.divD (fl.widen (scores j)) denom)
      (fl.widen (state.latent (j * cfg.kvLoraRank.toNat + r))))) fl.zeroD)

/-- `ho`, the output of head `h`. -/
def decodeHead (state : MlaCompressedState F) (x : Nat → F) (position : Int) (h d : Nat) : F :=
  let q := queryOf fl cfg w x h
  let n := position.toNat + 1
  let mix := decodeMix fl cfg state (decodeScore fl cfg w state q position h) n
  fl.narrow (dotFrom fl fl.zeroD cfg.kvLoraRank.toNat
    (kvbRow fl cfg w h (cfg.qkNopeDim.toNat + d)) mix)

/-- `head_out`: head `h` has the values from `h * DV`. -/
def headOut (head : Nat → Nat → F) : Nat → F := fun k =>
  head (k / cfg.vHeadDim.toNat) (k % cfg.vHeadDim.toNat)

/-- `x` and `out` point into buffers, `out` at `base`. -/
def kvlMlaDecodeCompressedBf16 (base : Nat) (x : Nat → F) (position : Int)
    (state : MlaCompressedState F) (out : Nat → F) : Option ((Nat → F) × MlaCompressedState F) :=
  if position ≠ state.len ∨ position < 0 ∨ state.capacity ≤ position ∨
      state.kvLoraRank ≠ cfg.kvLoraRank ∨ state.qkRopeDim ≠ cfg.qkRopeDim then none
  else if ¬ cfg.Ok fl then none
  else
    let state := state.put fl cfg w position.toNat x
    let head := headOut cfg (decodeHead fl cfg w state x position)
    let out := kvlMatvecBf16 fl.toMoeFloats base head w.oProj (cfg.numHeads * cfg.vHeadDim)
      cfg.hiddenSize out
    some (out, { state with len := position + 1 })

def kvlMlaDecodeCompressedBlockBf16 (x : Nat → F) (count startPosition : Int)
    (state : MlaCompressedState F) (out : Nat → F) : Option ((Nat → F) × MlaCompressedState F) :=
  if count ≤ 0 ∨ startPosition ≠ state.len ∨ startPosition < 0 ∨
      state.capacity - startPosition < count then none
  else if cfg.hiddenSize ≤ 0 then none
  else
    let H := cfg.hiddenSize.toNat
    (List.range count.toNat).foldlM (fun (out, state) (t : Nat) =>
      kvlMlaDecodeCompressedBf16 fl cfg w (t * H) (readFrom (t * H) x) (startPosition + t) state out)
      (out, state)

end State

end Kvl

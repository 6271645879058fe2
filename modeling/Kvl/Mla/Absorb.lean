import Kvl.Lib.Sums
import Kvl.Mla.Prefill

/-!
# Expanded and absorbed attention

In exact arithmetic the scores and the outputs of a head do not depend on
whether `kv_b` is applied to the latent rows or to the query and the mixture of
them. `exp`, the square root, the norms, the rotations, the weights, `-INFINITY`
and the comparisons stay what they are.
-/

namespace Kvl

set_option autoImplicit false

open Sums Finset

/-- The arithmetic of a field in the place of both float types. -/
def exactFloats {K : Type*} [Field K] (fl : MlaFloats K K) : MlaFloats K K :=
  { fl with
    zero := 0, one := 1, add := (· + ·), mul := (· * ·), div := (· / ·), neg := (- ·)
    widen := id, narrow := id, addD := (· + ·), mulD := (· * ·), zeroD := 0
    sub := (· - ·), divD := (· / ·) }

section Absorb
variable {K : Type*} [Field K] {fl : MlaFloats K K} {cfg : MlaConfig K} {w : MlaBF16}

theorem dotFrom_exact (start : K) (n : Nat) (a b : Nat → K) :
    dotFrom (exactFloats fl) start n a b = start + ∑ i ∈ range n, a i * b i :=
  foldl_range_add (fun i => a i * b i) start n

/-- One accumulator for two products, or one for each. -/
theorem dotFrom_split (start : K) (n : Nat) (a b : Nat → K) :
    dotFrom (exactFloats fl) start n a b =
      (exactFloats fl).addD start (dotFrom (exactFloats fl) (exactFloats fl).zeroD n a b) := by
  change _ = start + dotFrom (exactFloats fl) (0 : K) n a b
  rw [dotFrom_exact, dotFrom_exact, zero_add]

theorem bf16Row_exact (x : Nat → K) (p : Nat → UInt16) (inn : Int) (o : Nat) :
    bf16Row (exactFloats fl).toMoeFloats x p inn o =
      ∑ i ∈ range inn.toNat, fl.bf16ToF32 (p (o * inn.toNat + i)) * x i := by
  have hsum := foldl_range_add
    (fun i => fl.bf16ToF32 (readFrom (o * inn.toNat) p i) * x i) 0 inn.toNat
  rw [zero_add] at hsum
  exact hsum

theorem absorbedQuery_exact (q : Nat → K) (h r : Nat) :
    absorbedQuery (exactFloats fl) cfg w q h r =
      ∑ d ∈ range cfg.qkNopeDim.toNat, kvbRow (exactFloats fl) cfg w h d r * q d := by
  have hsum := foldl_range_add (fun d => kvbRow (exactFloats fl) cfg w h d r * q d) 0
    cfg.qkNopeDim.toNat
  rw [zero_add] at hsum
  exact hsum

/-- The expanded keys and values of a head are the rows of `kv_b` times a latent row. -/
theorem prefillKeyValue_exact (x : Nat → K) (h j i : Nat) :
    prefillKeyValue (exactFloats fl) cfg w x h j i =
      ∑ r ∈ range cfg.kvLoraRank.toNat, kvbRow (exactFloats fl) cfg w h i r *
        latentOf (exactFloats fl) cfg w (readFrom (j * cfg.hiddenSize.toNat) x) r := by
  unfold prefillKeyValue
  rw [bf16Row_exact]
  apply sum_congr rfl
  intro r _
  have hindex : h * cfg.headRows * cfg.kvLoraRank.toNat + (i * cfg.kvLoraRank.toNat + r) =
      (h * (cfg.qkNopeDim + cfg.vHeadDim).toNat + i) * cfg.kvLoraRank.toNat + r := by
    unfold MlaConfig.headRows
    ring
  change fl.bf16ToF32 (w.kvBProj (h * cfg.headRows * cfg.kvLoraRank.toNat +
    (i * cfg.kvLoraRank.toNat + r))) * _ = _
  rw [hindex]
  rfl

/-- Both paths project the same query, whatever the arithmetic. -/
theorem prefillQuery_eq {F D : Type*} (fl : MlaFloats F D) (cfg : MlaConfig F) (x : Nat → F)
    (h t : Nat) :
    prefillQuery fl cfg w x h t = queryOf fl cfg w (readFrom (t * cfg.hiddenSize.toNat) x) h := by
  funext d
  unfold prefillQuery queryOf bf16Row
  congr 1
  funext i
  unfold readFrom
  congr 1
  rw [Nat.add_mul, Nat.add_assoc]

/-- A state that holds the rows of the tokens up to `t`. -/
structure HoldsRows {F D : Type*} (fl : MlaFloats F D) (cfg : MlaConfig F) (w : MlaBF16)
    (x : Nat → F) (n : Nat) (state : MlaCompressedState F) : Prop where
  latent : ∀ j < n, ∀ r < cfg.kvLoraRank.toNat, state.latent (j * cfg.kvLoraRank.toNat + r) =
    latentOf fl cfg w (readFrom (j * cfg.hiddenSize.toNat) x) r
  rope : ∀ j < n, ∀ d < cfg.qkRopeDim.toNat, state.rope (j * cfg.qkRopeDim.toNat + d) =
    ropeOf fl cfg w (readFrom (j * cfg.hiddenSize.toNat) x) j d

theorem score_absorbed {x : Nat → K} {state : MlaCompressedState K} {h t j : Nat}
    (hrows : HoldsRows (exactFloats fl) cfg w x (t + 1) state) (hj : j ≤ t) :
    decodeScore (exactFloats fl) cfg w state
        (queryOf (exactFloats fl) cfg w (readFrom (t * cfg.hiddenSize.toNat) x) h) t h j =
      prefillScore (exactFloats fl) cfg w x h t j := by
  have hlatent : ∀ r < cfg.kvLoraRank.toNat, readFrom (j * cfg.kvLoraRank.toNat) state.latent r =
      latentOf (exactFloats fl) cfg w (readFrom (j * cfg.hiddenSize.toNat) x) r :=
    hrows.latent j (Nat.lt_succ_of_le hj)
  have hrope : ∀ d < cfg.qkRopeDim.toNat, readFrom (j * cfg.qkRopeDim.toNat) state.rope d =
      ropeOf (exactFloats fl) cfg w (readFrom (j * cfg.hiddenSize.toNat) x) j d :=
    hrows.rope j (Nat.lt_succ_of_le hj)
  unfold decodeScore prefillScore
  dsimp only
  rw [prefillQuery_eq, dotFrom_congr (fun _ _ => rfl) hlatent, dotFrom_congr (fun _ _ => rfl) hrope]
  generalize queryOf (exactFloats fl) cfg w (readFrom (t * cfg.hiddenSize.toNat) x) h = q
  have hkeys : dotFrom (exactFloats fl) (exactFloats fl).zeroD cfg.kvLoraRank.toNat
      (absorbedQuery (exactFloats fl) cfg w q h)
      (latentOf (exactFloats fl) cfg w (readFrom (j * cfg.hiddenSize.toNat) x)) =
      dotFrom (exactFloats fl) (exactFloats fl).zeroD cfg.qkNopeDim.toNat q
        (prefillKeyValue (exactFloats fl) cfg w x h j) := by
    rw [dotFrom_exact, dotFrom_exact]
    congr 1
    calc ∑ r ∈ range cfg.kvLoraRank.toNat, absorbedQuery (exactFloats fl) cfg w q h r *
          latentOf (exactFloats fl) cfg w (readFrom (j * cfg.hiddenSize.toNat) x) r
        = ∑ r ∈ range cfg.kvLoraRank.toNat,
            (∑ d ∈ range cfg.qkNopeDim.toNat, kvbRow (exactFloats fl) cfg w h d r * q d) *
              latentOf (exactFloats fl) cfg w (readFrom (j * cfg.hiddenSize.toNat) x) r := by
          apply sum_congr rfl
          intro r _
          rw [absorbedQuery_exact]
      _ = ∑ d ∈ range cfg.qkNopeDim.toNat, q d *
            ∑ r ∈ range cfg.kvLoraRank.toNat, kvbRow (exactFloats fl) cfg w h d r *
              latentOf (exactFloats fl) cfg w (readFrom (j * cfg.hiddenSize.toNat) x) r :=
          contract_left _ _ _ _ _
      _ = ∑ d ∈ range cfg.qkNopeDim.toNat, q d *
            prefillKeyValue (exactFloats fl) cfg w x h j d := by
          apply sum_congr rfl
          intro d _
          rw [prefillKeyValue_exact]
  rw [hkeys, dotFrom_split (dotFrom _ _ _ _ _)]

theorem head_absorbed {x : Nat → K} {state : MlaCompressedState K} {h t d : Nat}
    (hrows : HoldsRows (exactFloats fl) cfg w x (t + 1) state) :
    decodeHead (exactFloats fl) cfg w state (readFrom (t * cfg.hiddenSize.toNat) x) t h d =
      prefillHead (exactFloats fl) cfg w x h t d := by
  have hscore : ∀ j < t + 1, decodeScore (exactFloats fl) cfg w state
      (queryOf (exactFloats fl) cfg w (readFrom (t * cfg.hiddenSize.toNat) x) h) t h j =
      prefillScore (exactFloats fl) cfg w x h t j :=
    fun j hj => score_absorbed hrows (Nat.le_of_lt_succ hj)
  have hexp := @expScores_congr _ _ (exactFloats fl) _ _ _ hscore
  let p : Nat → K := fun j =>
    expScores (exactFloats fl) (t + 1) (prefillScore (exactFloats fl) cfg w x h t) j /
      softDenom (exactFloats fl) (t + 1)
        (expScores (exactFloats fl) (t + 1) (prefillScore (exactFloats fl) cfg w x h t))
  have hmix : ∀ r < cfg.kvLoraRank.toNat, decodeMix (exactFloats fl) cfg state
      (decodeScore (exactFloats fl) cfg w state
        (queryOf (exactFloats fl) cfg w (readFrom (t * cfg.hiddenSize.toNat) x) h) t h) (t + 1) r =
      ∑ j ∈ range (t + 1), p j *
        latentOf (exactFloats fl) cfg w (readFrom (j * cfg.hiddenSize.toNat) x) r := by
    intro r hr
    have hsum := foldl_range_add (fun j => p j *
      latentOf (exactFloats fl) cfg w (readFrom (j * cfg.hiddenSize.toNat) x) r) 0 (t + 1)
    rw [zero_add] at hsum
    rw [← hsum]
    unfold decodeMix
    dsimp only
    rw [softDenom_congr hexp]
    change (List.range (t + 1)).foldl _ (0 : K) = _
    apply foldl_range_congr
    intro acc j hj
    rw [hexp j hj, hrows.latent j hj r hr]
    rfl
  have hvalue : prefillHead (exactFloats fl) cfg w x h t d =
      ∑ j ∈ range (t + 1), p j *
        prefillKeyValue (exactFloats fl) cfg w x h j (cfg.qkNopeDim.toNat + d) := by
    have hsum := foldl_range_add (fun j => p j *
      prefillKeyValue (exactFloats fl) cfg w x h j (cfg.qkNopeDim.toNat + d)) 0 (t + 1)
    rw [zero_add] at hsum
    exact hsum
  unfold decodeHead
  dsimp only
  change dotFrom (exactFloats fl) (0 : K) _ _ (decodeMix (exactFloats fl) cfg state _ (t + 1)) = _
  rw [dotFrom_congr (fun _ _ => rfl) hmix, dotFrom_exact, zero_add, contract_weights, hvalue]
  apply sum_congr rfl
  intro j _
  rw [prefillKeyValue_exact]

end Absorb

end Kvl
